import Mathlib
import SchemaGrammar.Proofs.Emission
import SchemaGrammar.Proofs.PropertyRank

/-!
# Which schemas are refused, and for which node

A visit fails if and only if some node of the schema is rejected, and then it reports the rejected
node that comes first in pre-order (`Converter.visit_fails_iff`). A node comes before its parts,
alternatives stand in the order of their list, properties by rank and then by name, and nothing
inside a constant is a node. `IsPreorder` says this of a list of nodes, and `nodes` computes it.

The proof reads the pre-order as a search: the failure of a walk is the first failure to classify
along it (`failure?_emitValue`). No table, hint or name appears on that side of the equation, so what
is registered along the way has no influence on it.
-/

namespace SchemaGrammar

open Gbnf (RuleTable)
open Json (Value Member)

/-! ## The nodes of a schema -/

/-- The nodes of a schema: the schema itself, and the parts of its nodes. -/
inductive IsNodeOf (schema : Value) : Value → Prop
  | top : IsNodeOf schema schema
  | part {v part : Value} {node : SchemaNode} : IsNodeOf schema v →
      SchemaNode.classify v = .ok node → part ∈ node.children → IsNodeOf schema part

/-- The parts of a node in the order in which they are visited: alternatives as they are listed,
properties by rank and then by name. -/
inductive InOrder (order : Option PropertyOrder) : SchemaNode → List Value → Prop
  | union {alternatives : List Value} : InOrder order (.union alternatives) alternatives
  | object {properties sorted : List Member} : sorted.Perm properties →
      sorted.Pairwise (fun p q => PropertyOrder.Before order p.1 q.1) →
      InOrder order (.object properties) (sorted.map Prod.snd)
  | array {items : Value} : InOrder order (.array items) [items]
  | const {value : Value} : InOrder order (.const value) []
  | enum {values : List Value} : InOrder order (.enum values) []
  | primitive {p : Primitive} : InOrder order (.primitive p) []

/-- A list has the nodes of a schema in pre-order. -/
inductive IsPreorder (order : Option PropertyOrder) : Value → List Value → Prop
  /-- A node that is rejected has no parts. -/
  | rejected {v : Value} {e : SchemaError} : SchemaNode.classify v = .error e →
      IsPreorder order v [v]
  /-- A node comes before its parts, and each part with all below it before the next one. -/
  | node {v : Value} {node : SchemaNode} {parts : List Value} {below : List (List Value)} :
      SchemaNode.classify v = .ok node → InOrder order node parts →
      List.Forall₂ (IsPreorder order) parts below → IsPreorder order v (v :: below.flatten)

/-- The nodes of a schema in pre-order. -/
def nodes (order : Option PropertyOrder) (v : Value) : List Value :=
  match _classified : SchemaNode.ofValue? v with
  | none => [v]
  | some node => v :: (node.parts order).attach.flatMap fun ⟨part, _⟩ => nodes order part.2
termination_by sizeOf v
decreasing_by
  exact SchemaNode.sizeOf_lt_of_mem_children _classified (SchemaNode.mem_children ‹_›)

theorem nodes_of_none {order : Option PropertyOrder} {v : Value}
    (classified : SchemaNode.ofValue? v = none) : nodes order v = [v] := by
  rw [nodes]
  split
  · rfl
  · next same =>
    rw [classified] at same
    cases same

theorem nodes_of_some {order : Option PropertyOrder} {v : Value} {node : SchemaNode}
    (classified : SchemaNode.ofValue? v = some node) :
    nodes order v = v :: (node.parts order).flatMap fun part => nodes order part.2 := by
  rw [nodes]
  split
  · next same =>
    rw [classified] at same
    cases same
  · next same =>
    rw [classified] at same
    cases same
    rw [List.flatMap_subtype fun _ _ => rfl, List.unattach_attach]

/-- The parts of a node stand in the order in which they are visited. -/
theorem SchemaNode.inOrder_parts (order : Option PropertyOrder) (node : SchemaNode) :
    InOrder order node ((node.parts order).map Prod.snd) := by
  cases node with
  | union alternatives =>
    simp only [parts, List.map_map, Function.comp_def]
    rw [List.zipIdx_map_fst]
    exact .union
  | object properties =>
    exact .object (PropertyOrder.sort_perm order properties)
      (PropertyOrder.pairwise_sort order properties)
  | const value => exact .const
  | enum values => exact .enum
  | array items => exact .array
  | primitive p => exact .primitive

/-- The computed list has the nodes in pre-order. -/
theorem isPreorder_nodes (order : Option PropertyOrder) (v : Value) :
    IsPreorder order v (nodes order v) := by
  induction v using SchemaNode.induction with
  | step v ih =>
    cases classified : SchemaNode.ofValue? v with
    | none =>
      rw [nodes_of_none classified]
      exact .rejected (SchemaNode.classify_eq_error_iff.mpr ⟨classified, rfl⟩)
    | some node =>
      rw [nodes_of_some classified, List.flatMap_def]
      refine .node (SchemaNode.classify_eq_ok_iff.mpr classified) (node.inOrder_parts order) ?_
      rw [List.forall₂_map_left_iff, List.forall₂_map_right_iff, List.forall₂_same]
      exact fun part mem => ih node classified part.2 (SchemaNode.mem_children mem)

theorem IsNodeOf.of_part {schema v w : Value} {node : SchemaNode}
    (classified : SchemaNode.classify schema = .ok node) (mem : v ∈ node.children)
    (isNode : IsNodeOf v w) : IsNodeOf schema w := by
  induction isNode with
  | top => exact .part .top classified mem
  | part _ classified' mem' ih => exact .part ih classified' mem'

theorem mem_nodes_self (order : Option PropertyOrder) (v : Value) : v ∈ nodes order v := by
  cases classified : SchemaNode.ofValue? v with
  | none =>
    rw [nodes_of_none classified]
    exact List.mem_singleton_self v
  | some node =>
    rw [nodes_of_some classified]
    exact List.mem_cons_self

/-- The parts of a listed node are listed. -/
theorem mem_nodes_of_part {order : Option PropertyOrder} {schema v part : Value}
    {node : SchemaNode} (listed : v ∈ nodes order schema)
    (classified : SchemaNode.ofValue? v = some node) (mem : part ∈ node.children) :
    part ∈ nodes order schema := by
  induction schema using SchemaNode.induction with
  | step schema ih =>
    cases top : SchemaNode.ofValue? schema with
    | none =>
      rw [nodes_of_none top, List.mem_singleton] at listed
      rw [listed, top] at classified
      cases classified
    | some topNode =>
      rw [nodes_of_some top, List.mem_cons, List.mem_flatMap] at listed ⊢
      right
      rcases listed with rfl | ⟨child, memParts, listed⟩
      · obtain rfl := Option.some.inj (top.symm.trans classified)
        have perm := topNode.parts_perm_children order
        obtain ⟨found, memParts, rfl⟩ := List.mem_map.mp (perm.mem_iff.mpr mem)
        exact ⟨found, memParts, mem_nodes_self order found.2⟩
      · exact ⟨child, memParts, ih topNode top child.2 (SchemaNode.mem_children memParts) listed⟩

/-- The list has exactly the nodes of the schema, whatever the order of properties is. -/
theorem mem_nodes_iff {order : Option PropertyOrder} {schema v : Value} :
    v ∈ nodes order schema ↔ IsNodeOf schema v := by
  constructor
  · induction schema using SchemaNode.induction with
    | step schema ih =>
      intro listed
      cases classified : SchemaNode.ofValue? schema with
      | none =>
        rw [nodes_of_none classified, List.mem_singleton] at listed
        exact listed ▸ .top
      | some node =>
        rw [nodes_of_some classified, List.mem_cons, List.mem_flatMap] at listed
        rcases listed with rfl | ⟨part, memParts, listed⟩
        · exact .top
        · have mem := SchemaNode.mem_children memParts
          exact .of_part (SchemaNode.classify_eq_ok_iff.mpr classified) mem
            (ih node classified part.2 mem listed)
  · intro isNode
    induction isNode with
    | top => exact mem_nodes_self order schema
    | part _ classified mem ih =>
      exact mem_nodes_of_part ih (SchemaNode.classify_eq_ok_iff.mp classified) mem

/-! ## The first failure -/

/-- The error of an outcome that is one. -/
def failure? {α : Type} : Except SchemaError α → Option SchemaError
  | .error e => some e
  | .ok _ => none

theorem failure?_eq_some_iff {α : Type} {outcome : Except SchemaError α} {e : SchemaError} :
    failure? outcome = some e ↔ outcome = .error e := by
  cases outcome <;> simp [failure?]

/-- The error with which a node is rejected. -/
def rejection? (v : Value) : Option SchemaError := failure? (SchemaNode.classify v)

/-- If the failure of the walk over each part is the first rejection in it, then that of the walk over
all of them is the first rejection in the parts one after the other. -/
theorem failure?_emitParts {order : Option PropertyOrder} {hint : String} :
    ∀ {parts : List (String × Value)} {table : RuleTable},
      (∀ part ∈ parts, ∀ hint table, failure? (emitValue order hint table part.2).2 =
        (nodes order part.2).findSome? rejection?) →
      failure? (emitParts order hint table parts).2 =
        (parts.flatMap fun part => nodes order part.2).findSome? rejection?
  | [], _, _ => rfl
  | part :: rest, table, each => by
    have first := each part List.mem_cons_self (childHint hint part.1) table
    have others (table : RuleTable) := @failure?_emitParts order hint rest table
      fun part mem => each part (List.mem_cons_of_mem _ mem)
    have walk := emitParts_walk order hint table part rest
    rw [List.flatMap_cons, List.findSome?_append, ← first]
    generalize emitParts order hint table (part :: rest) = outcome at walk
    cases walk with
    | failed visited =>
      rw [visited]
      rfl
    | failedLater visited walked =>
      rw [visited, ← others, walked]
      rfl
    | named visited walked =>
      rw [visited, ← others, walked]
      rfl

/-- The failure of a walk is the first rejection along the nodes in pre-order. -/
theorem failure?_emitValue (order : Option PropertyOrder) (v : Value) :
    ∀ hint table, failure? (emitValue order hint table v).2 =
      (nodes order v).findSome? rejection? := by
  induction v using SchemaNode.induction with
  | step v ih =>
    intro hint table
    have below (node : SchemaNode) (classified : SchemaNode.ofValue? v = some node) :
        (nodes order v).findSome? rejection? =
          failure? (emitParts order hint table (node.parts order)).2 := by
      have accepted : rejection? v = none := by
        rw [rejection?, SchemaNode.classify_eq_ok_iff.mpr classified]
        rfl
      rw [nodes_of_some classified, List.findSome?_cons, accepted]
      exact (failure?_emitParts fun part mem =>
        ih node classified part.2 (SchemaNode.mem_children mem)).symm
    have walk := emitValue_walk order hint table v
    generalize emitValue order hint table v = outcome at walk
    cases walk with
    | unsupported classified =>
      rw [nodes_of_none classified, List.findSome?_singleton, rejection?,
        SchemaNode.classify_eq_error_iff.mpr ⟨classified, rfl⟩]
      rfl
    | failed classified walked =>
      rw [below _ classified, walked]
      rfl
    | placed classified walked =>
      rw [below _ classified, walked]
      rfl

/-! ## Visits that fail -/

theorem rejection?_eq_none_iff {v : Value} :
    rejection? v = none ↔ ∃ node, SchemaNode.classify v = .ok node := by
  rw [rejection?]
  cases SchemaNode.classify v <;> simp [failure?]

namespace Converter

/-- A visit fails with an error if and only if the error's node is the first one in pre-order that is
rejected. So whether a visit fails depends on the schema alone, and with which error on the schema
and the order of properties: the hint and what the converter was shown before do not matter. -/
theorem visit_fails_iff (converter : Converter) (schema : Value) (hint : String) :
    IsPreorder converter.order schema (nodes converter.order schema) ∧
      (∀ e, (converter.visit schema hint).2 = .error e ↔
        ∃ before after, nodes converter.order schema = before ++ e.node :: after ∧
          SchemaNode.classify e.node = .error e ∧
          ∀ v ∈ before, ∃ node, SchemaNode.classify v = .ok node) ∧
      ((∃ e, (converter.visit schema hint).2 = .error e) ↔
        ∃ v e, IsNodeOf schema v ∧ SchemaNode.classify v = .error e) ∧
      ∀ (other : Converter) (hint' : String),
        ((∃ e, (other.visit schema hint').2 = .error e) ↔
          ∃ e, (converter.visit schema hint).2 = .error e) ∧
        (other.order = converter.order → ∀ e, (other.visit schema hint').2 = .error e ↔
          (converter.visit schema hint).2 = .error e) := by
  have first (converter : Converter) (hint : String) (e : SchemaError) :
      (converter.visit schema hint).2 = .error e ↔
        (nodes converter.order schema).findSome? rejection? = some e := by
    rw [← failure?_emitValue converter.order schema hint converter.table, failure?_eq_some_iff]
    rfl
  have fails (converter : Converter) (hint : String) :
      (∃ e, (converter.visit schema hint).2 = .error e) ↔
        ∃ v e, IsNodeOf schema v ∧ SchemaNode.classify v = .error e := by
    simp only [first, ← Option.isSome_iff_exists, List.findSome?_isSome_iff, mem_nodes_iff]
    simp only [Option.isSome_iff_exists, rejection?, failure?_eq_some_iff]
    constructor
    · rintro ⟨v, isNode, e, rejected⟩
      exact ⟨v, e, isNode, rejected⟩
    · rintro ⟨v, e, isNode, rejected⟩
      exact ⟨v, isNode, e, rejected⟩
  refine ⟨isPreorder_nodes _ schema, fun e => ?_, fails converter hint, fun other hint' => ⟨?_, ?_⟩⟩
  · rw [first, List.findSome?_eq_some_iff]
    constructor
    · rintro ⟨before, v, after, listed, rejected, accepted⟩
      have rejected := failure?_eq_some_iff.mp rejected
      obtain ⟨-, rfl⟩ := SchemaNode.classify_eq_error_iff.mp rejected
      exact ⟨before, after, listed, rejected, fun v mem => rejection?_eq_none_iff.mp (accepted v mem)⟩
    · rintro ⟨before, after, listed, rejected, accepted⟩
      exact ⟨before, e.node, after, listed, failure?_eq_some_iff.mpr rejected,
        fun v mem => rejection?_eq_none_iff.mpr (accepted v mem)⟩
  · rw [fails other hint', fails converter hint]
  · intro sameOrder e
    rw [first other hint', first converter hint, sameOrder]

/-- Of two properties with rejected schemas, the one with the lesser name is met first. -/
example :
    let schema : Value := .object [("type", .string "object"),
      ("properties", .object [("b", .null), ("a", .bool true)])]
    ((new none).visit schema "").2 = .error ⟨.bool true⟩ := by cbv

end Converter

end SchemaGrammar
