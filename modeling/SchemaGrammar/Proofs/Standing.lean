import SchemaGrammar.Proofs.BodyText
import SchemaGrammar.Proofs.Emission
import Mathlib.Data.List.Forall2

/-!
# Names that hold what they were given for

`Holds order table v name` says that the table's body under `name` is the body of the schema `v`, for
names of its parts that hold the parts in the same table. Those are the names that the body refers
to (`SchemaNode.references_body`). Growth of the table keeps it (`Holds.mono`), since a name once
found is found for good.

`emitValue_emits` is what the walk guarantees on every outcome: the table is sound, it extends the
one before, and if the walk gives a name then that name holds the schema. `emitValue_preserves` is
the induction for everything else: what the registration of one node keeps, knowing that the names
of its parts hold them, the whole walk keeps.
-/

namespace SchemaGrammar

open Gbnf (RuleTable Body IsRuleName rootName)
open Json (Value Member)

/-- A name holds a schema: in this table its body is that of the schema's node, for names that hold
the node's parts. -/
inductive Holds (order : Option PropertyOrder) (table : RuleTable) : Value → String → Prop
  | intro {v : Value} {node : SchemaNode} {names : List String} {name : String}
      (classified : SchemaNode.ofValue? v = some node)
      (parts : List.Forall₂ (Holds order table) ((node.parts order).map Prod.snd) names)
      (found : table.get? name = some (node.body order names).text) : Holds order table v name

namespace SchemaNode

variable {order : Option PropertyOrder} {node : SchemaNode}

/-- What follows for each child follows for the parts and their names. -/
theorem parts_imp {R S : Value → String → Prop} {names : List String}
    (below : ∀ c ∈ node.children, ∀ name, R c name → S c name)
    (parts : List.Forall₂ R ((node.parts order).map Prod.snd) names) :
    List.Forall₂ S ((node.parts order).map Prod.snd) names := by
  have children : ∀ c ∈ (node.parts order).map Prod.snd, ∀ name, R c name → S c name :=
    fun c mem => below c ((node.parts_perm_children order).mem_iff.mp mem)
  exact ((List.forall₂_and_left _ _).mpr ⟨children, parts⟩).imp fun c name h => h.1 name h.2

/-- Each name is that of a child. -/
theorem exists_child_of_mem {R : Value → String → Prop} {names : List String}
    (parts : List.Forall₂ R ((node.parts order).map Prod.snd) names) {name : String}
    (mem : name ∈ names) : ∃ c ∈ node.children, R c name := by
  have below := (node.parts_perm_children order).subset
  generalize (node.parts order).map Prod.snd = values at parts below
  induction parts with
  | nil => cases mem
  | @cons v first values names here _ ih =>
    rcases List.mem_cons.mp mem with rfl | mem
    · exact ⟨v, below List.mem_cons_self, here⟩
    · exact ih mem fun c mem => below (List.mem_cons_of_mem v mem)

theorem length_eq_of_parts {R : Value → String → Prop} {names : List String}
    (parts : List.Forall₂ R ((node.parts order).map Prod.snd) names) :
    names.length = (node.parts order).length := by
  rw [← parts.length_eq, List.length_map]

/-- The body of a node refers to rule names if its parts have some. -/
theorem isNamed_body {R : Value → String → Prop} {names : List String}
    (parts : List.Forall₂ R ((node.parts order).map Prod.snd) names)
    (areNames : ∀ name ∈ names, IsRuleName name) : (node.body order names).IsNamed := by
  cases node with
  | union alternatives => exact areNames
  | object properties => exact fun field mem => areNames field.2 (List.of_mem_zip mem).2
  | array items =>
    obtain ⟨name, rfl⟩ := List.length_eq_one_iff.mp (length_eq_of_parts parts)
    exact areNames name List.mem_cons_self
  | _ => exact trivial

/-- The body of a node refers to the names of its parts. -/
theorem references_body {R : Value → String → Prop} {names : List String}
    (parts : List.Forall₂ R ((node.parts order).map Prod.snd) names) :
    (node.body order names).references = names := by
  have count := length_eq_of_parts parts
  cases node with
  | union alternatives => rfl
  | object properties =>
    exact List.map_snd_zip (by rw [List.length_map]; exact Nat.le_of_eq count)
  | array items =>
    obtain ⟨name, rfl⟩ := List.length_eq_one_iff.mp count
    rfl
  | const value => exact (List.length_eq_zero_iff.mp count).symm
  | enum values => exact (List.length_eq_zero_iff.mp count).symm
  | primitive p => exact (List.length_eq_zero_iff.mp count).symm

end SchemaNode

/-- What a name holds, it holds in every table in which no name says anything else. -/
theorem Holds.mono {order : Option PropertyOrder} {table later : RuleTable}
    (kept : ∀ name body, table.get? name = some body → later.get? name = some body) {v : Value} :
    ∀ name, Holds order table v name → Holds order later v name := by
  induction v using SchemaNode.induction with
  | step v ih =>
    intro name holds
    cases holds with
    | intro classified parts found =>
      exact .intro classified (SchemaNode.parts_imp (ih _ classified) parts) (kept _ _ found)

/-! ## Registering the body of a node -/

/-- A body is registered under a rule name, which is not that of the start rule unless the hint is
empty. -/
theorem place_registers {table : RuleTable} (sound : table.Sound) (hint : String) (body : Body) :
    table.Registers body.text (place table hint body).1 (place table hint body).2 ∧
      IsRuleName (place table hint body).2 ∧
      (hint ≠ "" → (place table hint body).2 ≠ rootName) := by
  unfold SchemaGrammar.place
  split
  · next empty =>
    obtain ⟨registers, isName⟩ := sound.addRoot body.text
    exact ⟨registers, isName, fun h => absurd (String.isEmpty_iff.mp empty) h⟩
  · next notEmpty =>
    have h : hint ≠ "" := fun empty => notEmpty (String.isEmpty_iff.mpr empty)
    obtain ⟨registers, isName, notRoot⟩ := sound.add h body.text
    exact ⟨registers, isName, fun _ => notRoot⟩

/-! ## The walk -/

/-- What the walk over a schema guarantees, whether it gives a name or fails. -/
structure Emits (order : Option PropertyOrder) (table : RuleTable) (v : Value)
    (outcome : RuleTable × Except SchemaError String) : Prop where
  sound : outcome.1.Sound
  grown : table.Extends outcome.1
  holds : ∀ name, outcome.2 = .ok name → Holds order outcome.1 v name ∧ IsRuleName name

/-- What the walk over the parts of a node guarantees. -/
structure EmitsParts (order : Option PropertyOrder) (table : RuleTable)
    (parts : List (String × Value)) (outcome : RuleTable × Except SchemaError (List String)) :
    Prop where
  sound : outcome.1.Sound
  grown : table.Extends outcome.1
  holds : ∀ names, outcome.2 = .ok names →
    List.Forall₂ (Holds order outcome.1) (parts.map Prod.snd) names ∧
      ∀ name ∈ names, IsRuleName name

/-- Names that hold something go on holding it while the table grows. -/
theorem Holds.grow {order : Option PropertyOrder} {table later : RuleTable}
    (sound : table.Sound) (sound' : later.Sound) (grown : table.Extends later) {v : Value}
    {name : String} (holds : Holds order table v name) : Holds order later v name :=
  holds.mono (fun _ _ => grown.get? sound sound') name

/-- If names hold the parts of a node, then the name under which the node's body is registered holds
the node. -/
theorem holds_of_registers {order : Option PropertyOrder} {table later : RuleTable}
    (sound : table.Sound) {v : Value} {node : SchemaNode} {names : List String} {given : String}
    (classified : SchemaNode.ofValue? v = some node)
    (parts : List.Forall₂ (Holds order table) ((node.parts order).map Prod.snd) names)
    (registers : table.Registers (node.body order names).text later given) :
    Holds order later v given := by
  refine .intro classified (parts.imp fun _ _ holds => ?_) registers.found
  exact holds.grow sound registers.sound registers.extends

/-- If the walk is right on every part, it is right on all of them together: the name of an earlier
part outlives the registration of the later ones. -/
theorem emitParts_emits_of_forall {order : Option PropertyOrder} (hint : String)
    {parts : List (String × Value)}
    (right : ∀ part ∈ parts, ∀ hint table, RuleTable.Sound table →
      Emits order table part.2 (emitValue order hint table part.2)) :
    ∀ table, RuleTable.Sound table →
      EmitsParts order table parts (emitParts order hint table parts) := by
  induction parts with
  | nil =>
    intro table sound
    refine ⟨sound, .refl table, fun names given => ?_⟩
    cases given
    exact ⟨.nil, fun name mem => absurd mem List.not_mem_nil⟩
  | cons part rest ih =>
    intro table sound
    have first := right part List.mem_cons_self (childHint hint part.1) table sound
    have others := ih fun part mem => right part (List.mem_cons_of_mem _ mem)
    have walk := emitParts_walk order hint table part rest
    generalize emitParts order hint table (part :: rest) = outcome at walk
    cases walk with
    | failed visited =>
      rw [visited] at first
      exact ⟨first.sound, first.grown, nofun⟩
    | failedLater visited walked =>
      rw [visited] at first
      have more := others _ first.sound
      rw [walked] at more
      exact ⟨more.sound, first.grown.trans more.grown, nofun⟩
    | @named middle later name names visited walked =>
      rw [visited] at first
      have more := others middle first.sound
      rw [walked] at more
      refine ⟨more.sound, first.grown.trans more.grown, fun all given => ?_⟩
      cases given
      obtain ⟨holds, isName⟩ := first.holds name rfl
      obtain ⟨held, areNames⟩ := more.holds names rfl
      refine ⟨.cons (holds.grow first.sound more.sound more.grown) held, fun other mem => ?_⟩
      obtain rfl | mem := List.mem_cons.mp mem
      · exact isName
      · exact areNames other mem

/-- The walk keeps a table sound, only adds to it, and gives a name that holds the schema. -/
theorem emitValue_emits (order : Option PropertyOrder) (v : Value) :
    ∀ hint table, RuleTable.Sound table →
      Emits order table v (emitValue order hint table v) := by
  induction v using SchemaNode.induction with
  | step v ih =>
    intro hint table sound
    have below (node : SchemaNode) (classified : SchemaNode.ofValue? v = some node) :
        EmitsParts order table (node.parts order) (emitParts order hint table (node.parts order)) :=
      emitParts_emits_of_forall hint
        (fun part mem => ih node classified part.2 (SchemaNode.mem_children mem)) table sound
    have walk := emitValue_walk order hint table v
    generalize emitValue order hint table v = outcome at walk
    cases walk with
    | unsupported _ => exact ⟨sound, .refl table, nofun⟩
    | failed classified walked =>
      have parts := below _ classified
      rw [walked] at parts
      exact ⟨parts.sound, parts.grown, nofun⟩
    | @placed node middle names classified walked =>
      have parts := below node classified
      rw [walked] at parts
      obtain ⟨held, -⟩ := parts.holds names rfl
      obtain ⟨registers, isName, -⟩ :=
        place_registers parts.sound (node.ownHint hint) (node.body order names)
      refine ⟨registers.sound, parts.grown.trans registers.extends, fun name given => ?_⟩
      cases given
      exact ⟨holds_of_registers parts.sound classified held registers, isName⟩

/-- The same of the walk over parts. -/
theorem emitParts_emits (order : Option PropertyOrder) (parts : List (String × Value))
    (hint : String) {table : RuleTable} (sound : table.Sound) :
    EmitsParts order table parts (emitParts order hint table parts) :=
  emitParts_emits_of_forall hint (fun part _ => emitValue_emits order part.2) table sound

theorem emitValue_emits_of_eq {order : Option PropertyOrder} {hint : String} {table : RuleTable}
    {v : Value} {outcome : RuleTable × Except SchemaError String} (sound : table.Sound)
    (visited : emitValue order hint table v = outcome) : Emits order table v outcome :=
  visited ▸ emitValue_emits order v hint table sound

theorem emitParts_emits_of_eq {order : Option PropertyOrder} {hint : String} {table : RuleTable}
    {parts : List (String × Value)} {outcome : RuleTable × Except SchemaError (List String)}
    (sound : table.Sound) (walked : emitParts order hint table parts = outcome) :
    EmitsParts order table parts outcome :=
  walked ▸ emitParts_emits order parts hint sound

/-- If the walk over parts gives names, then it has visited each part with success, from a table that
extends the first one and with an outcome that the last one extends. -/
theorem emitParts_visits {order : Option PropertyOrder} {hint : String} {part : String × Value}
    {later : RuleTable} :
    ∀ {parts : List (String × Value)} {table : RuleTable} {names : List String},
      part ∈ parts → table.Sound → emitParts order hint table parts = (later, .ok names) →
      ∃ before after name, before.Sound ∧ table.Extends before ∧
        emitValue order (childHint hint part.1) before part.2 = (after, .ok name) ∧
        after.Extends later
  | [], _, _, mem, _, _ => absurd mem List.not_mem_nil
  | head :: rest, table, names, mem, sound, walked => by
    have walk := emitParts_walk order hint table head rest
    rw [walked] at walk
    cases walk with
    | @named middle _ first more visited following =>
      have emits := emitValue_emits_of_eq sound visited
      have soundMiddle : middle.Sound := emits.sound
      rcases List.mem_cons.mp mem with rfl | mem
      · have others := emitParts_emits_of_eq soundMiddle following
        exact ⟨table, middle, first, sound, .refl table, visited, others.grown⟩
      · obtain ⟨before, after, name, sound', grown, visited', further⟩ :=
          emitParts_visits mem soundMiddle following
        exact ⟨before, after, name, sound', emits.grown.trans grown, visited', further⟩

/-- What each part keeps, all of them together keep. -/
theorem emitParts_preserves {order : Option PropertyOrder} {Kept : RuleTable → Prop}
    (hint : String) :
    ∀ {parts : List (String × Value)},
      (∀ part ∈ parts, ∀ table, RuleTable.Sound table → Kept table →
        Kept (emitValue order (childHint hint part.1) table part.2).1) →
      ∀ table, RuleTable.Sound table → Kept table → Kept (emitParts order hint table parts).1
  | [], _, _, _, kept => kept
  | part :: rest, keeps, table, sound, kept => by
    have first := keeps part List.mem_cons_self table sound kept
    have sound' := (emitValue_emits order part.2 (childHint hint part.1) table sound).sound
    cases visited : emitValue order (childHint hint part.1) table part.2 with
    | mk middle result =>
      rw [visited] at first sound'
      cases result with
      | error e =>
        rw [emitParts_cons_of_error visited]
        exact first
      | ok name =>
        rw [emitParts_cons_of_ok visited]
        exact emitParts_preserves hint (fun part mem => keeps part (List.mem_cons_of_mem _ mem))
          middle sound' first

/-- What registering the body of a node keeps, the whole walk keeps. `Due` says under which hints
which documents are met; a node may be registered once the names of its parts hold them. -/
theorem emitValue_preserves {order : Option PropertyOrder} {Due : String → Value → Prop}
    {Kept : RuleTable → Prop}
    (below : ∀ hint v node part, Due hint v → SchemaNode.ofValue? v = some node →
      part ∈ node.parts order → Due (childHint hint part.1) part.2)
    (step : ∀ hint v node names table, Due hint v → SchemaNode.ofValue? v = some node →
      RuleTable.Sound table →
      List.Forall₂ (Holds order table) ((node.parts order).map Prod.snd) names →
      (∀ name ∈ names, IsRuleName name) → Kept table →
      Kept (place table (node.ownHint hint) (node.body order names)).1) (v : Value) :
    ∀ hint table, Due hint v → RuleTable.Sound table → Kept table →
      Kept (emitValue order hint table v).1 := by
  induction v using SchemaNode.induction with
  | step v ih =>
    intro hint table due sound kept
    have keptAll (node : SchemaNode) (classified : SchemaNode.ofValue? v = some node) :
        Kept (emitParts order hint table (node.parts order)).1 :=
      emitParts_preserves hint
        (fun part mem table => ih node classified part.2 (SchemaNode.mem_children mem) _ table
          (below hint v node part due classified mem))
        table sound kept
    have walk := emitValue_walk order hint table v
    generalize emitValue order hint table v = outcome at walk
    cases walk with
    | unsupported _ => exact kept
    | failed classified walked =>
      have kept := keptAll _ classified
      rw [walked] at kept
      exact kept
    | @placed node middle names classified walked =>
      have kept := keptAll node classified
      have parts := emitParts_emits_of_eq sound walked
      rw [walked] at kept
      obtain ⟨held, areNames⟩ := parts.holds names rfl
      exact step hint v node names middle due classified parts.sound held areNames kept

/-! ## Names of rules -/

/-- All rules of a table have rule names. -/
def RuleTable.Named (table : RuleTable) : Prop := ∀ rule ∈ table.toList, IsRuleName rule.1

theorem named_initial : RuleTable.Named .initial := by
  intro rule mem
  rw [RuleTable.toList_initial] at mem
  rw [List.mem_singleton.mp mem]
  exact Gbnf.isRuleName_spaceName

/-- The walk gives rule names only. -/
theorem emitValue_named (order : Option PropertyOrder) (v : Value) (hint : String)
    {table : RuleTable} (sound : table.Sound) (named : RuleTable.Named table) :
    RuleTable.Named (emitValue order hint table v).1 := by
  refine @emitValue_preserves order (fun _ _ => True) _ (fun _ _ _ _ _ _ _ => trivial) ?_ v hint
    table trivial sound named
  intro hint v node names table _ _ sound _ _ named
  obtain ⟨registers, isName, -⟩ :=
    place_registers sound (node.ownHint hint) (node.body order names)
  intro rule mem
  rcases registers.mem_or_eq mem with mem | rfl
  · exact named rule mem
  · exact isName

end SchemaGrammar
