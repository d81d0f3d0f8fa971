import Mathlib
import SchemaGrammar.Proofs.DistinctKeys
import SchemaGrammar.Proofs.Emission
import SchemaGrammar.Proofs.PropertyRank

/-!
# One schema in different words

A schema can be put in other words: the keys of a node and the properties of an object may stand in
another order, and keys that say nothing to a grammar may be there or not. `Rewording` is one such
change, at any node, and a schema in other words is what any number of changes make of it.

Such schemas are compiled to one text, or neither of them is compiled
(`compile_eq_of_rewordings`). A change keeps what is read under each key, up to changes below
(`Rewording.sameKeys`), so the node has the same kind and the same parts (`sameNode_of_sameKeys`), and
properties are sorted before anything is done with them. Interchangeable parts make interchangeable
nodes (`interchangeable_of_sameNode`): the walk registers the same rules in the same order,
whatever was registered before.
-/

namespace SchemaGrammar

open Gbnf (RuleTable Body)
open Json (Value Member)

/-! ## Changes of wording -/

/-- The keys that say what a schema is. Any other key is passed over. -/
def decidingKeys : List String :=
  ["oneOf", "anyOf", "const", "enum", "type", "properties", "items"]

/-- The keys under which alternatives stand. -/
def alternativeKeys : List String := ["oneOf", "anyOf"]

/-- One change of the wording of a schema. -/
inductive Rewording : Value → Value → Prop
  /-- The keys of a node change places. -/
  | keys {members members' : List Member} : (members.map Prod.fst).Nodup →
      members'.Perm members → Rewording (.object members) (.object members')
  /-- The properties of a node change places. -/
  | properties {before after properties properties' : List Member} :
      (properties.map Prod.fst).Nodup → properties'.Perm properties →
      Rewording (.object (before ++ ("properties", .object properties) :: after))
        (.object (before ++ ("properties", .object properties') :: after))
  /-- A key that says nothing is added. -/
  | added {before after : List Member} {key : String} {v : Value} : key ∉ decidingKeys →
      Rewording (.object (before ++ after)) (.object (before ++ (key, v) :: after))
  /-- A key that says nothing is removed. -/
  | removed {before after : List Member} {key : String} {v : Value} : key ∉ decidingKeys →
      Rewording (.object (before ++ (key, v) :: after)) (.object (before ++ after))
  /-- An alternative is put in other words. -/
  | inAlternative {before after : List Member} {key : String} {front back : List Value}
      {v w : Value} : key ∈ alternativeKeys → Rewording v w →
      Rewording (.object (before ++ (key, .array (front ++ v :: back)) :: after))
        (.object (before ++ (key, .array (front ++ w :: back)) :: after))
  /-- The schema of a property is put in other words. -/
  | inProperty {before after front back : List Member} {name : String} {v w : Value} :
      Rewording v w →
      Rewording (.object (before ++ ("properties", .object (front ++ (name, v) :: back)) :: after))
        (.object (before ++ ("properties", .object (front ++ (name, w) :: back)) :: after))
  /-- The schema of the items is put in other words. -/
  | inItems {before after : List Member} {v w : Value} : Rewording v w →
      Rewording (.object (before ++ ("items", v) :: after))
        (.object (before ++ ("items", w) :: after))

/-! ## What two wordings share -/

/-- Two properties of one name, or two parts that go by one word, are the same. -/
def SamePart (Same : Value → Value → Prop) (p q : String × Value) : Prop :=
  p.1 = q.1 ∧ Same p.2 q.2

/-- Under one key two wordings have the same value, or the same schemas, or the same properties in
other places. -/
inductive SameUnder (Same : Value → Value → Prop) (key : String) : Value → Value → Prop
  | same {v : Value} : SameUnder Same key v v
  | alternatives {items items' : List Value} : key ∈ alternativeKeys →
      List.Forall₂ Same items items' → SameUnder Same key (.array items) (.array items')
  | moved {properties properties' : List Member} : key = "properties" →
      (properties.map Prod.fst).Nodup → properties'.Perm properties →
      SameUnder Same key (.object properties) (.object properties')
  | properties {properties properties' : List Member} : key = "properties" →
      List.Forall₂ (SamePart Same) properties properties' →
      SameUnder Same key (.object properties) (.object properties')
  | items {v w : Value} : key = "items" → Same v w → SameUnder Same key v w

/-- Two wordings share what is under each of the keys that say something. -/
def SameKeys (Same : Value → Value → Prop) (v w : Value) : Prop :=
  ∀ key ∈ decidingKeys, Option.Rel (SameUnder Same key) (v.get? key) (w.get? key)

/-- Nodes of the same kind with the same parts, but that properties may have other places. -/
inductive SameNode (Same : Value → Value → Prop) : SchemaNode → SchemaNode → Prop
  | same {node : SchemaNode} : SameNode Same node node
  | union {alternatives alternatives' : List Value} : List.Forall₂ Same alternatives alternatives' →
      SameNode Same (.union alternatives) (.union alternatives')
  | moved {properties properties' : List Member} : (properties.map Prod.fst).Nodup →
      properties'.Perm properties → SameNode Same (.object properties) (.object properties')
  | properties {properties properties' : List Member} :
      List.Forall₂ (SamePart Same) properties properties' →
      SameNode Same (.object properties) (.object properties')
  | array {v w : Value} : Same v w → SameNode Same (.array v) (.array w)

section Shared

variable {Same : Value → Value → Prop}

theorem sameKeys_of_lookup_eq {members members' : List Member}
    (equal : ∀ key ∈ decidingKeys, members.lookup key = members'.lookup key) :
    SameKeys Same (.object members) (.object members') := by
  intro key mem
  rw [Value.get?, Value.get?, equal key mem]
  cases members'.lookup key with
  | none => exact .none
  | some x => exact .some .same

/-- Two wordings that differ under one key share the others. -/
theorem sameKeys_replaced {before after : List Member} {key : String} {v w : Value}
    (here : SameUnder Same key v w) :
    SameKeys Same (.object (before ++ (key, v) :: after))
      (.object (before ++ (key, w) :: after)) := by
  intro other _
  rw [Value.get?, Value.get?, List.lookup_append, List.lookup_append, List.lookup_cons,
    List.lookup_cons]
  cases before.lookup other with
  | some x => exact .some .same
  | none =>
    by_cases same : (other == key) = true
    · rw [same, Option.none_or, Option.none_or]
      exact .some (beq_iff_eq.mp same ▸ here)
    · rw [Bool.eq_false_iff.mpr same, Option.none_or]
      cases after.lookup other with
      | none => exact .none
      | some x => exact .some .same

theorem lookup_added {before after : List Member} {key other : String} {v : Value}
    (foreign : key ∉ decidingKeys) (mem : other ∈ decidingKeys) :
    (before ++ (key, v) :: after).lookup other = (before ++ after).lookup other := by
  have different : (other == key) = false := beq_false_of_ne fun same => foreign (same ▸ mem)
  rw [List.lookup_append, List.lookup_append, List.lookup_cons, different]

/-! ## Nodes in two wordings -/

theorem rel_self (found : Option SchemaNode) : Option.Rel (SameNode Same) found found := by
  cases found with
  | none => exact .none
  | some node => exact .some .same

/-- Under most keys no schema stands, and the value is the same in two wordings. -/
theorem SameUnder.eq {key : String} {v w : Value} (here : SameUnder Same key v w)
    (plain : key ∉ alternativeKeys ++ ["properties", "items"]) : v = w := by
  simp only [List.mem_append, List.mem_cons, List.not_mem_nil, or_false, not_or] at plain
  cases here with
  | same => rfl
  | alternatives isKey _ => exact absurd isKey plain.1
  | moved isKey _ _ => exact absurd isKey plain.2.1
  | properties isKey _ => exact absurd isKey plain.2.1
  | items isKey _ => exact absurd isKey plain.2.2

theorem SameUnder.rel_union {key : String} {v w : Value} (here : SameUnder Same key v w)
    (mem : key ∈ alternativeKeys) :
    Option.Rel (SameNode Same) (v.asArray?.map .union) (w.asArray?.map .union) := by
  cases here with
  | same => exact rel_self _
  | alternatives _ each => exact .some (.union each)
  | moved isKey _ _ => exact absurd (isKey ▸ mem) (by decide)
  | properties isKey _ => exact absurd (isKey ▸ mem) (by decide)
  | items isKey _ => exact absurd (isKey ▸ mem) (by decide)

theorem SameUnder.rel_object {v w : Value} (here : SameUnder Same "properties" v w) :
    Option.Rel (SameNode Same) (v.asObject?.map .object) (w.asObject?.map .object) := by
  cases here with
  | same => exact rel_self _
  | alternatives isKey _ => exact absurd isKey (by decide)
  | moved _ distinct perm => exact .some (.moved distinct perm)
  | properties _ each => exact .some (.properties each)
  | items isKey _ => exact absurd isKey (by decide)

theorem SameUnder.sameNode_array {v w : Value} (here : SameUnder Same "items" v w) :
    SameNode Same (.array v) (.array w) := by
  cases here with
  | same => exact .same
  | alternatives isKey _ => exact absurd isKey (by decide)
  | moved isKey _ _ => exact absurd isKey (by decide)
  | properties isKey _ => exact absurd isKey (by decide)
  | items _ same => exact .array same

theorem SameKeys.get?_eq {v w : Value} (shared : SameKeys Same v w) (key : String)
    (mem : key ∈ decidingKeys) (plain : key ∉ alternativeKeys ++ ["properties", "items"]) :
    v.get? key = w.get? key := by
  have under := shared key mem
  generalize v.get? key = found at under
  generalize w.get? key = found' at under
  cases under with
  | none => rfl
  | some here => exact congrArg some (here.eq plain)

/-- A node that goes by its type is the same in two wordings. -/
theorem SameKeys.rel_ofType? {v w : Value} (shared : SameKeys Same v w) :
    Option.Rel (SameNode Same) (SchemaNode.ofType? v) (SchemaNode.ofType? w) := by
  have properties := shared "properties" (by decide)
  have items := shared "items" (by decide)
  unfold SchemaNode.ofType?
  rw [shared.get?_eq "type" (by decide) (by decide)]
  split
  · exact .none
  · split
    · generalize v.get? "properties" = found at properties
      generalize w.get? "properties" = found' at properties
      cases properties with
      | none => exact .none
      | some here => exact here.rel_object
    split
    · generalize v.get? "items" = found at items
      generalize w.get? "items" = found' at items
      cases items with
      | none => exact .none
      | some here => exact .some here.sameNode_array
    · exact rel_self _

/-- Two wordings that share their keys are the same node. -/
theorem SameKeys.rel_ofValue? {v w : Value} (shared : SameKeys Same v w) :
    Option.Rel (SameNode Same) (SchemaNode.ofValue? v) (SchemaNode.ofValue? w) := by
  have oneOf := shared "oneOf" (by decide)
  have anyOf := shared "anyOf" (by decide)
  unfold SchemaNode.ofValue?
  generalize v.get? "oneOf" = first at oneOf
  generalize w.get? "oneOf" = first' at oneOf
  generalize v.get? "anyOf" = second at anyOf
  generalize w.get? "anyOf" = second' at anyOf
  cases oneOf with
  | some here => exact here.rel_union (by decide)
  | none =>
    cases anyOf with
    | some here => exact here.rel_union (by decide)
    | none =>
      simp only [Option.or_none, shared.get?_eq "const" (by decide) (by decide),
        shared.get?_eq "enum" (by decide) (by decide)]
      split
      · exact rel_self _
      split
      · exact rel_self _
      · exact shared.rel_ofType?

end Shared

/-! ## Schemas that can stand for each other -/

/-- What the walk over a schema leaves and gives; of a failure only that it is one. -/
def outcome (order : Option PropertyOrder) (hint : String) (table : RuleTable) (v : Value) :
    RuleTable × Option String :=
  ((emitValue order hint table v).1, (emitValue order hint table v).2.toOption)

/-- What the walk over parts leaves and gives; of a failure only that it is one. -/
def outcomeOfParts (order : Option PropertyOrder) (hint : String) (table : RuleTable)
    (parts : List (String × Value)) : RuleTable × Option (List String) :=
  ((emitParts order hint table parts).1, (emitParts order hint table parts).2.toOption)

/-- One schema can stand in place of the other: under any hint, whatever was registered before, the
walk registers the same rules for both, and gives the same name or fails. -/
def Interchangeable (order : Option PropertyOrder) (v w : Value) : Prop :=
  ∀ hint table, outcome order hint table v = outcome order hint table w

theorem outcome_of_none {order : Option PropertyOrder} {v : Value}
    (classified : SchemaNode.ofValue? v = none) (hint : String) (table : RuleTable) :
    outcome order hint table v = (table, none) := by
  rw [outcome, emitValue_eq, classified]
  rfl

theorem outcome_of_some {order : Option PropertyOrder} {v : Value} {node : SchemaNode}
    (classified : SchemaNode.ofValue? v = some node) (hint : String) (table : RuleTable) :
    outcome order hint table v =
      match outcomeOfParts order hint table (node.parts order) with
      | (later, none) => (later, none)
      | (later, some names) =>
        (place later (node.ownHint hint) (node.body order names)).map id some := by
  rw [outcome, emitValue_eq, classified, outcomeOfParts]
  dsimp only
  rcases emitParts order hint table (node.parts order) with ⟨later, _ | names⟩ <;> rfl

theorem outcomeOfParts_cons (order : Option PropertyOrder) (hint : String) (table : RuleTable)
    (part : String × Value) (rest : List (String × Value)) :
    outcomeOfParts order hint table (part :: rest) =
      match outcome order (childHint hint part.1) table part.2 with
      | (later, none) => (later, none)
      | (later, some name) =>
        match outcomeOfParts order hint later rest with
        | (last, none) => (last, none)
        | (last, some names) => (last, some (name :: names)) := by
  rw [outcomeOfParts, emitParts, outcome]
  rcases emitValue order (childHint hint part.1) table part.2 with ⟨later, _ | name⟩
  · rfl
  · dsimp only [Except.toOption]
    rw [outcomeOfParts]
    rcases emitParts order hint later rest with ⟨last, _ | names⟩ <;> rfl

section Interchange

variable {order : Option PropertyOrder}

/-- Parts that go by the same words and can stand for each other make no difference. -/
theorem outcomeOfParts_congr {hint : String} {parts parts' : List (String × Value)}
    (each : List.Forall₂ (SamePart (Interchangeable order)) parts parts') :
    ∀ table, outcomeOfParts order hint table parts = outcomeOfParts order hint table parts' := by
  induction each with
  | nil => exact fun table => rfl
  | @cons part part' rest rest' here _ ih =>
    intro table
    obtain ⟨sameWord, interchangeable⟩ := here
    rw [outcomeOfParts_cons, outcomeOfParts_cons, sameWord, interchangeable]
    split
    · rfl
    · rw [ih]

/-- The same properties, name by name, are the two sides of one list. -/
theorem exists_pairs {Same : Value → Value → Prop} {properties properties' : List Member}
    (each : List.Forall₂ (SamePart Same) properties properties') :
    ∃ pairs : List (String × Value × Value), properties = pairs.map (fun p => (p.1, p.2.1)) ∧
      properties' = pairs.map (fun p => (p.1, p.2.2)) ∧ ∀ p ∈ pairs, Same p.2.1 p.2.2 := by
  induction each with
  | nil => exact ⟨[], rfl, rfl, nofun⟩
  | @cons p q _ _ here _ ih =>
    obtain ⟨name, v⟩ := p
    obtain ⟨name', w⟩ := q
    obtain ⟨rfl, same⟩ := here
    obtain ⟨pairs, rfl, rfl, each⟩ := ih
    exact ⟨(name, v, w) :: pairs, rfl, rfl, List.forall_mem_cons.mpr ⟨same, each⟩⟩

/-- The same node has the same parts, in the same order. -/
theorem SameNode.parts {Same : Value → Value → Prop} (refl : ∀ v, Same v v)
    {node node' : SchemaNode} (same : SameNode Same node node') (order : Option PropertyOrder) :
    List.Forall₂ (SamePart Same) (node.parts order) (node'.parts order) := by
  have unchanged (parts : List (String × Value)) : List.Forall₂ (SamePart Same) parts parts :=
    List.forall₂_same.mpr fun part _ => ⟨rfl, refl part.2⟩
  cases same with
  | same => exact unchanged _
  | union each =>
    rw [SchemaNode.parts, SchemaNode.parts, List.forall₂_map_left_iff, List.forall₂_map_right_iff]
    generalize 0 = i
    induction each generalizing i with
    | nil => exact .nil
    | cons here _ ih => exact .cons ⟨rfl, here⟩ (ih (i + 1))
  | moved distinct perm =>
    rw [SchemaNode.parts, SchemaNode.parts, PropertyOrder.sort_eq_of_perm order distinct perm]
    exact unchanged _
  | properties each =>
    obtain ⟨pairs, rfl, rfl, same⟩ := exists_pairs each
    rw [SchemaNode.parts, SchemaNode.parts, Schema.sort_map order Prod.fst pairs,
      Schema.sort_map order Prod.snd pairs, List.forall₂_map_left_iff,
      List.forall₂_map_right_iff, List.forall₂_same]
    intro p mem
    exact ⟨rfl, same p ((PropertyOrder.sort_perm order pairs).subset mem)⟩
  | array same => exact .cons ⟨rfl, same⟩ .nil

/-- The same node has the same body for given names, and is registered under the same hint. -/
theorem SameNode.body_eq {Same : Value → Value → Prop} {node node' : SchemaNode}
    (same : SameNode Same node node') (order : Option PropertyOrder) (hint : String)
    (names : List String) :
    node.body order names = node'.body order names ∧ node.ownHint hint = node'.ownHint hint := by
  cases same with
  | same => exact ⟨rfl, rfl⟩
  | union _ => exact ⟨rfl, rfl⟩
  | moved distinct perm =>
    refine ⟨?_, rfl⟩
    rw [SchemaNode.body, SchemaNode.body, PropertyOrder.sort_eq_of_perm order distinct perm]
  | properties each =>
    obtain ⟨pairs, rfl, rfl, -⟩ := exists_pairs each
    refine ⟨?_, rfl⟩
    rw [SchemaNode.body, SchemaNode.body, Schema.sort_map order Prod.fst pairs,
      Schema.sort_map order Prod.snd pairs, List.map_map, List.map_map]
    rfl
  | array _ => exact ⟨rfl, rfl⟩

/-- Two wordings can stand for each other if what they share can. -/
theorem SameKeys.interchangeable {v w : Value}
    (shared : SameKeys (Interchangeable order) v w) : Interchangeable order v w := by
  have nodes := shared.rel_ofValue?
  intro hint table
  generalize classified : SchemaNode.ofValue? v = found at nodes
  generalize classified' : SchemaNode.ofValue? w = found' at nodes
  cases nodes with
  | none => rw [outcome_of_none classified, outcome_of_none classified']
  | some same =>
    have parts := same.parts (fun _ _ _ => rfl) order
    rw [outcome_of_some classified, outcome_of_some classified', outcomeOfParts_congr parts]
    split
    · rfl
    · next names _ =>
      obtain ⟨sameBody, sameHint⟩ := same.body_eq order hint names
      rw [sameBody, sameHint]

/-! ## Schemas in other words -/

/-- A schema in which one thing has been changed can stand for the one it was made from. -/
theorem Rewording.interchangeable {v w : Value} (reworded : Rewording v w) :
    Interchangeable order v w := by
  have equal (v : Value) : Interchangeable order v v := fun hint table => rfl
  induction reworded with
  | keys distinct perm =>
    exact (sameKeys_of_lookup_eq fun key _ =>
      (Keyed.lookup_eq_of_perm distinct perm key).symm).interchangeable
  | properties distinct perm =>
    exact (sameKeys_replaced (.moved rfl distinct perm)).interchangeable
  | added foreign =>
    exact (sameKeys_of_lookup_eq fun key mem => (lookup_added foreign mem).symm).interchangeable
  | removed foreign =>
    exact (sameKeys_of_lookup_eq fun key mem => lookup_added foreign mem).interchangeable
  | @inAlternative before after key front back v w isKey _ ih =>
    have others (items : List Value) : List.Forall₂ (Interchangeable order) items items :=
      List.forall₂_same.mpr fun item _ => equal item
    have each : List.Forall₂ (Interchangeable order) (front ++ v :: back) (front ++ w :: back) :=
      List.rel_append (others front) (.cons ih (others back))
    exact (sameKeys_replaced (.alternatives isKey each)).interchangeable
  | @inProperty before after front back name v w _ ih =>
    have others (entries : List Member) :
        List.Forall₂ (SamePart (Interchangeable order)) entries entries :=
      List.forall₂_same.mpr fun entry _ => ⟨rfl, equal entry.2⟩
    have each : List.Forall₂ (SamePart (Interchangeable order)) (front ++ (name, v) :: back)
        (front ++ (name, w) :: back) :=
      List.rel_append (others front) (.cons ⟨rfl, ih⟩ (others back))
    exact (sameKeys_replaced (.properties rfl each)).interchangeable
  | inItems _ ih => exact (sameKeys_replaced (.items rfl ih)).interchangeable

/-- So can a schema after any number of changes. -/
theorem interchangeable_of_rewordings {v w : Value}
    (reworded : Relation.ReflTransGen Rewording v w) : Interchangeable order v w := by
  induction reworded with
  | refl => exact fun hint table => rfl
  | tail _ last ih => exact fun hint table => (ih hint table).trans (last.interchangeable hint table)

/-- What compiling gives is told by the walk over the schema. -/
theorem toOption_compile (order : Option PropertyOrder) (schema : Value) :
    (compile order schema).toOption =
      (outcome order "" .initial schema).2.map fun _ =>
        Gbnf.rulesText (outcome order "" .initial schema).1.toList := by
  rw [compile, compileGrammar, Converter.visit_eq, outcome]
  dsimp only [Converter.new]
  cases (emitValue order "" .initial schema).2 <;> rfl

/-- Two wordings of one schema are compiled to the same text, or neither of them is compiled. -/
theorem compile_eq_of_rewordings {v w : Value}
    (reworded : Relation.ReflTransGen Rewording v w) :
    (∃ text, compile order v = .ok text ∧ compile order w = .ok text) ∨
      ∃ e e', compile order v = .error e ∧ compile order w = .error e' := by
  have same : (compile order v).toOption = (compile order w).toOption := by
    rw [toOption_compile, toOption_compile, interchangeable_of_rewordings reworded]
  cases compiled : compile order v with
  | ok text =>
    cases compiled' : compile order w with
    | ok text' =>
      rw [compiled, compiled'] at same
      obtain rfl := Option.some.inj same
      exact .inl ⟨text, rfl, rfl⟩
    | error e =>
      rw [compiled, compiled'] at same
      cases same
  | error e =>
    cases compiled' : compile order w with
    | ok text =>
      rw [compiled, compiled'] at same
      cases same
    | error e' => exact .inr ⟨e, e', rfl, rfl⟩

end Interchange

/-- The properties and the keys of a node change places, a title is added, and a pattern is added to
the schema of a property; one property is ranked last of all and the other one as if unranked. -/
theorem compile_eq_of_rewordings_nested :
    let order : Option PropertyOrder := some [("a", .nan), ("b", .infinity)]
    let type (word : String) : Member := ("type", .string word)
    let b : Member := ("b", .object [("enum", .array [.null])])
    let v : Value :=
      .object [type "object", ("properties", .object [("a", .object [type "string"]), b])]
    let w : Value := .object
      [("title", .string "t"), ("properties", .object [b, ("a", .object
        [("pattern", .string "^x"), type "string"])]), type "object"]
    Relation.ReflTransGen Rewording v w ∧
      ∃ text, compile order v = .ok text ∧ compile order w = .ok text := by
  intro order type b v w
  let a : Value := .object [type "string"]
  let a' : Value := .object [("pattern", .string "^x"), type "string"]
  have moved : Rewording v (.object [type "object", ("properties", .object [b, ("a", a)])]) :=
    @Rewording.properties [type "object"] [] [("a", a), b] [b, ("a", a)] (by decide) (.swap ..)
  have turned : Rewording (.object [type "object", ("properties", .object [b, ("a", a)])])
      (.object [("properties", .object [b, ("a", a)]), type "object"]) :=
    .keys (by decide) (.swap ..)
  have titled : Rewording (.object [("properties", .object [b, ("a", a)]), type "object"])
      (.object [("title", .string "t"), ("properties", .object [b, ("a", a)]), type "object"]) :=
    @Rewording.added [] _ "title" (.string "t") (by decide)
  have patterned : Rewording a a' :=
    @Rewording.added [] [type "string"] "pattern" (.string "^x") (by decide)
  have inside : Rewording
      (.object [("title", .string "t"), ("properties", .object [b, ("a", a)]), type "object"]) w :=
    @Rewording.inProperty [("title", .string "t")] [type "object"] [b] [] "a" a a' patterned
  have reworded : Relation.ReflTransGen Rewording v w :=
    (((Relation.ReflTransGen.single moved).tail turned).tail titled).tail inside
  refine ⟨reworded, (compile_eq_of_rewordings reworded).resolve_right ?_⟩
  rintro ⟨e, -, failed, -⟩
  have compiled : (compile order v).toOption.isSome = true := by cbv
  rw [failed] at compiled
  cases compiled

end SchemaGrammar
