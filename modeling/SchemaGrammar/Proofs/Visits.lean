import Mathlib.Logic.Relation
import SchemaGrammar.Proofs.Standing

/-!
# The visits that a visit is made of

A visit of a node makes a visit for each of its parts, one after the other on the same converter, and
those make visits in turn. `Visit.Calls` is the relation between a visit and the visits that it makes
for the parts of its node, so all that happens during a visit is what its reflexive and transitive
closure reaches.

Three things are known of the visits inside a visit. The converter only grows from each of them to the
end (`Visit.Calls.grows`). If the visit gives a name, then so does each visit that it calls
(`Visit.Calls.gives`). And every rule that is in the table at the end and was not there at the
beginning is added by some visit inside, to which it is given (`Visit.exists_adding_of_mem_after`):
there is no other way for a rule to come about.

A converter is used for visits one after the other, whether they fail or not (`Converter.visitAll`).
`Converter.Makes` relates them to all visits that are made meanwhile, and the same is known of these.
-/

namespace SchemaGrammar

open Gbnf (RuleTable Rule Body)
open Json (Value)

theorem Converter.visit_of_emitValue {order : Option PropertyOrder} {hint : String}
    {table later : RuleTable} {v : Value} {result : Except SchemaError String}
    (visited : emitValue order hint table v = (later, result)) :
    (⟨order, table⟩ : Converter).visit v hint = (⟨order, later⟩, result) := by
  rw [visit_eq, visited]

/-- A visit that is to be made: the converter at that moment, the schema and the hint. -/
structure Visit where
  converter : Converter
  schema : Value
  hint : String

namespace Visit

/-- The converter after the visit. -/
def after (visit : Visit) : Converter := (visit.converter.visit visit.schema visit.hint).1

/-- The name that the visit gives, or the error with which it fails. -/
def given (visit : Visit) : Except SchemaError String :=
  (visit.converter.visit visit.schema visit.hint).2

/-- A visit is one of those that are made for parts, one after the other. Each starts from the
converter that the one before left, and none is made behind one that fails. -/
inductive ForPart (hint : String) : Converter → List (String × Value) → Visit → Prop
  | first {converter : Converter} {part : String × Value} {rest : List (String × Value)} :
      ForPart hint converter (part :: rest) ⟨converter, part.2, childHint hint part.1⟩
  | later {converter next : Converter} {part : String × Value} {rest : List (String × Value)}
      {name : String} {visit : Visit} :
      converter.visit part.2 (childHint hint part.1) = (next, .ok name) →
      ForPart hint next rest visit → ForPart hint converter (part :: rest) visit

/-- One visit makes another one for a part of its node. -/
def Calls (visit child : Visit) : Prop :=
  ∃ node, SchemaNode.classify visit.schema = .ok node ∧
    ForPart visit.hint visit.converter (node.parts visit.converter.order) child

/-! ## Visits for parts -/

section ForPart

variable {order : Option PropertyOrder} {hint : String}

/-- A visit for a part is made on a converter with the same order and a sound table. -/
theorem ForPart.keeps {converter : Converter} {parts : List (String × Value)} {child : Visit}
    (forPart : ForPart hint converter parts child) (sound : converter.table.Sound) :
    child.converter.order = converter.order ∧ child.converter.table.Sound ∧
      ∃ part ∈ parts, child.schema = part.2 ∧ child.hint = childHint hint part.1 := by
  induction forPart with
  | @first converter part rest => exact ⟨rfl, sound, part, List.mem_cons_self, rfl, rfl⟩
  | @later converter next part rest name child visited _ ih =>
    have emits :=
      emitValue_emits converter.order part.2 (childHint hint part.1) converter.table sound
    rw [Converter.visit_eq] at visited
    obtain ⟨rfl, -⟩ := Prod.mk.inj visited
    obtain ⟨sameOrder, sound', found, mem, sameSchema, sameHint⟩ := ih emits.sound
    exact ⟨sameOrder, sound', found, List.mem_cons_of_mem _ mem, sameSchema, sameHint⟩

/-- The table behind all parts extends the one that a visit for a part leaves, whether all of them are
given names or not. -/
theorem ForPart.grows {parts : List (String × Value)} {child : Visit} :
    ∀ {table : RuleTable}, ForPart hint ⟨order, table⟩ parts child → table.Sound →
      child.after.table.Extends (emitParts order hint table parts).1 := by
  induction parts with
  | nil => nofun
  | cons part rest ih =>
    intro table forPart sound
    cases forPart with
    | first =>
      cases visited : emitValue order (childHint hint part.1) table part.2 with
      | mk middle result =>
        rw [Visit.after, Converter.visit_of_emitValue visited]
        cases result with
        | error e =>
          rw [emitParts_cons_of_error visited]
          exact .refl middle
        | ok name =>
          rw [emitParts_cons_of_ok visited]
          exact (emitParts_emits order rest hint (emitValue_emits_of_eq sound visited).sound).grown
    | later visited forPart =>
      rw [Converter.visit_eq] at visited
      obtain ⟨rfl, given⟩ := Prod.mk.inj visited
      rw [emitParts_cons_of_ok (Prod.ext rfl given)]
      exact ih forPart (emitValue_emits order part.2 _ table sound).sound

/-- If all parts are given names, then each visit for a part gives one of them. -/
theorem ForPart.gives {parts : List (String × Value)} {child : Visit} :
    ∀ {table later : RuleTable} {names : List String}, ForPart hint ⟨order, table⟩ parts child →
      emitParts order hint table parts = (later, .ok names) →
      ∃ name ∈ names, child.given = .ok name := by
  induction parts with
  | nil => nofun
  | cons part rest ih =>
    intro table later names forPart walked
    have walk := emitParts_walk order hint table part rest
    rw [walked] at walk
    cases walk with
    | @named middle _ name names visited following =>
      cases forPart with
      | first => exact ⟨name, List.mem_cons_self, congrArg Prod.snd visited⟩
      | later visited' forPart =>
        rw [Converter.visit_of_emitValue visited] at visited'
        obtain ⟨rfl, -⟩ := Prod.mk.inj visited'
        obtain ⟨other, mem, given⟩ := ih forPart following
        exact ⟨other, List.mem_cons_of_mem _ mem, given⟩

/-- If all parts are given names, then a visit is made for each of them. -/
theorem exists_forPart {parts : List (String × Value)} :
    ∀ {table later : RuleTable} {names : List String},
      emitParts order hint table parts = (later, .ok names) → ∀ part ∈ parts,
        ∃ child, ForPart hint ⟨order, table⟩ parts child ∧ child.schema = part.2 ∧
          child.hint = childHint hint part.1 := by
  induction parts with
  | nil => exact fun _ part mem => absurd mem List.not_mem_nil
  | cons first rest ih =>
    intro table later names walked part mem
    have walk := emitParts_walk order hint table first rest
    rw [walked] at walk
    cases walk with
    | named visited following =>
      rcases List.mem_cons.mp mem with rfl | mem
      · exact ⟨_, .first, rfl, rfl⟩
      · obtain ⟨child, forPart, sameSchema, sameHint⟩ := ih following part mem
        exact ⟨child, .later (Converter.visit_of_emitValue visited) forPart, sameSchema, sameHint⟩

/-- A rule that the walk over parts adds is added by a visit for one of them. -/
theorem exists_forPart_of_mem {rule : Rule} {parts : List (String × Value)} :
    ∀ {table : RuleTable}, rule ∈ (emitParts order hint table parts).1.toList →
      rule ∉ table.toList → ∃ child, ForPart hint ⟨order, table⟩ parts child ∧
        rule ∈ child.after.table.toList ∧ rule ∉ child.converter.table.toList := by
  induction parts with
  | nil => exact fun mem new => absurd mem new
  | cons part rest ih =>
    intro table mem new
    cases visited : emitValue order (childHint hint part.1) table part.2 with
    | mk middle result =>
      have here (mem : rule ∈ middle.toList) : ∃ child,
          ForPart hint ⟨order, table⟩ (part :: rest) child ∧
            rule ∈ child.after.table.toList ∧ rule ∉ child.converter.table.toList := by
        refine ⟨_, .first, ?_, new⟩
        rw [Visit.after, Converter.visit_of_emitValue visited]
        exact mem
      cases result with
      | error e => exact here (emitParts_cons_of_error visited ▸ mem)
      | ok name =>
        by_cases old : rule ∈ middle.toList
        · exact here old
        · obtain ⟨child, forPart, added, absent⟩ := ih (emitParts_cons_of_ok visited ▸ mem) old
          exact ⟨child, .later (Converter.visit_of_emitValue visited) forPart, added, absent⟩

end ForPart

/-! ## Visits inside a visit -/

/-- A visit that gives a name has classified its node and named all parts, and has then registered
the node's body under that name. -/
theorem exists_of_given {visit : Visit} {name : String} (given : visit.given = .ok name) :
    ∃ node later names, SchemaNode.classify visit.schema = .ok node ∧
      emitParts visit.converter.order visit.hint visit.converter.table
        (node.parts visit.converter.order) = (later, .ok names) ∧
      place later (node.ownHint visit.hint) (node.body visit.converter.order names) =
        (visit.after.table, name) := by
  have visited : emitValue visit.converter.order visit.hint visit.converter.table visit.schema =
    (visit.after.table, .ok name) := Prod.ext rfl given
  obtain ⟨node, later, names, classified, walked, placed⟩ := exists_of_emitValue_eq_ok visited
  exact ⟨node, later, names, SchemaNode.classify_eq_ok_iff.mpr classified, walked, placed⟩

theorem sound_after {visit : Visit} (sound : visit.converter.table.Sound) :
    visit.after.table.Sound :=
  (emitValue_emits visit.converter.order visit.schema visit.hint visit.converter.table sound).sound

/-- The name that a visit gives has in the end the text of the node's body, which refers to the names
of the parts. -/
theorem exists_body_of_given {visit : Visit} (sound : visit.converter.table.Sound) {name : String}
    (given : visit.given = .ok name) :
    ∃ node later names, SchemaNode.classify visit.schema = .ok node ∧
      emitParts visit.converter.order visit.hint visit.converter.table
        (node.parts visit.converter.order) = (later, .ok names) ∧
      (node.body visit.converter.order names).IsNamed ∧
      (node.body visit.converter.order names).references = names ∧
      visit.after.table.get? name = some (node.body visit.converter.order names).text := by
  obtain ⟨node, later, names, classified, walked, placed⟩ := exists_of_given given
  have parts := emitParts_emits_of_eq sound walked
  obtain ⟨held, areNames⟩ := parts.holds names rfl
  obtain ⟨registers, -⟩ := place_registers parts.sound (node.ownHint visit.hint)
    (node.body visit.converter.order names)
  rw [placed] at registers
  exact ⟨node, later, names, classified, walked, SchemaNode.isNamed_body held areNames,
    SchemaNode.references_body held, registers.found⟩

/-- The name that a visit gives is in the table that it leaves. -/
theorem exists_get?_after {visit : Visit} (sound : visit.converter.table.Sound) {name : String}
    (given : visit.given = .ok name) : ∃ text, visit.after.table.get? name = some text := by
  obtain ⟨_, _, _, -, -, -, -, found⟩ := exists_body_of_given sound given
  exact ⟨_, found⟩

/-- A visit that gives a name makes a visit for each part of its node. -/
theorem exists_calls {visit : Visit} {name : String} (given : visit.given = .ok name) :
    ∃ node, SchemaNode.classify visit.schema = .ok node ∧
      ∀ part ∈ node.parts visit.converter.order, ∃ child, visit.Calls child ∧
        child.schema = part.2 ∧ child.hint = childHint visit.hint part.1 := by
  obtain ⟨node, later, names, classified, walked, -⟩ := exists_of_given given
  refine ⟨node, classified, fun part mem => ?_⟩
  obtain ⟨child, forPart, sameSchema, sameHint⟩ := exists_forPart walked part mem
  exact ⟨child, ⟨node, classified, forPart⟩, sameSchema, sameHint⟩

/-- A visit for a part is made on a converter with the same order and a sound table. -/
theorem Calls.keeps {visit child : Visit} (calls : visit.Calls child)
    (sound : visit.converter.table.Sound) :
    child.converter.order = visit.converter.order ∧ child.converter.table.Sound := by
  obtain ⟨node, -, forPart⟩ := calls
  obtain ⟨sameOrder, sound', -⟩ := forPart.keeps sound
  exact ⟨sameOrder, sound'⟩

/-- The converter only grows from a visit for a part to the end of the visit that makes it. -/
theorem Calls.grows {visit child : Visit} (calls : visit.Calls child)
    (sound : visit.converter.table.Sound) : child.after.table.Extends visit.after.table := by
  obtain ⟨node, classified, forPart⟩ := calls
  have grown := forPart.grows sound
  rw [SchemaNode.classify_eq_ok_iff] at classified
  have walk := emitValue_walk visit.converter.order visit.hint visit.converter.table visit.schema
  cases visited : emitValue visit.converter.order visit.hint visit.converter.table visit.schema with
  | mk later result =>
    have left : visit.after.table = later := congrArg Prod.fst visited
    rw [visited] at walk
    rw [left]
    cases walk with
    | unsupported none => cases none.symm.trans classified
    | failed classified' walked =>
      obtain rfl := Option.some.inj (classified.symm.trans classified')
      rw [walked] at grown
      exact grown
    | placed classified' walked =>
      obtain rfl := Option.some.inj (classified.symm.trans classified')
      have parts := emitParts_emits_of_eq sound walked
      rw [walked] at grown
      exact grown.trans (place_registers parts.sound _ _).1.extends

/-- A visit that is made inside another one starts from a sound table, and the converter only grows
from it to the end of the other one. -/
theorem grows_of_reflTransGen {visit inner : Visit}
    (reached : Relation.ReflTransGen Calls visit inner) (sound : visit.converter.table.Sound) :
    inner.converter.table.Sound ∧ inner.after.table.Extends visit.after.table := by
  induction reached with
  | refl => exact ⟨sound, .refl _⟩
  | tail _ calls ih =>
    obtain ⟨sound', grown⟩ := ih
    exact ⟨(calls.keeps sound').2, (calls.grows sound').trans grown⟩

/-- If a visit gives a name, then so does each visit that it makes for a part. At the end the name has
the text of a body that refers to the part's. -/
theorem Calls.gives {visit child : Visit} (calls : visit.Calls child)
    (sound : visit.converter.table.Sound) {name : String} (given : visit.given = .ok name) :
    ∃ childName, child.given = .ok childName ∧ ∃ body : Body, body.IsNamed ∧
      visit.after.table.get? name = some body.text ∧ childName ∈ body.references := by
  obtain ⟨node, classified, forPart⟩ := calls
  obtain ⟨node', later, names, classified', walked, named, refers, found⟩ :=
    exists_body_of_given sound given
  obtain rfl := Except.ok.inj (classified.symm.trans classified')
  obtain ⟨childName, mem, childGiven⟩ := forPart.gives walked
  rw [← refers] at mem
  exact ⟨childName, childGiven, _, named, found, mem⟩

/-- A visit adds a rule, which is given to the node that it visits. -/
structure Adds (visit : Visit) (rule : Rule) : Prop where
  given : visit.given = .ok rule.1
  absent : rule ∉ visit.converter.table.toList
  added : rule ∈ visit.after.table.toList

/-- A rule is added under a name that was free. -/
theorem Adds.get? {visit : Visit} {rule : Rule} (adds : visit.Adds rule)
    (sound : visit.converter.table.Sound) :
    visit.converter.table.get? rule.1 = none ∧ visit.after.table.get? rule.1 = some rule.2 := by
  have emits :=
    emitValue_emits visit.converter.order visit.schema visit.hint visit.converter.table sound
  have found := (sound_after sound).get?_eq_some_iff.mpr adds.added
  refine ⟨?_, found⟩
  cases before : visit.converter.table.get? rule.1 with
  | none => rfl
  | some text =>
    have kept := emits.grown.get? sound emits.sound before
    obtain rfl := Option.some.inj (kept.symm.trans found)
    exact absurd (sound.get?_eq_some_iff.mp before) adds.absent

/-- Every rule that is new at the end of a visit is added by a visit inside it. -/
theorem exists_adding_of_mem_after {rule : Rule} {visit : Visit}
    (sound : visit.converter.table.Sound) (mem : rule ∈ visit.after.table.toList)
    (new : rule ∉ visit.converter.table.toList) :
    ∃ inner, Relation.ReflTransGen Calls visit inner ∧ inner.Adds rule := by
  obtain ⟨⟨order, table⟩, v, hint⟩ := visit
  induction v using SchemaNode.induction generalizing order table hint with
  | step v ih =>
    have inside (node : SchemaNode) (classified : SchemaNode.ofValue? v = some node)
        (mem : rule ∈ (emitParts order hint table (node.parts order)).1.toList) :
        ∃ inner, Relation.ReflTransGen Calls ⟨⟨order, table⟩, v, hint⟩ inner ∧
          inner.Adds rule := by
      obtain ⟨child, forPart, added, absent⟩ := exists_forPart_of_mem mem new
      obtain ⟨-, sound', part, memParts, sameSchema, -⟩ := forPart.keeps sound
      have calls : Calls ⟨⟨order, table⟩, v, hint⟩ child :=
        ⟨node, SchemaNode.classify_eq_ok_iff.mpr classified, forPart⟩
      obtain ⟨inner, reached, adds⟩ := ih node classified child.schema
        (sameSchema ▸ SchemaNode.mem_children memParts) _ _ _ sound' added absent
      exact ⟨inner, .head calls reached, adds⟩
    have walk := emitValue_walk order hint table v
    cases visited : emitValue order hint table v with
    | mk later result =>
      have left : (Visit.after ⟨⟨order, table⟩, v, hint⟩).table = later := congrArg Prod.fst visited
      rw [visited] at walk
      cases walk with
      | unsupported _ => exact absurd (left ▸ mem) new
      | failed classified walked =>
        rw [left] at mem
        exact inside _ classified (walked ▸ mem)
      | @placed node middle names classified walked =>
        have parts := emitParts_emits_of_eq sound walked
        obtain ⟨registers, -⟩ :=
          place_registers parts.sound (node.ownHint hint) (node.body order names)
        rcases registers.mem_or_eq (left ▸ mem) with mem | rfl
        · exact inside node classified (walked ▸ mem)
        · exact ⟨_, .refl, congrArg Prod.snd visited, new, mem⟩

/-- Every rule that a visit adds is the rule that is given to a visit inside it. -/
theorem exists_of_mem_after {rule : Rule} {visit : Visit} (sound : visit.converter.table.Sound)
    (mem : rule ∈ visit.after.table.toList) (new : rule ∉ visit.converter.table.toList) :
    ∃ inner, Relation.ReflTransGen Calls visit inner ∧ inner.given = .ok rule.1 := by
  obtain ⟨inner, reached, adds⟩ := exists_adding_of_mem_after sound mem new
  exact ⟨inner, reached, adds.given⟩

end Visit

/-! ## Visits one after the other -/

namespace Converter

/-- The converter after visits of schemas under hints, one after the other. -/
def visitAll (converter : Converter) (visits : List (Value × String)) : Converter :=
  visits.foldl (fun converter visit => (converter.visit visit.1 visit.2).1) converter

/-- A visit is made meanwhile: it is one of them, or made inside one of them. -/
inductive Makes : Converter → List (Value × String) → Visit → Prop
  | inside {converter : Converter} {v : Value} {hint : String} {more : List (Value × String)}
      {visit : Visit} : Relation.ReflTransGen Visit.Calls ⟨converter, v, hint⟩ visit →
      Makes converter ((v, hint) :: more) visit
  | later {converter : Converter} {v : Value} {hint : String} {more : List (Value × String)}
      {visit : Visit} : Makes (converter.visit v hint).1 more visit →
      Makes converter ((v, hint) :: more) visit

/-- Visits keep the table sound and only add to it. -/
theorem visitAll_grows : ∀ (visits : List (Value × String)) {converter : Converter},
    converter.table.Sound → (converter.visitAll visits).table.Sound ∧
      converter.table.Extends (converter.visitAll visits).table
  | [], _, sound => ⟨sound, .refl _⟩
  | (v, hint) :: more, converter, sound => by
    have emits := emitValue_emits converter.order v hint converter.table sound
    obtain ⟨sound', grown⟩ := @visitAll_grows more (converter.visit v hint).1 emits.sound
    exact ⟨sound', emits.grown.trans grown⟩

theorem sound_visit {converter : Converter} (sound : converter.table.Sound) (v : Value)
    (hint : String) : (converter.visit v hint).1.table.Sound :=
  (emitValue_emits converter.order v hint converter.table sound).sound

/-- A visit that is made meanwhile starts from a sound table, and the converter only grows from it. -/
theorem Makes.grows {converter : Converter} {visits : List (Value × String)} {visit : Visit}
    (makes : converter.Makes visits visit) (sound : converter.table.Sound) :
    visit.converter.table.Sound ∧
      visit.after.table.Extends (converter.visitAll visits).table := by
  induction makes with
  | @inside converter v hint more visit reached =>
    obtain ⟨sound', grown⟩ := Visit.grows_of_reflTransGen reached sound
    exact ⟨sound', grown.trans (visitAll_grows more (sound_visit sound v hint)).2⟩
  | @later converter v hint more visit _ ih =>
    exact ih (sound_visit sound v hint)

/-- Every rule that is new after visits is added by one that is made meanwhile. -/
theorem exists_adding_of_mem_visitAll {rule : Rule} :
    ∀ {visits : List (Value × String)} {converter : Converter}, converter.table.Sound →
      rule ∈ (converter.visitAll visits).table.toList → rule ∉ converter.table.toList →
      ∃ visit, converter.Makes visits visit ∧ visit.Adds rule
  | [], _, _, mem, new => absurd mem new
  | (v, hint) :: more, converter, sound, mem, new => by
    by_cases here : rule ∈ (converter.visit v hint).1.table.toList
    · obtain ⟨inner, reached, adds⟩ :=
        @Visit.exists_adding_of_mem_after rule ⟨converter, v, hint⟩ sound here new
      exact ⟨inner, .inside reached, adds⟩
    · obtain ⟨visit, makes, adds⟩ :=
        exists_adding_of_mem_visitAll (sound_visit sound v hint) mem here
      exact ⟨visit, .later makes, adds⟩

end Converter

end SchemaGrammar
