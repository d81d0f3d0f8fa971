import SchemaGrammar.Proofs.BodyAgreement
import SchemaGrammar.Proofs.Visits

/-!
# Rules of primitive types

A primitive node goes by the name of its type, so that all nodes of one type share a rule. The name of
the type may be taken: properties and hints are free to be called `string` or `string0`, and then the
shared rule has a suffix that is searched anew each time.

`exists_sharesPrimitive` says that this works out for the whole life of a converter, whatever it
visits. There is one name that every node of the type is given, at any depth of any visit
(`SharesPrimitive.given`), and no other rule has the production of the type, unless it was registered
for such a node under the empty hint (`SharesPrimitive.only`).

The search ends at one place because registrations are stable (`RuleTable.Sound.register_again`): the
name is the one that the type would be given at the end of all visits. That no other rule has the
production holds for two reasons. Rules come about by visits only (`exists_adding_of_mem_visitAll`),
and no other body has the text of a primitive type (`Body.eq_primitive_of_text_eq`), whatever keys and
constants it has.
-/

namespace SchemaGrammar

open Gbnf (RuleTable Body)
open Json (Value)

/-! ## Visits of primitive nodes -/

theorem Primitive.typeName_ne_empty (p : Primitive) : p.typeName ≠ "" := by
  cases p <;> decide

/-- A primitive node that is visited under a hint goes by its type. -/
theorem emitValue_primitive (order : Option PropertyOrder) {hint : String} (table : RuleTable)
    {v : Value} {p : Primitive} (classified : SchemaNode.ofValue? v = some (.primitive p))
    (notTop : hint ≠ "") :
    emitValue order hint table v =
      ((table.add p.typeName p.production).1, .ok (table.add p.typeName p.production).2) := by
  have own : (SchemaNode.primitive p).ownHint hint = p.typeName :=
    if_neg fun empty => notTop (String.isEmpty_iff.mp empty)
  have placed : place table p.typeName (.primitive p) = table.add p.typeName p.production :=
    if_neg fun empty => p.typeName_ne_empty (String.isEmpty_iff.mp empty)
  rw [emitValue_eq, classified]
  dsimp only [SchemaNode.parts, emitParts]
  rw [own, SchemaNode.body, placed]
  rfl

/-- A primitive node that is visited under a hint is given the name that its type would be given at any
later time, and the rule of that name has the production of the type. -/
theorem Visit.given_of_primitive {visit : Visit} {later : RuleTable} {p : Primitive}
    (sound : visit.converter.table.Sound) (sound' : later.Sound)
    (grown : visit.after.table.Extends later)
    (classified : SchemaNode.classify visit.schema = .ok (.primitive p)) (notTop : visit.hint ≠ "") :
    visit.given = .ok (later.add p.typeName p.production).2 ∧
      visit.after.table.get? (later.add p.typeName p.production).2 = some p.production := by
  have visited := emitValue_primitive visit.converter.order visit.converter.table
    (SchemaNode.classify_eq_ok_iff.mp classified) notTop
  have after : visit.after.table = (visit.converter.table.add p.typeName p.production).1 :=
    congrArg Prod.fst visited
  have given : visit.given = .ok (visit.converter.table.add p.typeName p.production).2 :=
    congrArg Prod.snd visited
  obtain ⟨registers, -⟩ := sound.add p.typeName_ne_empty p.production
  have again : later.add p.typeName p.production =
      (later, (visit.converter.table.add p.typeName p.production).2) :=
    sound.register_again sound' _ _ _ (after ▸ grown)
  rw [again, given, after]
  exact ⟨rfl, registers.found⟩

/-- A name that is given with the production of a primitive type is given to a node of that type. -/
theorem Visit.classify_of_production {visit : Visit} (sound : visit.converter.table.Sound)
    {name : String} (given : visit.given = .ok name) {p : Primitive}
    (found : visit.after.table.get? name = some p.production) :
    SchemaNode.classify visit.schema = .ok (.primitive p) := by
  obtain ⟨node, _, _, classified, -, named, -, found'⟩ := exists_body_of_given sound given
  have isPrimitive := Body.eq_primitive_of_text_eq named (Option.some.inj (found'.symm.trans found))
  rw [classified]
  cases node <;> cases isPrimitive
  rfl

/-- The rule of the blank has no production of a primitive type. -/
theorem notMem_initial_production (name : String) (p : Primitive) :
    (name, p.production) ∉ RuleTable.initial.toList := by
  have notBlank : p.production ≠ Gbnf.spaceBody := by cases p <;> decide
  rw [RuleTable.toList_initial, List.mem_singleton]
  exact fun same => notBlank (Prod.mk.inj same).2

/-! ## One rule for each type -/

/-- How the nodes of a primitive type share their rule while a converter makes visits. -/
structure SharesPrimitive (order : Option PropertyOrder) (visits : List (Value × String))
    (p : Primitive) (shared : String) : Prop where
  /-- A node of the type that is visited under a hint is given the shared rule, and that rule has the
  production of the type. -/
  given : ∀ visit, (Converter.new order).Makes visits visit →
    SchemaNode.classify visit.schema = .ok (.primitive p) → visit.hint ≠ "" →
    visit.given = .ok shared ∧ visit.after.table.get? shared = some p.production
  /-- Another rule with the production was registered for a node of the type that was visited under
  the empty hint. -/
  only : ∀ name, ((Converter.new order).visitAll visits).table.get? name = some p.production →
    name ≠ shared → ∃ visit, (Converter.new order).Makes visits visit ∧
      SchemaNode.classify visit.schema = .ok (.primitive p) ∧ visit.hint = "" ∧
      visit.given = .ok name ∧ visit.converter.table.get? name = none
  /-- No rule is ever taken back, so there was no other rule at an earlier moment either. -/
  kept : ∀ visit, (Converter.new order).Makes visits visit →
    visit.after.table.Extends ((Converter.new order).visitAll visits).table

/-- Whatever a converter visits, the nodes of a primitive type share one rule all along. -/
theorem exists_sharesPrimitive (order : Option PropertyOrder) (visits : List (Value × String))
    (p : Primitive) : ∃ shared, SharesPrimitive order visits p shared := by
  have sound : (Converter.new order).table.Sound := RuleTable.sound_initial
  obtain ⟨soundLast, -⟩ := Converter.visitAll_grows visits sound
  -- the shared name is the one that the type would be given at the end
  refine ⟨(((Converter.new order).visitAll visits).table.add p.typeName p.production).2,
    fun visit makes classified notTop => ?_, fun name found other => ?_,
    fun visit makes => (makes.grows sound).2⟩
  · obtain ⟨soundHere, grown⟩ := makes.grows sound
    exact visit.given_of_primitive soundHere soundLast grown classified notTop
  · obtain ⟨visit, makes, adds⟩ := Converter.exists_adding_of_mem_visitAll sound
      (soundLast.get?_eq_some_iff.mp found) (notMem_initial_production name p)
    obtain ⟨soundHere, grown⟩ := makes.grows sound
    obtain ⟨free, foundHere⟩ := adds.get? soundHere
    have classified := visit.classify_of_production soundHere adds.given foundHere
    have top : visit.hint = "" := by
      by_contra notTop
      obtain ⟨given, -⟩ :=
        visit.given_of_primitive soundHere soundLast grown classified notTop
      exact other (Except.ok.inj (adds.given.symm.trans given))
    exact ⟨visit, makes, classified, top, adds.given, free⟩

/-- A constant has taken the name of the type, so the strings share the rule behind it. The one at the
top is a start rule. -/
example :
    let string : Value := .object [("type", .string "string")]
    let visits := [(.object [("const", .bool true)], "string"), (string, "a"), (string, ""),
      (string, "b")]
    ((Converter.new none).visitAll visits).table.toList.map Prod.fst =
      ["space", "string", "string0", "root"] := by
  cbv

end SchemaGrammar
