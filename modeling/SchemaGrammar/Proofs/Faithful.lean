import Mathlib
import SchemaGrammar.Proofs.PropertyRank
import SchemaGrammar.Proofs.Standing

/-!
# What a rule name stands for

`StandsFor order table schema name` spells out, kind by kind, what a grammar must say for a schema:
which text the table has under `name`, and which names the parts have in the same table. It knows
nothing of hints, of the walk or of how names come about.

`Converter.standsFor_of_visit` is the statement that compiling is faithful. Whatever a converter was
shown before, with success or not, a name that it gives for a schema stands for the schema, and goes
on standing for it whatever the converter is shown later. Reuse of equal bodies, suffixes and
rules left behind by failed visits can therefore never make a name mean something else.
-/

namespace SchemaGrammar

open Gbnf (RuleTable constantLiteral)
open Json (Value Member)

/-! ## The relation -/

/-- A rule name stands for a schema: the table has under it the text that the schema's kind
prescribes, and the names in that text stand for the schema's parts. -/
inductive StandsFor (order : Option PropertyOrder) (table : RuleTable) : Value → String → Prop
  /-- Alternatives are separated by bars. -/
  | union {schema : Value} {alternatives : List Value} {children : List String} {name : String} :
      SchemaNode.classify schema = .ok (.union alternatives) →
      List.Forall₂ (StandsFor order table) alternatives children →
      table.get? name = some (" | ".intercalate children) →
      StandsFor order table schema name
  /-- A constant is its literal. -/
  | const {schema value : Value} {name : String} :
      SchemaNode.classify schema = .ok (.const value) →
      table.get? name = some (constantLiteral value) →
      StandsFor order table schema name
  /-- Several constants are their literals, separated by bars. -/
  | enum {schema : Value} {values : List Value} {name : String} :
      SchemaNode.classify schema = .ok (.enum values) →
      table.get? name = some (" | ".intercalate (values.map constantLiteral)) →
      StandsFor order table schema name
  /-- An object is every property once, by rank and then by name, between braces. -/
  | object {schema : Value} {properties sorted : List Member} {children : List String}
      {name : String} :
      SchemaNode.classify schema = .ok (.object properties) →
      sorted.Perm properties →
      sorted.Pairwise (fun p q => PropertyOrder.Before order p.1 q.1) →
      List.Forall₂ (StandsFor order table) (sorted.map Prod.snd) children →
      table.get? name = some ("\"\x7b\" space" ++
        " \",\" space".intercalate (((sorted.map Prod.fst).zip children).map fun (key, child) =>
          " " ++ constantLiteral (.string key) ++ " space \":\" space " ++ child) ++
        " \"\x7d\" space") →
      StandsFor order table schema name
  /-- An array is any number of items between brackets. -/
  | array {schema items : Value} {child name : String} :
      SchemaNode.classify schema = .ok (.array items) →
      StandsFor order table items child →
      table.get? name = some
        ("\"[\" space (" ++ child ++ " (\",\" space " ++ child ++ ")*)? \"]\" space") →
      StandsFor order table schema name
  /-- A primitive schema is its type's production. -/
  | primitive {schema : Value} {p : Primitive} {name : String} :
      SchemaNode.classify schema = .ok (.primitive p) →
      table.get? name = some p.production →
      StandsFor order table schema name

/-- A name that holds a schema stands for it: the text of the node's body is the prescribed one. -/
theorem Holds.standsFor {order : Option PropertyOrder} {table : RuleTable} {v : Value} :
    ∀ name, Holds order table v name → StandsFor order table v name := by
  induction v using SchemaNode.induction with
  | step v ih =>
    intro name holds
    obtain ⟨classified, parts, found⟩ := holds
    next node names =>
    have isNode := SchemaNode.classify_eq_ok_iff.mpr classified
    have stand : List.Forall₂ (StandsFor order table) ((node.parts order).map Prod.snd) names :=
      SchemaNode.parts_imp (ih node classified) parts
    cases node with
    | union alternatives =>
      have listed : ((SchemaNode.union alternatives).parts order).map Prod.snd = alternatives := by
        simp only [SchemaNode.parts, List.map_map, Function.comp_def]
        exact List.zipIdx_map_fst 0 alternatives
      exact .union isNode (listed ▸ stand) found
    | const value => exact .const isNode found
    | enum values => exact .enum isNode found
    | object properties =>
      exact .object isNode (PropertyOrder.sort_perm order properties)
        (PropertyOrder.pairwise_sort order properties) stand found
    | array items =>
      obtain ⟨child, childStands, rfl⟩ : ∃ child, StandsFor order table items child ∧
          names = [child] := by
        cases stand with
        | cons first rest => cases rest; exact ⟨_, first, rfl⟩
      exact .array isNode childStands found
    | primitive p => exact .primitive isNode found

/-! ## Converters and their visits -/

namespace Converter

/-- One converter is reached from another by visits of any schemas under any hints, whether they
succeed or fail. -/
inductive Reaches (start : Converter) : Converter → Prop
  | refl : Reaches start start
  | visit {converter : Converter} (schema : Value) (hint : String) :
      Reaches start converter → Reaches start (converter.visit schema hint).1

/-- Visits keep the order of properties, keep the table sound and only add to it. -/
theorem Reaches.keeps {start converter : Converter} (reached : start.Reaches converter)
    (sound : start.table.Sound) :
    converter.order = start.order ∧ converter.table.Sound ∧
      start.table.Extends converter.table := by
  induction reached with
  | refl => exact ⟨rfl, sound, .refl _⟩
  | @visit converter schema hint _ ih =>
    obtain ⟨sameOrder, sound', grown⟩ := ih
    have emits := emitValue_emits converter.order schema hint converter.table sound'
    rw [visit_eq]
    exact ⟨sameOrder, emits.sound, grown.trans emits.grown⟩

/-- Compiling is faithful: a name given for a schema stands for it, now and after every further
visit. -/
theorem standsFor_of_visit {order : Option PropertyOrder} {before after : Converter}
    {schema : Value} {hint name : String} (reached : (Converter.new order).Reaches before)
    (visited : before.visit schema hint = (after, .ok name)) :
    StandsFor order after.table schema name ∧
      ∀ later, after.Reaches later → StandsFor order later.table schema name := by
  obtain ⟨sameOrder, sound, -⟩ := reached.keeps RuleTable.sound_initial
  rw [visit_eq, sameOrder] at visited
  have emits := emitValue_emits order schema hint before.table sound
  obtain ⟨sameAfter, given⟩ := Prod.mk.inj visited
  have sound' : after.table.Sound := sameAfter ▸ emits.sound
  have holds : Holds order after.table schema name := sameAfter ▸ (emits.holds name given).1
  refine ⟨holds.standsFor name, fun later further => ?_⟩
  obtain ⟨-, soundLater, grown⟩ := further.keeps sound'
  exact (holds.grow sound' soundLater grown).standsFor name

/-- A nested `a-b` and a property `a b` ask for one name with different bodies. After a visit that
fails and leaves rules behind, the start rule still stands for the whole schema. -/
theorem standsFor_of_visit_colliding :
    let number : Value := .object [("const", .number (.integer 1 (by decide)))]
    let nested : Value :=
      .object [("type", .string "object"), ("properties", .object [("b", number)])]
    let schema : Value := .object [("type", .string "object"),
      ("properties", .object [("a b", .object [("const", .null)]), ("a", nested)])]
    let failing : Value := .object [("oneOf", .array [nested, .null])]
    let before := ((Converter.new none).visit failing "a").1
    let after := (before.visit schema "").1
    StandsFor none after.table schema "root" ∧
      ∀ later, after.Reaches later → StandsFor none later.table schema "root" :=
  standsFor_of_visit (.visit _ _ .refl) (Prod.ext rfl (by cbv))

end Converter

end SchemaGrammar
