import Mathlib
import SchemaGrammar.Proofs.Faithful
import SchemaGrammar.Proofs.GrammarText

/-!
# The text of a converter's rules

Whatever schemas a converter has been shown, under whatever hints and with success or not, the text
of its rules can be read back: cut into lines, and each line at the first sign, it gives the rules
that were registered, in their order (`Converter.readRules_text`). So no name, key or constant of a
schema can bring about a line of its own, or put the sign elsewhere on one.

This is because every rule is legible: its name is a rule name and its body stands on one line. One
registration keeps the table legible (`emitValue_legible`), so every run of visits does.
-/

namespace SchemaGrammar

open Gbnf (RuleTable IsRuleName OnOneLine readRules)
open Json (Value)

/-- Every rule of a table has a rule name, and a body without a line break. -/
def RuleTable.Legible (table : RuleTable) : Prop :=
  ∀ rule ∈ table.toList, IsRuleName rule.1 ∧ OnOneLine rule.2.toList

theorem legible_initial : RuleTable.Legible .initial := by
  intro rule mem
  rw [RuleTable.toList_initial] at mem
  rw [List.mem_singleton.mp mem]
  exact ⟨Gbnf.isRuleName_spaceName, Gbnf.onOneLine_of_all (by decide)⟩

/-- The walk over a schema, whether it gives a name or fails, keeps a table legible. -/
theorem emitValue_legible (order : Option PropertyOrder) (v : Value) (hint : String)
    {table : RuleTable} (sound : table.Sound) (legible : RuleTable.Legible table) :
    RuleTable.Legible (emitValue order hint table v).1 := by
  refine @emitValue_preserves order (fun _ _ => True) _ (fun _ _ _ _ _ _ _ => trivial) ?_ v hint
    table trivial sound legible
  intro hint v node names table _ _ sound held areNames legible
  obtain ⟨registers, isName, -⟩ :=
    place_registers sound (node.ownHint hint) (node.body order names)
  intro rule mem
  rcases registers.mem_or_eq mem with mem | rfl
  · exact legible rule mem
  · exact ⟨isName, Gbnf.Body.onOneLine_text (SchemaNode.isNamed_body held areNames)⟩

namespace Converter

/-- Visits keep a converter's table legible. -/
theorem Reaches.legible {start converter : Converter} (reached : start.Reaches converter)
    (sound : start.table.Sound) (legible : RuleTable.Legible start.table) :
    RuleTable.Legible converter.table := by
  induction reached with
  | refl => exact legible
  | @visit converter schema hint reached ih =>
    obtain ⟨-, sound', -⟩ := reached.keeps sound
    exact emitValue_legible converter.order schema hint sound' ih

/-- The text of a converter's rules is read back as the rules, in the order in which they were
registered, and it is the text of the converter's grammar. -/
theorem readRules_text {order : Option PropertyOrder} {converter : Converter}
    (reached : (new order).Reaches converter) :
    readRules converter.text = some converter.table.toList ∧
      converter.grammar.text = converter.text ∧
      ∀ rule ∈ converter.table.toList, IsRuleName rule.1 ∧ OnOneLine rule.2.toList := by
  have legible : RuleTable.Legible converter.table :=
    reached.legible RuleTable.sound_initial legible_initial
  refine ⟨?_, rfl, legible⟩
  exact Gbnf.readRules_rulesText (fun rule mem => (legible rule mem).1)
    fun rule mem => (legible rule mem).2.newline_notMem

/-- A hint, a key and a constant that look like rules of their own do not become any. -/
theorem readRules_text_sign :
    let schema : Value := .object [("type", .string "object"), ("properties", .object
      [("\n ::= ", .object [("const", .string "\r\nroot ::= x")])])]
    let converter := ((new none).visit schema " ::= ").1
    converter.table.toList.map Prod.fst = ["space", "---", "-"] ∧
      readRules converter.text = some converter.table.toList ∧
      converter.grammar.text = converter.text ∧
      ∀ rule ∈ converter.table.toList, IsRuleName rule.1 ∧ OnOneLine rule.2.toList :=
  ⟨by cbv, readRules_text (.visit _ _ .refl)⟩

end Converter

end SchemaGrammar
