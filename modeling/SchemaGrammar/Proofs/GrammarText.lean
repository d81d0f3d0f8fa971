import SchemaGrammar.Gbnf.Grammar
import SchemaGrammar.Proofs.BodyText
import SchemaGrammar.Proofs.Pieces

/-!
# Reading the text of a grammar back

The text of a grammar is cut into lines, and each line at the first sign `::=` with a blank on both
sides (`readRules`). For rules whose names have no blank and whose bodies have no line break this
gives the rules again, in their order (`readRules_rulesText`). Bodies have none whatever they quote
(`Body.onOneLine_text`): a line break inside a literal is always escaped.
-/

namespace SchemaGrammar.Gbnf

open Json (Value writeString)
open Text (split_append split_ne_nil toList_intercalate_cons)

/-! ## The reading -/

/-- What stands before the first place of a mark in a text, and what stands behind it. -/
def splitAt? (mark : List Char) : List Char → Option (List Char × List Char)
  | [] => none
  | c :: text =>
    if mark.isPrefixOf (c :: text) then some ([], (c :: text).drop mark.length)
    else (splitAt? mark text).map fun (before, behind) => (c :: before, behind)

/-- The sign between the name of a rule and its body. -/
def ruleSign : List Char := " ::= ".toList

/-- The rule on a line. -/
def readRule (line : List Char) : Option Rule :=
  (splitAt? ruleSign line).map fun (name, body) => (String.ofList name, String.ofList body)

/-- The rules on lines, each of which has been ended, so that nothing stands on the last one. -/
def readLines : List (List Char) → Option (List Rule)
  | [] => none
  | [last] => if last.isEmpty then some [] else none
  | line :: lines => (readRule line).bind fun rule => (readLines lines).map (rule :: ·)

/-- The rules of a text. -/
def readRules (text : String) : Option (List Rule) := readLines (Text.split '\n' text.toList)

/-! ## Texts of grammars -/

theorem splitAt?_append {c : Char} {mark : List Char} {before : List Char} (notMem : c ∉ before)
    (behind : List Char) :
    splitAt? (c :: mark) (before ++ (c :: mark ++ behind)) = some (before, behind) := by
  induction before with
  | nil =>
    rw [List.nil_append, List.cons_append, splitAt?, ← List.cons_append, if_pos, List.drop_left]
    exact List.isPrefixOf_iff_prefix.mpr (List.prefix_append _ _)
  | cons d before ih =>
    have different : ¬ (c :: mark).isPrefixOf (d :: (before ++ (c :: mark ++ behind))) = true := by
      intro isPrefix
      have same := (List.cons_prefix_cons.mp (List.isPrefixOf_iff_prefix.mp isPrefix)).1
      exact notMem (same ▸ List.mem_cons_self)
    rw [List.cons_append, splitAt?, if_neg different,
      ih fun mem => notMem (List.mem_cons_of_mem d mem), Option.map_some]

theorem readLines_cons {line : List Char} {lines : List (List Char)} (notEmpty : lines ≠ []) :
    readLines (line :: lines) =
      (readRule line).bind fun rule => (readLines lines).map (rule :: ·) := by
  rw [readLines]
  exact notEmpty

/-- A rule is read back from its line. -/
theorem readRule_append {name body : String} (isName : IsRuleName name) :
    readRule (name.toList ++ (ruleSign ++ body.toList)) = some (name, body) := by
  have read : splitAt? ruleSign (name.toList ++ (ruleSign ++ body.toList)) =
      some (name.toList, body.toList) := splitAt?_append isName.blank_notMem body.toList
  rw [readRule, read, Option.map_some]
  dsimp only
  rw [String.ofList_toList, String.ofList_toList]

/-- The rules of a grammar are read back from its text. -/
theorem readRules_rulesText {rules : List Rule} (named : ∀ rule ∈ rules, IsRuleName rule.1)
    (unbroken : ∀ rule ∈ rules, '\n' ∉ rule.2.toList) :
    readRules (rulesText rules) = some rules := by
  induction rules with
  | nil => rfl
  | cons rule rules ih =>
    obtain ⟨name, body⟩ := rule
    have isName := named (name, body) List.mem_cons_self
    have line : (rulesText ((name, body) :: rules)).toList =
        (name.toList ++ (ruleSign ++ body.toList)) ++ '\n' :: (rulesText rules).toList := by
      simp only [rulesText, ruleLine, List.map_cons, String.join_cons, String.toList_append,
        List.append_assoc]
      rfl
    have noBreak : '\n' ∉ name.toList ++ (ruleSign ++ body.toList) := by
      intro mem
      rcases List.mem_append.mp mem with mem | mem
      · exact absurd (isName.2 _ mem) (by decide)
      rcases List.mem_append.mp mem with mem | mem
      · exact absurd mem (by decide)
      · exact unbroken (name, body) List.mem_cons_self mem
    have others := ih (fun other mem => named other (List.mem_cons_of_mem _ mem))
      (fun other mem => unbroken other (List.mem_cons_of_mem _ mem))
    rw [readRules] at others
    rw [readRules, line, split_append noBreak, readLines_cons (split_ne_nil _ _),
      readRule_append isName, Option.bind_some, others, Option.map_some]

/-! ## Bodies have no line break -/

/-- A text with neither of the two characters that may end a line. -/
def OnOneLine (text : List Char) : Prop := ∀ c ∈ text, c ≠ '\n' ∧ c ≠ '\r'

theorem OnOneLine.newline_notMem {text : List Char} (onOneLine : OnOneLine text) : '\n' ∉ text :=
  fun mem => (onOneLine '\n' mem).1 rfl

theorem OnOneLine.append {text more : List Char} (left : OnOneLine text)
    (right : OnOneLine more) : OnOneLine (text ++ more) :=
  List.forall_mem_append.mpr ⟨left, right⟩

theorem onOneLine_of_all {text : List Char}
    (checked : (text.all fun c => c != '\n' && c != '\r') = true) : OnOneLine text := by
  simpa [OnOneLine] using checked

/-- Both line breaks are escaped in a literal. -/
theorem onOneLine_quote (text : String) : OnOneLine (quote text).toList := by
  have escaped (c : Char) : OnOneLine (escapeChar c) := by
    unfold escapeChar
    split
    · exact onOneLine_of_all (by decide)
    · exact onOneLine_of_all (by decide)
    · exact onOneLine_of_all (by decide)
    · next notReturn notNewline _ =>
      intro d mem
      rw [List.mem_singleton.mp mem]
      exact ⟨notNewline, notReturn⟩
  rw [toList_quote]
  intro d mem
  rw [List.mem_cons, List.mem_append, List.mem_flatMap, List.mem_singleton] at mem
  rcases mem with rfl | ⟨c, -, mem⟩ | rfl
  · decide
  · exact escaped c d mem
  · decide

theorem onOneLine_intercalate {separator : String} (between : OnOneLine separator.toList)
    {texts : List String} (each : ∀ text ∈ texts, OnOneLine text.toList) :
    OnOneLine (separator.intercalate texts).toList := by
  cases texts with
  | nil =>
    rw [String.intercalate_nil]
    nofun
  | cons text texts =>
    rw [toList_intercalate_cons]
    refine (each text List.mem_cons_self).append fun c mem => ?_
    obtain ⟨more, memTexts, mem⟩ := List.mem_flatMap.mp mem
    exact between.append (each more (List.mem_cons_of_mem text memTexts)) c mem

theorem IsRuleName.onOneLine {name : String} (isName : IsRuleName name) :
    OnOneLine name.toList := by
  intro c mem
  have nameChar := isName.2 c mem
  constructor <;> rintro rfl <;> exact absurd nameChar (by decide)

theorem onOneLine_fieldText {field : String × String} (isName : IsRuleName field.2) :
    OnOneLine (fieldText field).toList := by
  simp only [fieldText, String.toList_append]
  exact (((onOneLine_of_all (by decide)).append (onOneLine_quote _)).append
    (onOneLine_of_all (by decide))).append isName.onOneLine

/-- No body has a line break in its text. -/
theorem Body.onOneLine_text : ∀ {body : Body}, body.IsNamed → OnOneLine body.text.toList
  | alternatives names, named =>
    onOneLine_intercalate (onOneLine_of_all (by decide)) fun name mem => (named name mem).onOneLine
  | constants values, _ => by
    refine onOneLine_intercalate (onOneLine_of_all (by decide)) fun text mem => ?_
    obtain ⟨v, -, rfl⟩ := List.mem_map.mp mem
    exact onOneLine_quote v.compact
  | object fields, named => by
    have between : OnOneLine (fieldSeparator.intercalate (fields.map fieldText)).toList := by
      refine onOneLine_intercalate (onOneLine_of_all (by decide)) fun text mem => ?_
      obtain ⟨field, memFields, rfl⟩ := List.mem_map.mp mem
      exact onOneLine_fieldText (named field memFields)
    simp only [text, String.toList_append]
    exact ((onOneLine_of_all (by decide)).append between).append (onOneLine_of_all (by decide))
  | array item, isName => by
    have name : OnOneLine item.toList := IsRuleName.onOneLine isName
    simp only [text, String.toList_append]
    exact ((((onOneLine_of_all (by decide)).append name).append
      (onOneLine_of_all (by decide))).append name).append (onOneLine_of_all (by decide))
  | primitive p, _ => by cases p <;> exact onOneLine_of_all (by decide)

end SchemaGrammar.Gbnf
