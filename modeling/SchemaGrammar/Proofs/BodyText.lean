import SchemaGrammar.Gbnf.Body
import SchemaGrammar.Proofs.Pieces
import SchemaGrammar.Proofs.ReadBack
import SchemaGrammar.Proofs.RuleName

/-!
# What the text of a body tells about the body

A table compares bodies by their texts, so what a text tells about its body decides what can be
shared. Seen as a text, a literal ends at the first quote that has no backslash before it, whatever
the literal is for: writing puts a backslash before every quote, and no JSON text ends in one
(`Enclosed`). A rule name ends at the first blank. By these two marks the text of an object is taken
apart from the left, and gives its keys and the rules of its properties
(`eq_of_text_object_eq`). No body of another kind begins like an object
(`exists_eq_object_of_text_eq`), and the same goes for arrays and for alternatives. So a text tells
to which rules its body refers, whatever body it is (`references_eq_of_text_eq`).
-/

namespace SchemaGrammar.Gbnf

open Json (Value writeString writeString_injective)
open Text (toList_intercalate_cons)

/-! ## Where a literal ends -/

/-- Every quote of a text has a backslash before it. -/
def QuotesEscaped (written : List Char) : Prop :=
  ∀ before after, written = before ++ '"' :: after → before.getLast? = some '\\'

/-- A text that can stand between the quotes of a literal. -/
structure Enclosed (written : List Char) : Prop where
  escaped : QuotesEscaped written
  last : written.getLast? ≠ some '\\'

theorem quotesEscaped_nil : QuotesEscaped [] := by
  intro before after same
  cases before <;> cases same

theorem quotesEscaped_singleton {c : Char} (notQuote : c ≠ '"') : QuotesEscaped [c] := by
  intro before after same
  cases before with
  | nil => exact absurd (List.cons.inj same).1 notQuote
  | cons d before => cases before <;> cases (List.cons.inj same).2

theorem quotesEscaped_pair (c : Char) : QuotesEscaped ['\\', c] := by
  intro before after same
  cases before with
  | nil => exact absurd (List.cons.inj same).1 (by decide)
  | cons d before =>
    obtain ⟨rfl, same⟩ := List.cons.inj same
    cases before with
    | nil => rfl
    | cons d before => cases before <;> cases (List.cons.inj same).2

theorem QuotesEscaped.append {written more : List Char} (left : QuotesEscaped written)
    (right : QuotesEscaped more) : QuotesEscaped (written ++ more) := by
  intro before after same
  rcases List.append_eq_append_iff.mp same with ⟨middle, rfl, inMore⟩ | ⟨middle, rfl, inWritten⟩
  · rw [List.getLast?_append, right middle after inMore]
    rfl
  · cases middle with
    | nil => exact absurd (right [] after inWritten.symm) (by decide)
    | cons c middle =>
      obtain ⟨rfl, -⟩ := List.cons.inj inWritten
      exact left before middle rfl

theorem quotesEscaped_flatMap_escapeChar (text : List Char) :
    QuotesEscaped (text.flatMap escapeChar) := by
  induction text with
  | nil => exact quotesEscaped_nil
  | cons c text ih =>
    rw [List.flatMap_cons]
    refine QuotesEscaped.append ?_ ih
    unfold escapeChar
    split
    · exact quotesEscaped_pair 'r'
    · exact quotesEscaped_pair 'n'
    · exact quotesEscaped_pair '"'
    · next notQuote => exact quotesEscaped_singleton notQuote

theorem enclosed_singleton {c : Char} (notQuote : c ≠ '"') (notBackslash : c ≠ '\\') :
    Enclosed [c] :=
  ⟨quotesEscaped_singleton notQuote, fun last => notBackslash (Option.some.inj last)⟩

/-- Only a backslash is written with a backslash at its end. -/
theorem exists_getLast?_escapeChar {c : Char} (notBackslash : c ≠ '\\') :
    ∃ d, (escapeChar c).getLast? = some d ∧ d ≠ '\\' := by
  unfold escapeChar
  split
  · exact ⟨'r', rfl, by decide⟩
  · exact ⟨'n', rfl, by decide⟩
  · exact ⟨'"', rfl, by decide⟩
  · exact ⟨c, rfl, notBackslash⟩

/-- What stands between the quotes of a constant's literal. -/
theorem enclosed_write (v : Value) : Enclosed (v.write.flatMap escapeChar) := by
  refine ⟨quotesEscaped_flatMap_escapeChar v.write, ?_⟩
  have last := v.getLast?_write_ne_backslash
  rcases List.eq_nil_or_concat' v.write with empty | ⟨init, c, concat⟩
  · rw [empty]
    decide
  · rw [concat, List.getLast?_concat] at last
    obtain ⟨d, written, notBackslash⟩ := exists_getLast?_escapeChar fun same => last (same ▸ rfl)
    rw [concat, List.flatMap_append, List.flatMap_singleton, List.getLast?_append, written]
    exact fun same => notBackslash (Option.some.inj same)

/-- What follows an enclosed text up to a quote cannot begin with another quote that ends a longer
enclosed text. -/
theorem Enclosed.eq_nil {written middle : List Char} {rest rest' : List Char}
    (enclosed : Enclosed written) (longer : Enclosed (written ++ middle))
    (same : '"' :: rest = middle ++ '"' :: rest') : middle = [] := by
  cases middle with
  | nil => rfl
  | cons c middle =>
    obtain ⟨rfl, -⟩ := List.cons.inj same
    exact absurd (longer.escaped written middle rfl) enclosed.last

/-- Two enclosed texts with a quote behind each are equal if they begin equal texts. -/
theorem Enclosed.cancel {written written' rest rest' : List Char} (enclosed : Enclosed written)
    (enclosed' : Enclosed written') (same : written ++ '"' :: rest = written' ++ '"' :: rest') :
    written = written' ∧ rest = rest' := by
  rcases List.append_eq_append_iff.mp same with ⟨middle, rfl, more⟩ | ⟨middle, rfl, more⟩
  · obtain rfl := enclosed.eq_nil enclosed' more
    exact ⟨(List.append_nil written).symm, (List.cons.inj more).2⟩
  · obtain rfl := enclosed'.eq_nil enclosed more
    exact ⟨List.append_nil written', (List.cons.inj more).2.symm⟩

/-! ## What is written for a key -/

theorem escapeChar_ne_nil (c : Char) : escapeChar c ≠ [] := by
  unfold escapeChar
  split <;> exact List.cons_ne_nil _ _

theorem escapeChar_of_ne {c : Char} (notReturn : c ≠ '\r') (notNewline : c ≠ '\n')
    (notQuote : c ≠ '"') : escapeChar c = [c] := by
  unfold escapeChar
  split
  · contradiction
  · contradiction
  · contradiction
  · rfl

theorem flatMap_escapeChar_ne_quote {text rest : List Char} :
    text.flatMap escapeChar ≠ '"' :: rest := by
  intro same
  exact absurd (quotesEscaped_flatMap_escapeChar text [] rest same) (by decide)

/-- Texts without line breaks are equal if what is written for them is: the backslash that is written
before a quote is the only one that a quote can follow. -/
theorem flatMap_escapeChar_injective {text text' : List Char}
    (noBreak : ∀ c ∈ text, c ≠ '\r' ∧ c ≠ '\n') (noBreak' : ∀ c ∈ text', c ≠ '\r' ∧ c ≠ '\n')
    (same : text.flatMap escapeChar = text'.flatMap escapeChar) : text = text' := by
  induction text generalizing text' with
  | nil =>
    cases text' with
    | nil => rfl
    | cons d text' => exact absurd (List.append_eq_nil_iff.mp same.symm).1 (escapeChar_ne_nil d)
  | cons c text ih =>
    cases text' with
    | nil => exact absurd (List.append_eq_nil_iff.mp same).1 (escapeChar_ne_nil c)
    | cons d text' =>
      have noBreak₁ := noBreak c List.mem_cons_self
      have noBreak₂ := noBreak' d List.mem_cons_self
      have following := @ih text' (fun e mem => noBreak e (List.mem_cons_of_mem c mem))
        (fun e mem => noBreak' e (List.mem_cons_of_mem d mem))
      rw [List.flatMap_cons, List.flatMap_cons] at same
      by_cases quote : c = '"'
      · by_cases quote' : d = '"'
        · subst quote quote'
          rw [following (List.cons.inj (List.cons.inj same).2).2]
        · rw [quote, escapeChar_of_ne noBreak₂.1 noBreak₂.2 quote'] at same
          exact absurd (List.cons.inj same).2.symm flatMap_escapeChar_ne_quote
      · rw [escapeChar_of_ne noBreak₁.1 noBreak₁.2 quote] at same
        by_cases quote' : d = '"'
        · rw [quote'] at same
          exact absurd (List.cons.inj same).2 flatMap_escapeChar_ne_quote
        · rw [escapeChar_of_ne noBreak₂.1 noBreak₂.2 quote'] at same
          obtain ⟨rfl, sameRest⟩ := List.cons.inj same
          rw [following sameRest]

/-! ## Where a name ends -/

theorem IsRuleName.blank_notMem {name : String} (isName : IsRuleName name) : ' ' ∉ name.toList :=
  fun mem => absurd (isName.2 ' ' mem) (by decide)

/-- Two texts without a character, with that character behind each, are equal if they begin equal
texts. -/
theorem append_cancel_at {c : Char} {rest rest' : List Char} :
    ∀ {text text' : List Char}, c ∉ text → c ∉ text' → text ++ c :: rest = text' ++ c :: rest' →
      text = text' ∧ rest = rest'
  | [], [], _, _, same => ⟨rfl, (List.cons.inj same).2⟩
  | [], d :: _, _, notMem', same =>
    absurd ((List.cons.inj same).1 ▸ List.mem_cons_self) notMem'
  | d :: _, [], notMem, _, same =>
    absurd ((List.cons.inj same).1 ▸ List.mem_cons_self) notMem
  | d :: text, d' :: text', notMem, notMem', same => by
    obtain ⟨rfl, sameRest⟩ := List.cons.inj same
    obtain ⟨rfl, rfl⟩ := append_cancel_at (fun mem => notMem (List.mem_cons_of_mem d mem))
      (fun mem => notMem' (List.mem_cons_of_mem d mem)) sameRest
    exact ⟨rfl, rfl⟩

/-! ## Texts of lists -/

/-- The characters of a property in an object's body. -/
theorem toList_fieldText (field : String × String) :
    (fieldText field).toList =
      " \"".toList ++ ((writeString field.1).flatMap escapeChar ++
        ("\" space \":\" space ".toList ++ field.2.toList)) := by
  obtain ⟨key, name⟩ := field
  simp only [fieldText, constantLiteral, Value.compact, Value.write, String.toList_append,
    toList_quote, String.toList_ofList, List.append_assoc, List.cons_append]
  rfl

namespace Body

/-! ## Texts of objects -/

/-- The text behind a property: the other properties, each behind a separator, and the brace. -/
def moreFields (fields : List (String × String)) : List Char :=
  fields.flatMap (fun field => fieldSeparator.toList ++ (fieldText field).toList) ++
    " \"\x7d\" space".toList

theorem toList_text_object_nil :
    (object []).text.toList = "\"\x7b\" space".toList ++ moreFields [] := by
  simp only [text, List.map_nil, String.intercalate_nil, String.toList_append]
  rfl

theorem toList_text_object_cons (field : String × String) (fields : List (String × String)) :
    (object (field :: fields)).text.toList =
      "\"\x7b\" space".toList ++ ((fieldText field).toList ++ moreFields fields) := by
  simp only [text, moreFields, String.toList_append, List.map_cons, toList_intercalate_cons,
    List.append_assoc, List.flatMap_map]

theorem moreFields_cons (field : String × String) (fields : List (String × String)) :
    moreFields (field :: fields) =
      " \",\" space".toList ++ ((fieldText field).toList ++ moreFields fields) := by
  rw [moreFields, List.flatMap_cons, List.append_assoc, List.append_assoc]
  rfl

/-- What follows a property begins with a blank. -/
theorem exists_moreFields_eq_cons (fields : List (String × String)) :
    ∃ rest, moreFields fields = ' ' :: rest := by
  cases fields with
  | nil => exact ⟨_, rfl⟩
  | cons field fields => exact ⟨_, moreFields_cons field fields⟩

/-- The rules of all properties have rule names. -/
def AreNamed (fields : List (String × String)) : Prop := ∀ field ∈ fields, IsRuleName field.2

/-- The rules that a body refers to have rule names. -/
def IsNamed : Body → Prop
  | alternatives names => ∀ name ∈ names, IsRuleName name
  | object fields => AreNamed fields
  | array item => IsRuleName item
  | constants _ | primitive _ => True

/-- The rules that a body refers to. -/
def references : Body → List String
  | alternatives names => names
  | object fields => fields.map Prod.snd
  | array item => [item]
  | constants _ | primitive _ => []

/-- A compact text has no line break. -/
theorem write_noBreak (v : Value) : ∀ c ∈ v.write, c ≠ '\r' ∧ c ≠ '\n' := by
  intro c mem
  have notControl : 0x20 ≤ c.toNat := Value.notControl_of_mem_write mem
  constructor
  · rintro rfl
    exact absurd notControl (by decide)
  · rintro rfl
    exact absurd notControl (by decide)

/-- A property and what follows it are told from the text. -/
theorem fieldText_cancel {field field' : String × String} {fields fields' : List (String × String)}
    (isName : IsRuleName field.2) (isName' : IsRuleName field'.2)
    (same : (fieldText field).toList ++ moreFields fields =
      (fieldText field').toList ++ moreFields fields') :
    field = field' ∧ moreFields fields = moreFields fields' := by
  simp only [toList_fieldText, List.append_assoc] at same
  obtain ⟨keys, sameRest⟩ := (enclosed_write (.string field.1)).cancel
    (enclosed_write (.string field'.1)) (List.append_cancel_left same)
  have sameKey : writeString field.1 = writeString field'.1 :=
    flatMap_escapeChar_injective (write_noBreak (.string _)) (write_noBreak (.string _)) keys
  have names : field.2.toList ++ moreFields fields = field'.2.toList ++ moreFields fields' :=
    List.append_cancel_left (show " space \":\" space ".toList ++ _ = _ ++ _ from sameRest)
  obtain ⟨rest, more⟩ := exists_moreFields_eq_cons fields
  obtain ⟨rest', more'⟩ := exists_moreFields_eq_cons fields'
  rw [more, more'] at names ⊢
  obtain ⟨sameName, rfl⟩ := append_cancel_at isName.blank_notMem isName'.blank_notMem names
  exact ⟨Prod.ext (writeString_injective sameKey) (String.toList_inj.mp sameName), rfl⟩

theorem moreFields_cancel {fields fields' : List (String × String)} (named : AreNamed fields)
    (named' : AreNamed fields') (same : moreFields fields = moreFields fields') :
    fields = fields' := by
  -- Behind a blank and a quote stands the brace of the end or the comma of a separator.
  have noEnd : ∀ {field fields}, moreFields [] ≠ moreFields (field :: fields) := by
    intro field fields same
    rw [moreFields_cons] at same
    exact absurd (show '}' = ',' from Option.some.inj (congrArg (·[2]?) same)) (by decide)
  induction fields generalizing fields' with
  | nil =>
    cases fields' with
    | nil => rfl
    | cons field' fields' => exact absurd same noEnd
  | cons field fields ih =>
    cases fields' with
    | nil => exact absurd same.symm noEnd
    | cons field' fields' =>
      rw [moreFields_cons, moreFields_cons] at same
      obtain ⟨rfl, more⟩ := fieldText_cancel (named _ List.mem_cons_self)
        (named' _ List.mem_cons_self) (List.append_cancel_left same)
      rw [ih (fun f mem => named f (List.mem_cons_of_mem _ mem))
        (fun f mem => named' f (List.mem_cons_of_mem _ mem)) more]

/-- Objects with one text have the same properties in the same order, each with the same rule. -/
theorem eq_of_text_object_eq {fields fields' : List (String × String)}
    (named : AreNamed fields) (named' : AreNamed fields')
    (same : (object fields).text = (object fields').text) : fields = fields' := by
  -- Behind the opening brace stands the closing one or the first key, which begins with a backslash.
  have noEnd : ∀ {field fields}, (object []).text ≠ (object (field :: fields)).text := by
    intro field fields same
    have chars := congrArg String.toList same
    rw [toList_text_object_nil, toList_text_object_cons, toList_fieldText] at chars
    have behind := congrArg (·[2]?) (List.append_cancel_left chars)
    exact absurd (show '}' = '\\' from Option.some.inj behind) (by decide)
  cases fields with
  | nil =>
    cases fields' with
    | nil => rfl
    | cons field' fields' => exact absurd same noEnd
  | cons field fields =>
    cases fields' with
    | nil => exact absurd same.symm noEnd
    | cons field' fields' =>
      have chars := congrArg String.toList same
      rw [toList_text_object_cons, toList_text_object_cons] at chars
      refine moreFields_cancel named named' ?_
      rw [moreFields_cons, moreFields_cons, List.append_cancel_left chars]

/-! ## Texts of other bodies -/

/-- The text of a list of constants that is not empty. -/
theorem toList_text_constants_cons (v : Value) (values : List Value) :
    (constants (v :: values)).text.toList =
      '"' :: (v.write.flatMap escapeChar ++ '"' :: values.flatMap fun more =>
        " | ".toList ++ (constantLiteral more).toList) := by
  simp only [text, joinBars, List.map_cons, toList_intercalate_cons, List.flatMap_map,
    constantLiteral, toList_quote, Value.compact, String.toList_ofList, List.cons_append,
    List.append_assoc]
  rfl

/-- Behind the first of a list of constants the text ends, or goes on with a blank and a bar. -/
theorem behind_first_constant {v : Value} {values : List Value} {literal rest : List Char}
    (enclosed : Enclosed literal)
    (opening : (constants (v :: values)).text.toList = '"' :: (literal ++ '"' :: rest)) :
    rest = [] ∨ ∃ more, rest = ' ' :: '|' :: more := by
  rw [toList_text_constants_cons] at opening
  obtain ⟨-, behind⟩ := (enclosed_write v).cancel enclosed (List.cons.inj opening).2
  rw [← behind]
  cases values with
  | nil => exact .inl rfl
  | cons v values => exact .inr ⟨_, rfl⟩

/-- The text of a list of names that is not empty begins with a character of a name. -/
theorem exists_toList_text_alternatives_cons {name : String} (isName : IsRuleName name)
    (names : List String) :
    ∃ c rest, (alternatives (name :: names)).text.toList = c :: rest ∧ isNameChar c = true := by
  rw [text, joinBars, toList_intercalate_cons]
  cases chars : name.toList with
  | nil => exact absurd (String.toList_eq_nil_iff.mp chars) isName.1
  | cons c more => exact ⟨c, _, rfl, isName.2 c (chars ▸ List.mem_cons_self)⟩

/-- Only the texts of objects and of arrays begin with a bracket in quotes and a blank. -/
theorem eq_object_or_array_of_opening {bracket : Char} {rest : List Char} {body : Body}
    (named : body.IsNamed) (notQuote : bracket ≠ '"') (notBackslash : bracket ≠ '\\')
    (opening : body.text.toList = '"' :: bracket :: '"' :: ' ' :: 's' :: rest) :
    (bracket = '{' ∧ ∃ fields, body = object fields) ∨
      (bracket = '[' ∧ ∃ item, body = array item) := by
  cases body with
  | object fields =>
    have second : (object fields).text.toList[1]? = some '{' := by
      cases fields with
      | nil => rw [toList_text_object_nil]; rfl
      | cons field fields => rw [toList_text_object_cons]; rfl
    rw [opening] at second
    exact .inl ⟨Option.some.inj second, fields, rfl⟩
  | array item =>
    simp only [text, String.toList_append, List.append_assoc] at opening
    exact .inr ⟨(Option.some.inj (congrArg (·[1]?) opening)).symm, item, rfl⟩
  | alternatives names =>
    cases names with
    | nil => cases opening
    | cons name names =>
      obtain ⟨c, more, chars, isNameChar⟩ :=
        exists_toList_text_alternatives_cons (named name List.mem_cons_self) names
      rw [chars] at opening
      rw [(List.cons.inj opening).1] at isNameChar
      exact absurd isNameChar (by decide)
  | constants values =>
    cases values with
    | nil => cases opening
    | cons v values =>
      rcases behind_first_constant (enclosed_singleton notQuote notBackslash) opening with
        ends | ⟨more, goesOn⟩
      · cases ends
      · exact absurd (List.cons.inj (List.cons.inj goesOn).2).1 (by decide)
  | primitive p =>
    -- The fourth character of a production is no blank.
    have fourth := congrArg (·[3]?) opening
    cases p <;> exact absurd (Option.some.inj fourth) (by decide)

/-- Only an object's text begins like that of an object. -/
theorem exists_eq_object_of_text_eq {fields : List (String × String)} {body : Body}
    (named : body.IsNamed) (same : (object fields).text = body.text) :
    ∃ fields', body = object fields' := by
  obtain ⟨rest, opening⟩ :
      ∃ rest, (object fields).text.toList = '"' :: '{' :: '"' :: ' ' :: 's' :: rest := by
    cases fields with
    | nil => exact ⟨_, toList_text_object_nil⟩
    | cons field fields => exact ⟨_, toList_text_object_cons field fields⟩
  rw [same] at opening
  rcases eq_object_or_array_of_opening named (by decide) (by decide) opening with
    ⟨-, isObject⟩ | ⟨bracket, -⟩
  · exact isObject
  · exact absurd bracket (by decide)

/-- Only an array's text begins like that of an array. -/
theorem exists_eq_array_of_text_eq {item : String} {body : Body} (named : body.IsNamed)
    (same : (array item).text = body.text) : ∃ item', body = array item' := by
  obtain ⟨rest, opening⟩ :
      ∃ rest, (array item).text.toList = '"' :: '[' :: '"' :: ' ' :: 's' :: rest := by
    simp only [text, String.toList_append, List.append_assoc]
    exact ⟨_, rfl⟩
  rw [same] at opening
  rcases eq_object_or_array_of_opening named (by decide) (by decide) opening with
    ⟨bracket, -⟩ | ⟨-, isArray⟩
  · exact absurd bracket (by decide)
  · exact isArray

/-- Only the text of names begins with a character of a name. -/
theorem exists_eq_alternatives_of_text_eq {name : String} {names : List String} {body : Body}
    (isName : IsRuleName name) (same : (alternatives (name :: names)).text = body.text) :
    ∃ names', body = alternatives names' := by
  obtain ⟨c, rest, opening, nameChar⟩ := exists_toList_text_alternatives_cons isName names
  have notQuote : c ≠ '"' := fun quote => absurd (quote ▸ nameChar) (by decide)
  rw [same] at opening
  cases body with
  | alternatives names' => exact ⟨names', rfl⟩
  | object fields =>
    simp only [text, String.toList_append, List.append_assoc] at opening
    exact absurd (List.cons.inj opening).1.symm notQuote
  | array item =>
    simp only [text, String.toList_append, List.append_assoc] at opening
    exact absurd (List.cons.inj opening).1.symm notQuote
  | constants values =>
    cases values with
    | nil => cases opening
    | cons v values =>
      rw [toList_text_constants_cons] at opening
      exact absurd (List.cons.inj opening).1.symm notQuote
  | primitive p =>
    obtain ⟨d, more, chars, notNameChar⟩ :
        ∃ d more, (primitive p).text.toList = d :: more ∧ isNameChar d = false := by
      cases p <;> exact ⟨_, _, rfl, by decide⟩
    rw [chars] at opening
    rw [(List.cons.inj opening).1, nameChar] at notNameChar
    cases notNameChar

/-! ## What a text refers to -/

/-- The text behind a name of a list: the other names, each behind a bar, and a blank. -/
def moreNames (names : List String) : List Char :=
  names.flatMap (fun name => " | ".toList ++ name.toList) ++ [' ']

theorem toList_text_alternatives_cons (name : String) (names : List String) :
    (alternatives (name :: names)).text.toList ++ [' '] = name.toList ++ moreNames names := by
  rw [text, joinBars, toList_intercalate_cons, moreNames, List.append_assoc]

theorem moreNames_cons (name : String) (names : List String) :
    moreNames (name :: names) = " | ".toList ++ (name.toList ++ moreNames names) := by
  simp only [moreNames, List.flatMap_cons, List.append_assoc]

/-- A name and what follows it are told from the text. -/
theorem name_cancel {name name' : String} {names names' : List String} (isName : IsRuleName name)
    (isName' : IsRuleName name')
    (same : name.toList ++ moreNames names = name'.toList ++ moreNames names') :
    name = name' ∧ moreNames names = moreNames names' := by
  have blank (names : List String) : ∃ rest, moreNames names = ' ' :: rest := by
    cases names with
    | nil => exact ⟨_, rfl⟩
    | cons name names => exact ⟨_, moreNames_cons name names⟩
  obtain ⟨rest, more⟩ := blank names
  obtain ⟨rest', more'⟩ := blank names'
  rw [more, more'] at same ⊢
  obtain ⟨sameName, rfl⟩ := append_cancel_at isName.blank_notMem isName'.blank_notMem same
  exact ⟨String.toList_inj.mp sameName, rfl⟩

theorem moreNames_cancel : ∀ {names names' : List String}, (∀ name ∈ names, IsRuleName name) →
    (∀ name ∈ names', IsRuleName name) → moreNames names = moreNames names' → names = names'
  | [], [], _, _, _ => rfl
  | [], name' :: names', _, _, same => by
    rw [moreNames_cons] at same
    cases same
  | name :: names, [], _, _, same => by
    rw [moreNames_cons] at same
    cases same
  | name :: names, name' :: names', named, named', same => by
    rw [moreNames_cons, moreNames_cons] at same
    obtain ⟨rfl, more⟩ := name_cancel (named name List.mem_cons_self)
      (named' name' List.mem_cons_self) (List.append_cancel_left same)
    rw [moreNames_cancel (fun other mem => named other (List.mem_cons_of_mem _ mem))
      (fun other mem => named' other (List.mem_cons_of_mem _ mem)) more]

/-- Lists of names with one text are equal. -/
theorem eq_of_text_alternatives_eq {name : String} {names names' : List String}
    (named : (alternatives (name :: names)).IsNamed) (named' : (alternatives names').IsNamed)
    (same : (alternatives (name :: names)).text = (alternatives names').text) :
    name :: names = names' := by
  cases names' with
  | nil =>
    obtain ⟨c, rest, chars, -⟩ :=
      exists_toList_text_alternatives_cons (named name List.mem_cons_self) names
    rw [same] at chars
    cases chars
  | cons name' names' =>
    have chars := congrArg (String.toList · ++ [' ']) same
    rw [toList_text_alternatives_cons, toList_text_alternatives_cons] at chars
    obtain ⟨rfl, more⟩ := name_cancel (named name List.mem_cons_self)
      (named' name' List.mem_cons_self) chars
    rw [moreNames_cancel (fun other mem => named other (List.mem_cons_of_mem _ mem))
      (fun other mem => named' other (List.mem_cons_of_mem _ mem)) more]

/-- Arrays with one text have one item. -/
theorem eq_of_text_array_eq {item item' : String} (isName : IsRuleName item)
    (isName' : IsRuleName item') (same : (array item).text = (array item').text) : item = item' := by
  have chars := congrArg String.toList same
  simp only [text, String.toList_append, List.append_assoc] at chars
  exact String.toList_inj.mp (append_cancel_at isName.blank_notMem isName'.blank_notMem
    (List.append_cancel_left chars)).1

/-- A body that refers to rules is told by its text to refer to them, in this order. -/
theorem references_eq_of_ne_nil {body body' : Body} (named : body.IsNamed)
    (named' : body'.IsNamed) (same : body.text = body'.text) (h : body.references ≠ []) :
    body.references = body'.references := by
  cases body with
  | alternatives names =>
    cases names with
    | nil => exact absurd rfl h
    | cons name names =>
      obtain ⟨names', rfl⟩ := exists_eq_alternatives_of_text_eq (named name List.mem_cons_self) same
      exact eq_of_text_alternatives_eq named named' same
  | object fields =>
    obtain ⟨fields', rfl⟩ := exists_eq_object_of_text_eq named' same
    rw [eq_of_text_object_eq named named' same]
  | array item =>
    obtain ⟨item', rfl⟩ := exists_eq_array_of_text_eq named' same
    rw [eq_of_text_array_eq named named' same]
  | constants values => exact absurd rfl h
  | primitive p => exact absurd rfl h

/-- Bodies with one text refer to the same rules in the same order, whatever kinds they are of and
whatever their keys and constants contain. -/
theorem references_eq_of_text_eq {body body' : Body} (named : body.IsNamed)
    (named' : body'.IsNamed) (same : body.text = body'.text) :
    body.references = body'.references := by
  by_cases h : body.references = []
  · by_cases h' : body'.references = []
    · rw [h, h']
    · exact (references_eq_of_ne_nil named' named same.symm h').symm
  · exact references_eq_of_ne_nil named named' same h

end Body

end SchemaGrammar.Gbnf
