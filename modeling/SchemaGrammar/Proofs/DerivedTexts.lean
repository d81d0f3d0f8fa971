import SchemaGrammar.Proofs.BodyReading

/-!
# Bodies derive JSON

What a body derives is a JSON value with optional spaces behind it, if that is so for the rules it
refers to and for what its literals are read as (`derivesValues_body`). There is one lemma for each
kind of body, and each follows the shape of the body's expression: the texts of its items are put
together by the rules of the JSON grammar.

The dialect is `lenient`: in the strings that a grammar allows, any character may stand for itself
that is neither a quote nor a backslash, and between tokens there are spaces only.
-/

namespace SchemaGrammar.Gbnf

open Json

/-! ## Values with spaces behind them -/

/-- A text of spaces. -/
def IsSpaces (text : List Char) : Prop := ∀ c ∈ text, c = ' '

/-- A value with optional spaces behind it. -/
def IsSpacedValue (d : Dialect) (text : List Char) : Prop :=
  ∃ value spaces, text = value ++ spaces ∧ IsValue d value [] ∧ IsSpaces spaces

/-- An expression that derives values only. -/
def DerivesValues (rules : String → Option Expression) (e : Expression) : Prop :=
  ∀ text, Derives rules e text → IsSpacedValue lenient text

/-- An optional blank. -/
def spaceExpression : Expression :=
  .choice [.sequence [.repeated (.literal [' ']) 0 (some 1)]]

theorem readBody_spaceBody : readBody spaceBody = some spaceExpression := by cbv

/-- The rule for the optional blank means an optional blank. -/
def HasSpaceRule (rules : String → Option Expression) : Prop :=
  rules spaceName = some spaceExpression

variable {rules : String → Option Expression}

theorem IsSpaces.append_isBlanks {spaces : List Char} (isSpaces : IsSpaces spaces)
    {text rest : List Char} (blanks : IsBlanks lenient text rest) :
    IsBlanks lenient (spaces ++ text) rest := by
  induction spaces with
  | nil => exact blanks
  | cons c spaces ih =>
    exact .more (isSpaces c List.mem_cons_self)
      (ih fun d mem => isSpaces d (List.mem_cons_of_mem c mem))

theorem IsSpaces.isBlanks {spaces : List Char} (isSpaces : IsSpaces spaces) (rest : List Char) :
    IsBlanks lenient (spaces ++ rest) rest := isSpaces.append_isBlanks .none

/-- What the rule for the optional blank derives. -/
theorem isSpaces_of_derives (hasSpace : HasSpaceRule rules) {text : List Char}
    (derives : Derives rules Atom.space.expression text) : IsSpaces text := by
  obtain ⟨e, found, derives⟩ := Derives.rule_iff.mp derives
  obtain rfl := Option.some.inj (hasSpace.symm.trans found)
  replace derives := Derives.only_iff.mp derives
  obtain ⟨pieces, rfl, -, -, each⟩ :=
    Derives.repeated_iff.mp (Derives.singleton_iff.mp derives)
  intro c mem
  obtain ⟨piece, memPieces, mem⟩ := List.mem_flatten.mp mem
  rw [Derives.literal_iff.mp (each piece memPieces)] at mem
  exact List.mem_singleton.mp mem

/-- A value in front of the optional blank. -/
theorem isSpacedValue_append (hasSpace : HasSpaceRule rules) {value text : List Char}
    (isValue : IsValue lenient value [])
    (derives : Derives rules Atom.space.expression text) :
    IsSpacedValue lenient (value ++ text) :=
  ⟨value, text, rfl, isValue, isSpaces_of_derives hasSpace derives⟩

/-! ## Alternatives and constants -/

theorem derivesValues_choice {alternatives : List Expression}
    (each : ∀ e ∈ alternatives, DerivesValues rules e) :
    DerivesValues rules (.choice alternatives) := by
  intro text derives
  obtain ⟨e, mem, derives⟩ := Derives.choice_iff.mp derives
  exact each e mem text derives

theorem derivesValues_choiceOf {atoms : List Atom}
    (each : ∀ atom ∈ atoms, DerivesValues rules atom.expression) :
    DerivesValues rules (Body.choiceOf atoms) := by
  refine derivesValues_choice fun e mem text derives => ?_
  obtain ⟨atom, memAtoms, rfl⟩ := List.mem_map.mp mem
  exact each atom memAtoms text (Derives.singleton_iff.mp derives)

theorem derivesValues_literal {content : List Char} (isValue : IsValue lenient content []) :
    DerivesValues rules (.literal content) := by
  intro text derives
  obtain rfl := Derives.literal_iff.mp derives
  exact ⟨text, [], (List.append_nil text).symm, isValue, nofun⟩

/-! ## Primitive types -/

/-- What holds of each character below 128 in a range holds in the range, if the range ends there. -/
theorem forall_mem_range {Q : Char → Prop} {low high : Char} (ends : high.toNat < 128)
    (each : ∀ n < 128, low.toNat ≤ n → n ≤ high.toNat → Q (Char.ofNat n)) {c : Char}
    (above : low ≤ c) (below : c ≤ high) : Q c := by
  have above' : low.toNat ≤ c.toNat := UInt32.le_iff_toNat_le.mp above
  have below' : c.toNat ≤ high.toNat := UInt32.le_iff_toNat_le.mp below
  have held := each c.toNat (Nat.lt_of_le_of_lt below' ends) above' below'
  rwa [Char.ofNat_toNat] at held

theorem has_ranges {ranges : List (Char × Char)} {c : Char} :
    CharClass.has ⟨false, ranges⟩ c = true ↔ ∃ range ∈ ranges, range.1 ≤ c ∧ c ≤ range.2 := by
  rw [CharClass.has, Bool.bne_false, List.any_eq_true]
  simp only [Bool.and_eq_true, decide_eq_true_iff]

/-- A class of single characters has these and no others. -/
theorem has_singles {chars : List Char} {c : Char} :
    CharClass.has ⟨false, chars.map fun d => (d, d)⟩ c = true ↔ c ∈ chars := by
  rw [has_ranges]
  constructor
  · rintro ⟨range, mem, above, below⟩
    obtain ⟨d, memChars, rfl⟩ := List.mem_map.mp mem
    rwa [Char.le_antisymm below above]
  · intro mem
    exact ⟨(c, c), List.mem_map.mpr ⟨c, mem, rfl⟩, Char.le_refl c, Char.le_refl c⟩

/-- A class has the characters that its complement does not have. -/
theorem has_negated {ranges : List (Char × Char)} {c : Char} :
    CharClass.has ⟨true, ranges⟩ c = true ↔ ¬ CharClass.has ⟨false, ranges⟩ c = true := by
  rw [CharClass.has, CharClass.has, Bool.bne_true, Bool.bne_false, Bool.not_eq_true',
    Bool.not_eq_true]

theorem isDigit_of_has {c : Char} (has : CharClass.has ⟨false, [('0', '9')]⟩ c = true) :
    c.isDigit = true := by
  obtain ⟨range, mem, above, below⟩ := has_ranges.mp has
  obtain rfl := List.mem_singleton.mp mem
  exact @forall_mem_range (fun c => c.isDigit = true) '0' '9' (by decide) (by decide) c above below

theorem isHexDigit_of_has {c : Char}
    (has : CharClass.has ⟨false, [('0', '9'), ('a', 'f'), ('A', 'F')]⟩ c = true) :
    IsHexDigit c := by
  obtain ⟨range, mem, above, below⟩ := has_ranges.mp has
  simp only [List.mem_cons, List.not_mem_nil, or_false] at mem
  rcases mem with rfl | rfl | rfl
  · exact @forall_mem_range IsHexDigit '0' '9' (by decide) (by decide) c above below
  · exact @forall_mem_range IsHexDigit 'a' 'f' (by decide) (by decide) c above below
  · exact @forall_mem_range IsHexDigit 'A' 'F' (by decide) (by decide) c above below

/-- A repeated class derives as many characters of the class as its bounds allow. -/
theorem charClass_repeated {Q : Char → Prop} {charClass : CharClass}
    (has : ∀ c, charClass.has c = true → Q c) {least : Nat} {most : Option Nat} {text : List Char}
    (derives : Derives rules (.repeated (.charClass charClass) least most) text) :
    least ≤ text.length ∧ (∀ n, most = some n → text.length ≤ n) ∧ ∀ c ∈ text, Q c := by
  obtain ⟨pieces, rfl, enough, bounded, each⟩ := Derives.repeated_iff.mp derives
  have single : ∀ piece ∈ pieces, ∃ c, charClass.has c = true ∧ piece = [c] :=
    fun piece mem => Derives.charClass_iff.mp (each piece mem)
  have length : pieces.flatten.length = pieces.length := by
    rw [List.length_flatten, List.map_congr_left (g := fun _ => 1)]
    · simp
    · intro piece mem
      obtain ⟨c, -, rfl⟩ := single piece mem
      rfl
  refine ⟨length ▸ enough, fun n bound => length ▸ bounded n bound, fun c mem => ?_⟩
  obtain ⟨piece, memPieces, mem⟩ := List.mem_flatten.mp mem
  obtain ⟨d, hasIt, rfl⟩ := single piece memPieces
  rw [List.mem_singleton.mp mem]
  exact has d hasIt

theorem digits_of_derives {least : Nat} {text : List Char}
    (derives : Derives rules (.repeated Body.digit least none) text) :
    least ≤ text.length ∧ ∀ c ∈ text, c.isDigit = true := by
  obtain ⟨enough, -, areDigits⟩ := charClass_repeated (fun c => isDigit_of_has) derives
  exact ⟨enough, areDigits⟩

theorem sequence_of_derives_optional {items : List Expression} {text : List Char}
    (derives : Derives rules (Body.optional items) text) :
    text = [] ∨ Derives rules (.sequence items) text :=
  (Derives.optional_iff.mp derives).imp_right Derives.only_iff.mp

theorem isWhole_of_derives_integer {text : List Char} (derives : Derives rules Body.integer text) :
    ∃ sign whole, text = sign ++ whole ∧ sign ∈ [[], ['-']] ∧ IsWhole whole := by
  replace derives := Derives.only_iff.mp derives
  obtain ⟨sign, more, rfl, derivesSign, derives⟩ := Derives.cons_iff.mp derives
  refine ⟨sign, more, rfl, ?_, ?_⟩
  · rcases Derives.optional_iff.mp derivesSign with rfl | minus
    · exact List.mem_cons_self
    · rw [Derives.literal_iff.mp minus]
      decide
  · rcases Derives.either_iff.mp (Derives.singleton_iff.mp derives) with derives | derives
    · obtain ⟨c, has, rfl⟩ := Derives.charClass_iff.mp (Derives.singleton_iff.mp derives)
      by_cases zero : c = '0'
      · rw [zero]
        exact .zero
      · exact .positive (isDigit_of_has has) zero nofun
    · obtain ⟨first, others, rfl, derivesFirst, derivesMore⟩ := Derives.cons_iff.mp derives
      obtain ⟨c, has, rfl⟩ := Derives.charClass_iff.mp derivesFirst
      obtain ⟨range, mem, above, below⟩ := has_ranges.mp has
      obtain rfl := List.mem_singleton.mp mem
      have positive := @forall_mem_range (fun c => c.isDigit = true ∧ c ≠ '0') '1' '9' (by decide)
        (by decide) c above below
      exact .positive positive.1 positive.2
        (digits_of_derives (Derives.singleton_iff.mp derivesMore)).2

theorem isFraction_of_derives {text : List Char}
    (derives : Derives rules
      (Body.optional [.literal ['.'], .repeated Body.digit 1 none]) text) : IsFraction text := by
  rcases sequence_of_derives_optional derives with rfl | derives
  · exact .none
  · obtain ⟨point, digits, rfl, derivesPoint, derives⟩ := Derives.cons_iff.mp derives
    obtain ⟨enough, areDigits⟩ := digits_of_derives (Derives.singleton_iff.mp derives)
    rw [Derives.literal_iff.mp derivesPoint]
    exact .some (List.length_pos_iff.mp enough) areDigits

theorem isExponent_of_derives {text : List Char}
    (derives : Derives rules (Body.optional [.charClass ⟨false, [('e', 'e'), ('E', 'E')]⟩,
      .repeated (.charClass ⟨false, [('-', '-'), ('+', '+')]⟩) 0 (some 1),
      .repeated Body.digit 1 none]) text) : IsExponent text := by
  rcases sequence_of_derives_optional derives with rfl | derives
  · exact .none
  · obtain ⟨letter, more, rfl, derivesLetter, derives⟩ := Derives.cons_iff.mp derives
    obtain ⟨sign, digits, rfl, derivesSign, derives⟩ := Derives.cons_iff.mp derives
    obtain ⟨enough, areDigits⟩ := digits_of_derives (Derives.singleton_iff.mp derives)
    obtain ⟨e, hasLetter, rfl⟩ := Derives.charClass_iff.mp derivesLetter
    have isLetter : e ∈ ['e', 'E'] := by
      have has : CharClass.has ⟨false, ['e', 'E'].map fun d => (d, d)⟩ e = true := hasLetter
      exact has_singles.mp has
    have isSign : sign ∈ [[], ['+'], ['-']] := by
      rcases Derives.optional_iff.mp derivesSign with rfl | derives
      · exact List.mem_cons_self
      · obtain ⟨c, hasSign, rfl⟩ := Derives.charClass_iff.mp derives
        have has : CharClass.has ⟨false, ['-', '+'].map fun d => (d, d)⟩ c = true := hasSign
        have isMark := has_singles.mp has
        simp only [List.mem_cons, List.not_mem_nil, or_false] at isMark
        rcases isMark with rfl | rfl <;> decide
    exact @IsExponent.some e sign digits isLetter isSign (List.length_pos_iff.mp enough) areDigits

/-- The characters between the quotes of a string, in front of its closing quote. -/
theorem isStringEnd_of_derives {pieces : List (List Char)}
    (each : ∀ piece ∈ pieces, Derives rules Body.stringCharacter piece) (rest : List Char) :
    IsStringEnd lenient (pieces.flatten ++ '"' :: rest) rest := by
  induction pieces with
  | nil => exact .close
  | cons piece pieces ih =>
    rw [List.flatten_cons, List.append_assoc]
    have following := ih fun other mem => each other (List.mem_cons_of_mem piece mem)
    rcases Derives.either_iff.mp (each piece List.mem_cons_self) with derives | derives
    · obtain ⟨c, hasIt, rfl⟩ := Derives.charClass_iff.mp (Derives.singleton_iff.mp derives)
      have has : CharClass.has ⟨true, ['"', '\\'].map fun d => (d, d)⟩ c = true := hasIt
      have isRaw : c ∉ ['"', '\\'] := has_singles.not.mp (has_negated.mp has)
      simp only [List.mem_cons, List.not_mem_nil, or_false, not_or] at isRaw
      exact .raw isRaw following
    · obtain ⟨backslash, escape, rfl, derivesBackslash, derivesEscape⟩ := Derives.cons_iff.mp derives
      rw [Derives.literal_iff.mp derivesBackslash]
      rcases Derives.either_iff.mp (Derives.singleton_iff.mp derivesEscape) with derives | derives
      · obtain ⟨c, has, rfl⟩ := Derives.charClass_iff.mp (Derives.singleton_iff.mp derives)
        exact .short (has_singles.mp has) following
      · obtain ⟨u, digits, rfl, derivesU, derivesDigits⟩ := Derives.cons_iff.mp derives
        rw [Derives.literal_iff.mp derivesU]
        obtain ⟨enough, bounded, areHex⟩ := charClass_repeated (fun c => isHexDigit_of_has)
          (Derives.singleton_iff.mp derivesDigits)
        obtain ⟨h₁, h₂, h₃, h₄, rfl⟩ : ∃ h₁ h₂ h₃ h₄, digits = [h₁, h₂, h₃, h₄] :=
          List.length_eq_four.mp (Nat.le_antisymm (bounded 4 rfl) enough)
        simp only [List.forall_mem_cons] at areHex
        exact .long areHex.1 areHex.2.1 areHex.2.2.1 areHex.2.2.2.1 following

/-- A production derives values of its type only. -/
theorem derivesValues_primitive (hasSpace : HasSpaceRule rules) (p : Primitive) :
    DerivesValues rules (Body.expression (.primitive p)) := by
  intro text derives
  replace derives := Derives.only_iff.mp derives
  obtain ⟨value, spaces, rfl, derivesValue, derivesSpace⟩ := Derives.append_iff.mp derives
  refine isSpacedValue_append hasSpace ?_ (Derives.singleton_iff.mp derivesSpace)
  cases p with
  | boolean =>
    rcases Derives.either_iff.mp (Derives.singleton_iff.mp derivesValue) with derives | derives
    · rw [Derives.literal_iff.mp (Derives.singleton_iff.mp derives)]
      exact .true
    · rw [Derives.literal_iff.mp (Derives.singleton_iff.mp derives)]
      exact .false
  | null =>
    rw [Derives.literal_iff.mp (Derives.singleton_iff.mp derivesValue)]
    exact .null
  | integer =>
    obtain ⟨sign, whole, rfl, isSign, isWhole⟩ :=
      isWhole_of_derives_integer (Derives.singleton_iff.mp derivesValue)
    have number := IsNumber.intro isSign isWhole .none .none
    rw [List.append_nil, List.append_nil] at number
    rw [← List.append_nil (sign ++ whole)]
    exact .number number
  | number =>
    obtain ⟨integer, more, rfl, derivesInteger, derivesMore⟩ := Derives.cons_iff.mp derivesValue
    obtain ⟨sign, whole, rfl, isSign, isWhole⟩ := isWhole_of_derives_integer derivesInteger
    obtain ⟨fraction, exponent, rfl, derivesFraction, derivesExponent⟩ :=
      Derives.cons_iff.mp derivesMore
    have number := IsNumber.intro isSign isWhole (isFraction_of_derives derivesFraction)
      (isExponent_of_derives (Derives.singleton_iff.mp derivesExponent))
    rw [← List.append_assoc] at number
    rw [← List.append_nil (sign ++ whole ++ (fraction ++ exponent))]
    exact .number number
  | string =>
    obtain ⟨opening, more, rfl, derivesOpening, derivesMore⟩ := Derives.cons_iff.mp derivesValue
    obtain ⟨characters, closing, rfl, derivesCharacters, derivesClosing⟩ :=
      Derives.cons_iff.mp derivesMore
    obtain ⟨pieces, rfl, -, -, each⟩ := Derives.repeated_iff.mp derivesCharacters
    rw [Derives.literal_iff.mp derivesOpening,
      Derives.literal_iff.mp (Derives.singleton_iff.mp derivesClosing)]
    exact .string (isStringEnd_of_derives each [])

/-! ## Arrays -/

/-- What stands behind the first item of an array: pieces that begin with a comma, and the bracket.
The spaces behind an item are blanks in front of what follows it. -/
theorem isMoreItems_of_derives {item : String} (hasSpace : HasSpaceRule rules)
    (derivesItem : DerivesValues rules (.rule item)) {pieces : List (List Char)}
    (each : ∀ piece ∈ pieces, Derives rules
      (.choice [.sequence [.literal [','], Atom.space.expression, .rule item]]) piece)
    {spaces : List Char} (isSpaces : IsSpaces spaces) (rest : List Char) :
    IsMoreItems lenient (spaces ++ (pieces.flatten ++ ']' :: rest)) rest := by
  induction pieces generalizing spaces with
  | nil => exact .close (isSpaces.isBlanks _)
  | cons piece pieces ih =>
    have derives := Derives.only_iff.mp (each piece List.mem_cons_self)
    obtain ⟨comma, more, rfl, derivesComma, derivesMore⟩ := Derives.cons_iff.mp derives
    obtain ⟨before, text, rfl, derivesSpace, derivesText⟩ := Derives.cons_iff.mp derivesMore
    obtain rfl := Derives.literal_iff.mp derivesComma
    obtain ⟨value, behind, rfl, isValue, isSpaces'⟩ :=
      derivesItem text (Derives.singleton_iff.mp derivesText)
    have following := ih (fun other mem => each other (List.mem_cons_of_mem _ mem)) isSpaces'
    have isBefore := isSpaces_of_derives hasSpace derivesSpace
    rw [List.flatten_cons]
    simp only [List.append_assoc, List.cons_append, List.nil_append]
    exact .next (isSpaces.isBlanks _) (isBefore.isBlanks _) (isValue.append _) following

/-- An array derives values if its items do. -/
theorem derivesValues_array {item : String} (hasSpace : HasSpaceRule rules)
    (derivesItem : DerivesValues rules (.rule item)) :
    DerivesValues rules (Body.expression (.array item)) := by
  intro text derives
  replace derives := Derives.only_iff.mp derives
  obtain ⟨opening, more, rfl, derivesOpening, derivesMore⟩ := Derives.cons_iff.mp derives
  obtain ⟨before, more, rfl, derivesBefore, derivesMore⟩ := Derives.cons_iff.mp derivesMore
  obtain ⟨items, more, rfl, derivesItems, derivesMore⟩ := Derives.cons_iff.mp derivesMore
  obtain ⟨closing, after, rfl, derivesClosing, derivesAfter⟩ := Derives.cons_iff.mp derivesMore
  obtain rfl := Derives.literal_iff.mp derivesOpening
  obtain rfl := Derives.literal_iff.mp derivesClosing
  have isSpaces := isSpaces_of_derives hasSpace derivesBefore
  have whole : IsValue lenient ('[' :: (before ++ (items ++ [']']))) [] := by
    rcases sequence_of_derives_optional derivesItems with rfl | derivesItems
    · exact .emptyArray (isSpaces.isBlanks _)
    · obtain ⟨first, others, rfl, derivesFirst, derivesOthers⟩ := Derives.cons_iff.mp derivesItems
      obtain ⟨value, behind, rfl, isValue, isSpaces'⟩ := derivesItem first derivesFirst
      obtain ⟨pieces, rfl, -, -, each⟩ :=
        Derives.repeated_iff.mp (Derives.singleton_iff.mp derivesOthers)
      simp only [List.append_assoc]
      exact .array (isSpaces.isBlanks _) (isValue.append _)
        (isMoreItems_of_derives hasSpace derivesItem each isSpaces' [])
  have spaced := isSpacedValue_append hasSpace whole (Derives.singleton_iff.mp derivesAfter)
  simpa only [List.cons_append, List.append_assoc, List.nil_append] using spaced

/-! ## Objects -/

/-- A property derives a member with spaces behind it, if the property's rule derives values. -/
theorem isMember_of_derives {field : String × String} (hasSpace : HasSpaceRule rules)
    (wellQuoted : IsWellQuoted (.string field.1))
    (derivesField : DerivesValues rules (.rule field.2)) {text : List Char}
    (derives : Derives rules (.sequence ((Body.fieldAtoms field).map Atom.expression)) text) :
    ∃ member spaces, text = member ++ spaces ∧
      IsMember lenient member [] ∧ IsSpaces spaces := by
  obtain ⟨key, more, rfl, derivesKey, derivesMore⟩ := Derives.cons_iff.mp derives
  obtain ⟨afterKey, more, rfl, derivesAfterKey, derivesMore⟩ := Derives.cons_iff.mp derivesMore
  obtain ⟨colon, more, rfl, derivesColon, derivesMore⟩ := Derives.cons_iff.mp derivesMore
  obtain ⟨afterColon, text, rfl, derivesAfterColon, derivesText⟩ := Derives.cons_iff.mp derivesMore
  obtain rfl := Derives.literal_iff.mp derivesColon
  obtain ⟨value, spaces, rfl, isValue, isSpaces⟩ :=
    derivesField text (Derives.singleton_iff.mp derivesText)
  obtain ⟨readable, isKey⟩ := wellQuoted
  obtain ⟨content, quoted⟩ := exists_literalContent_string readable
  rw [Derives.literal_iff.mp derivesKey, quoted]
  rw [quoted] at isKey
  refine ⟨'"' :: (content ++ (afterKey ++ ':' :: (afterColon ++ value))), spaces, ?_, ?_, isSpaces⟩
  · simp only [List.append_assoc, List.cons_append, List.nil_append]
  · exact .intro ((IsValue.string_iff.mp isKey).append _)
      ((isSpaces_of_derives hasSpace derivesAfterKey).isBlanks _)
      ((isSpaces_of_derives hasSpace derivesAfterColon).isBlanks _) isValue

/-- The properties of an object with its closing brace, behind what stands in front of the first.
The spaces behind a property are blanks in front of what follows it. -/
theorem members_of_derives (hasSpace : HasSpaceRule rules)
    {fields : List (String × String)} {field : String × String}
    (wellQuoted : ∀ f ∈ field :: fields, IsWellQuoted (.string f.1))
    (derivesFields : ∀ f ∈ field :: fields, DerivesValues rules (.rule f.2)) {text : List Char}
    (derives : Derives rules (.sequence
      ((.space :: (Body.fieldAtoms field ++ Body.moreAtoms fields)).map Atom.expression)) text) :
    ∃ members after, text = members ++ after ∧ IsSpaces after ∧ ∃ first more,
      IsBlanks lenient members first ∧ IsMember lenient first more ∧
        IsMoreMembers lenient more [] := by
  induction fields generalizing field text with
  | nil =>
    rw [List.map_cons, List.map_append] at derives
    obtain ⟨before, more, rfl, derivesBefore, derivesMore⟩ := Derives.cons_iff.mp derives
    obtain ⟨first, others, rfl, derivesFirst, derivesOthers⟩ := Derives.append_iff.mp derivesMore
    obtain ⟨closing, after, rfl, derivesClosing, derivesAfter⟩ := Derives.cons_iff.mp derivesOthers
    obtain rfl := Derives.literal_iff.mp derivesClosing
    obtain ⟨member, behind, rfl, isMember, isBehind⟩ := isMember_of_derives hasSpace
      (wellQuoted field List.mem_cons_self) (derivesFields field List.mem_cons_self) derivesFirst
    refine ⟨before ++ (member ++ (behind ++ ['}'])), after, ?_,
      isSpaces_of_derives hasSpace (Derives.singleton_iff.mp derivesAfter), _, _,
      (isSpaces_of_derives hasSpace derivesBefore).isBlanks _, isMember.append _,
      .close (isBehind.isBlanks _)⟩
    simp only [List.append_assoc]
  | cons next fields ih =>
    have atoms : Body.moreAtoms (next :: fields) =
        .literal [','] :: .space :: (Body.fieldAtoms next ++ Body.moreAtoms fields) := by
      simp only [Body.moreAtoms, List.flatMap_cons, List.cons_append, List.append_assoc]
    rw [List.map_cons, List.map_append, atoms, List.map_cons] at derives
    obtain ⟨before, more, rfl, derivesBefore, derivesMore⟩ := Derives.cons_iff.mp derives
    obtain ⟨first, others, rfl, derivesFirst, derivesOthers⟩ := Derives.append_iff.mp derivesMore
    obtain ⟨comma, more, rfl, derivesComma, derivesNext⟩ := Derives.cons_iff.mp derivesOthers
    obtain rfl := Derives.literal_iff.mp derivesComma
    obtain ⟨member, behind, rfl, isMember, isBehind⟩ := isMember_of_derives hasSpace
      (wellQuoted field List.mem_cons_self) (derivesFields field List.mem_cons_self) derivesFirst
    obtain ⟨members, after, rfl, isAfter, following⟩ := ih
      (fun f mem => wellQuoted f (List.mem_cons_of_mem _ mem))
      (fun f mem => derivesFields f (List.mem_cons_of_mem _ mem)) derivesNext
    obtain ⟨nextMember, others, blanks, isNext, isOthers⟩ := following
    refine ⟨before ++ (member ++ (behind ++ ',' :: members)), after, ?_, isAfter, _, _,
      (isSpaces_of_derives hasSpace derivesBefore).isBlanks _, isMember.append _,
      .next (isBehind.isBlanks _) blanks isNext isOthers⟩
    simp only [List.append_assoc, List.cons_append, List.nil_append]

/-- An object derives values if the rules of its properties do. -/
theorem derivesValues_object {fields : List (String × String)} (hasSpace : HasSpaceRule rules)
    (wellQuoted : ∀ field ∈ fields, IsWellQuoted (.string field.1))
    (derivesFields : ∀ field ∈ fields, DerivesValues rules (.rule field.2)) :
    DerivesValues rules (Body.expression (.object fields)) := by
  intro text derives
  replace derives := Derives.only_iff.mp derives
  cases fields with
  | nil =>
    obtain ⟨opening, more, rfl, derivesOpening, derivesMore⟩ := Derives.cons_iff.mp derives
    obtain ⟨before, more, rfl, derivesBefore, derivesMore⟩ := Derives.cons_iff.mp derivesMore
    obtain ⟨closing, after, rfl, derivesClosing, derivesAfter⟩ := Derives.cons_iff.mp derivesMore
    obtain rfl := Derives.literal_iff.mp derivesOpening
    obtain rfl := Derives.literal_iff.mp derivesClosing
    refine ⟨'{' :: (before ++ ['}']), after, ?_,
      .emptyObject ((isSpaces_of_derives hasSpace derivesBefore).isBlanks _),
      isSpaces_of_derives hasSpace (Derives.singleton_iff.mp derivesAfter)⟩
    simp only [List.append_assoc, List.cons_append, List.nil_append]
  | cons field fields =>
    obtain ⟨opening, more, rfl, derivesOpening, derivesMore⟩ := Derives.cons_iff.mp derives
    obtain rfl := Derives.literal_iff.mp derivesOpening
    obtain ⟨members, after, rfl, isAfter, following⟩ :=
      members_of_derives hasSpace wellQuoted derivesFields derivesMore
    obtain ⟨first, more, blanks, isFirst, isMore⟩ := following
    exact ⟨'{' :: members, after, rfl, .object blanks isFirst isMore, isAfter⟩

/-! ## All bodies -/

/-- A body derives values if the rules that it refers to do, and what it quotes is well quoted. -/
theorem derivesValues_body {body : Body} (hasSpace : HasSpaceRule rules)
    (wellQuoted : ∀ v ∈ body.quoted, IsWellQuoted v)
    (derivesRules : ∀ name ∈ body.references, DerivesValues rules (.rule name)) :
    DerivesValues rules body.expression := by
  cases body with
  | alternatives names =>
    refine derivesValues_choiceOf fun atom mem => ?_
    obtain ⟨name, memNames, rfl⟩ := List.mem_map.mp mem
    exact derivesRules name memNames
  | constants values =>
    refine derivesValues_choiceOf fun atom mem => ?_
    obtain ⟨v, memValues, rfl⟩ := List.mem_map.mp mem
    exact derivesValues_literal (wellQuoted v memValues).2
  | object fields =>
    exact derivesValues_object hasSpace (List.forall_mem_map.mp wellQuoted) fun field mem =>
      derivesRules field.2 (List.mem_map_of_mem mem)
  | array item => exact derivesValues_array hasSpace (derivesRules item List.mem_cons_self)
  | primitive p => exact derivesValues_primitive hasSpace p

end SchemaGrammar.Gbnf
