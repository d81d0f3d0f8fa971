import SchemaGrammar.Proofs.ClosedOutlines
import SchemaGrammar.Proofs.JsonGrammar

/-!
# What is skipped is a value

The skipper goes by a text character by character, and the grammar says which texts are values. They
agree: an outline closes where a value ends (`Outlines.isValue`), and every value has an outline that
closes where it ends (`IsValue.exists_outlines`).

The grammar lets a number end anywhere behind a digit, but the skipper takes all the digits there
are. They end a number at the same place if the text does not go on with a character that a number
may have (`EndsNumber`). What stands behind a value in an array or an object never does.
-/

namespace SchemaGrammar.Json

variable {text rest : List Char}

/-! ## Blanks -/

theorem isBlank_iff {c : Char} : isBlank c = true ↔ standard.blank c := by
  simp [isBlank, standard, or_assoc, or_left_comm]

theorem isBlanks_skipBlanks : ∀ text : List Char, IsBlanks standard text (skipBlanks text)
  | [] => .none
  | c :: text => by
    by_cases blank : isBlank c = true
    · rw [skipBlanks, List.dropWhile_cons_of_pos blank]
      exact .more (isBlank_iff.mp blank) (isBlanks_skipBlanks text)
    · rw [skipBlanks, List.dropWhile_cons_of_neg blank]
      exact .none

theorem isBlanks_of_skipBlanks {start : List Char} (begins : skipBlanks text = start) :
    IsBlanks standard text start := begins ▸ isBlanks_skipBlanks text

/-- Blanks that are skipped do not matter. -/
theorem IsBlanks.skipBlanks_eq (blanks : IsBlanks standard text rest) :
    skipBlanks text = skipBlanks rest := by
  induction blanks with
  | none => rfl
  | more blank _ ih =>
    rw [← ih, skipBlanks, List.dropWhile_cons_of_pos (isBlank_iff.mpr blank)]
    rfl

/-- A number has no blanks. -/
theorem isBlank_of_mem_numberChars : ∀ c ∈ numberChars, isBlank c = false :=
  forall_mem_of_all (by decide)

/-! ## Strings -/

theorem isHexDigit_of_hexValue? {c : Char} {n : Nat} (value : hexValue? c = some n) :
    IsHexDigit c := by
  have all : ∀ n < 128, (hexValue? (Char.ofNat n)).isSome = true → IsHexDigit (Char.ofNat n) := by
    decide
  have small : c.toNat < 128 := by
    by_contra large
    simp only [hexValue?, Char.le_def, UInt32.le_iff_toNat_le] at value
    rw [if_neg, if_neg, if_neg] at value
    · cases value
    all_goals
      rintro ⟨-, le⟩
      exact large (Nat.lt_of_le_of_lt le (by decide))
  have here := all c.toNat small
  rw [Char.ofNat_toNat, value] at here
  exact here rfl

theorem exists_hexValue? {c : Char} (isHex : IsHexDigit c) : ∃ n, hexValue? c = some n :=
  Option.isSome_iff_exists.mp
    ((forall_mem_of_all (by decide) :
      ∀ c ∈ "0123456789abcdefABCDEF".toList, (hexValue? c).isSome = true) c isHex)

/-- Four hexadecimal digits are read as a number. -/
theorem exists_hexDigits_of_readHex {n : Nat} (read : readHex text = .ok (n, rest)) :
    ∃ h₁ h₂ h₃ h₄, text = h₁ :: h₂ :: h₃ :: h₄ :: rest ∧ IsHexDigit h₁ ∧ IsHexDigit h₂ ∧
      IsHexDigit h₃ ∧ IsHexDigit h₄ := by
  unfold readHex at read
  split at read
  · split at read
    · next value₁ value₂ value₃ value₄ =>
      obtain ⟨-, rfl⟩ := Prod.mk.inj (Except.ok.inj read)
      exact ⟨_, _, _, _, rfl, isHexDigit_of_hexValue? value₁, isHexDigit_of_hexValue? value₂,
        isHexDigit_of_hexValue? value₃, isHexDigit_of_hexValue? value₄⟩
    · cases read
  · cases read

theorem exists_readHex {h₁ h₂ h₃ h₄ : Char} (isHex₁ : IsHexDigit h₁) (isHex₂ : IsHexDigit h₂)
    (isHex₃ : IsHexDigit h₃) (isHex₄ : IsHexDigit h₄) :
    ∃ n, readHex (h₁ :: h₂ :: h₃ :: h₄ :: rest) = .ok (n, rest) := by
  obtain ⟨n₁, value₁⟩ := exists_hexValue? isHex₁
  obtain ⟨n₂, value₂⟩ := exists_hexValue? isHex₂
  obtain ⟨n₃, value₃⟩ := exists_hexValue? isHex₃
  obtain ⟨n₄, value₄⟩ := exists_hexValue? isHex₄
  exact ⟨_, by rw [readHex, value₁, value₂, value₃, value₄]⟩

/-- An escape that is skipped goes on with the string behind it. -/
theorem isStringEnd_of_skipEscape {behind : List Char} (skipped : skipEscape text = .ok behind)
    (string : IsStringEnd standard behind rest) : IsStringEnd standard ('\\' :: text) rest := by
  unfold skipEscape at skipped
  split at skipped
  · obtain ⟨⟨n, more⟩, hex, same⟩ := bind_eq_ok_iff.mp skipped
    obtain rfl := Except.ok.inj same
    obtain ⟨h₁, h₂, h₃, h₄, rfl, isHex₁, isHex₂, isHex₃, isHex₄⟩ := exists_hexDigits_of_readHex hex
    exact .long isHex₁ isHex₂ isHex₃ isHex₄ string
  · split at skipped
    · next isLetter =>
      obtain rfl := Except.ok.inj skipped
      exact .short isLetter string
    · cases skipped
  · cases skipped

/-- The skipper ends a string where the grammar does. -/
theorem skipQuoted_eq_ok_iff : skipQuoted text = .ok rest ↔ IsStringEnd standard text rest := by
  constructor
  · intro skipped
    fun_induction skipQuoted text with
    | case1 => cases skipped
    | case2 =>
      obtain rfl := Except.ok.inj skipped
      exact .close
    | case3 => cases skipped
    | case4 more behind escape ih => exact isStringEnd_of_skipEscape escape (ih skipped)
    | case5 => cases skipped
    | case6 c more notQuote notEscape printable ih =>
      exact .raw ⟨notQuote, notEscape, Nat.not_lt.mp printable⟩ (ih skipped)
  · intro string
    induction string with
    | close => rw [skipQuoted]
    | raw plain _ ih =>
      rw [skipQuoted, if_neg (Nat.not_lt.mpr plain.2.2), ih]
      · exact plain.1
      · exact plain.2.1
    | @short letter text rest isLetter _ ih =>
      rw [skipQuoted_escape, ih]
      have notLong : letter ≠ 'u' := by
        rintro rfl
        exact absurd isLetter (by decide)
      unfold skipEscape
      split
      · next same => exact absurd (List.cons.inj same).1 notLong
      · next same =>
        obtain ⟨rfl, rfl⟩ := List.cons.inj same
        exact if_pos isLetter
      · next same => cases same
    | long isHex₁ isHex₂ isHex₃ isHex₄ _ ih =>
      obtain ⟨n, hex⟩ := exists_readHex isHex₁ isHex₂ isHex₃ isHex₄
      rw [skipQuoted_escape (skipEscape_hex hex), ih]

/-- A string ends at the same place whatever stands behind it. -/
theorem IsStringEnd.exists_front {d : Dialect} (string : IsStringEnd d text rest) :
    ∃ front, text = front ++ rest ∧ ∀ other, IsStringEnd d (front ++ other) other := by
  induction string with
  | close => exact ⟨['"'], rfl, fun _ => .close⟩
  | @raw c _ _ isRaw _ ih =>
    obtain ⟨front, rfl, string⟩ := ih
    exact ⟨c :: front, rfl, fun other => .raw isRaw (string other)⟩
  | @short letter _ _ isLetter _ ih =>
    obtain ⟨front, rfl, string⟩ := ih
    exact ⟨'\\' :: letter :: front, rfl, fun other => .short isLetter (string other)⟩
  | @long h₁ h₂ h₃ h₄ _ _ hex₁ hex₂ hex₃ hex₄ _ ih =>
    obtain ⟨front, rfl, string⟩ := ih
    exact ⟨'\\' :: 'u' :: h₁ :: h₂ :: h₃ :: h₄ :: front, rfl,
      fun other => .long hex₁ hex₂ hex₃ hex₄ (string other)⟩

/-! ## Numbers -/

/-- A text that no number goes on in. -/
def EndsNumber (rest : List Char) : Prop := ∀ c ∈ rest.head?, c ∉ numberChars

theorem endsNumber_nil : EndsNumber [] := by
  rintro c ⟨⟩

theorem endsNumber_cons {c : Char} (notNumber : c ∉ numberChars) : EndsNumber (c :: rest) := by
  rintro d ⟨⟩
  exact notNumber

/-- A text that does not go on with a digit. -/
def EndsDigits (rest : List Char) : Prop := ∀ c ∈ rest.head?, c.isDigit = false

theorem EndsNumber.endsDigits (ends : EndsNumber rest) : EndsDigits rest :=
  fun c mem => Bool.eq_false_iff.mpr fun isDigit => ends c mem (mem_numberChars_of_isDigit isDigit)

variable {digits : List Char}

theorem spanDigits_parts (text : List Char) :
    text = (spanDigits text).1 ++ (spanDigits text).2 ∧
      ∀ d ∈ (spanDigits text).1, d.isDigit = true :=
  ⟨List.takeWhile_append_dropWhile.symm, List.all_eq_true.mp List.all_takeWhile⟩

theorem append_of_spanDigits (split : spanDigits text = (digits, rest)) :
    text = digits ++ rest ∧ ∀ d ∈ digits, d.isDigit = true := by
  have parts := spanDigits_parts text
  rwa [split] at parts

theorem spanDigits_append (areDigits : ∀ d ∈ digits, d.isDigit = true) (ends : EndsDigits rest) :
    spanDigits (digits ++ rest) = (digits, rest) := by
  have none : rest.takeWhile Char.isDigit = [] ∧ rest.dropWhile Char.isDigit = rest := by
    cases rest with
    | nil => exact ⟨rfl, rfl⟩
    | cons c rest =>
      have notDigit : ¬ c.isDigit = true := Bool.eq_false_iff.mp (ends c rfl)
      exact ⟨List.takeWhile_cons_of_neg notDigit, List.dropWhile_cons_of_neg notDigit⟩
  rw [spanDigits, List.takeWhile_append_of_pos areDigits, List.dropWhile_append_of_pos areDigits,
    none.1, none.2, List.append_nil]

/-- What is skipped of an exponent behind its letter: a sign, or none, and digits. -/
theorem exists_of_skipExponent (skipped : skipExponent text = .ok rest) :
    ∃ sign digits, sign ∈ [[], ['+'], ['-']] ∧ digits ≠ [] ∧ (∀ d ∈ digits, d.isDigit = true) ∧
      text = sign ++ digits ++ rest := by
  have signed : ∃ sign, sign ∈ [[], ['+'], ['-']] ∧ text = sign ++ skipSign text := by
    unfold skipSign
    split
    · exact ⟨['+'], by simp, rfl⟩
    · exact ⟨['-'], by simp, rfl⟩
    · exact ⟨[], by simp, rfl⟩
  obtain ⟨sign, isSign, same⟩ := signed
  obtain ⟨split, areDigits⟩ := spanDigits_parts (skipSign text)
  simp only [skipExponent] at skipped
  split at skipped
  · cases skipped
  · next notEmpty =>
    obtain rfl := Except.ok.inj skipped
    exact ⟨sign, _, isSign, fun none => notEmpty (List.isEmpty_iff.mpr none), areDigits,
      by rw [List.append_assoc, ← split, ← same]⟩

theorem skipSign_append {sign : List Char} (isSign : sign ∈ [[], ['+'], ['-']])
    (notEmpty : digits ≠ []) (areDigits : ∀ d ∈ digits, d.isDigit = true) :
    skipSign (sign ++ digits ++ rest) = digits ++ rest := by
  simp only [List.mem_cons, List.not_mem_nil, or_false] at isSign
  rcases isSign with rfl | rfl | rfl
  · obtain ⟨d, more, rfl⟩ := List.exists_cons_of_ne_nil notEmpty
    have isDigit := areDigits d List.mem_cons_self
    unfold skipSign
    split
    · next same =>
      obtain ⟨rfl, -⟩ := List.cons.inj same
      cases isDigit
    · next same =>
      obtain ⟨rfl, -⟩ := List.cons.inj same
      cases isDigit
    · rfl
  · rfl
  · rfl

theorem skipExponent_append {sign : List Char} (isSign : sign ∈ [[], ['+'], ['-']])
    (notEmpty : digits ≠ []) (areDigits : ∀ d ∈ digits, d.isDigit = true)
    (ends : EndsDigits rest) : skipExponent (sign ++ digits ++ rest) = .ok rest := by
  rw [skipExponent, skipSign_append isSign notEmpty areDigits, spanDigits_append areDigits ends]
  exact if_neg (mt List.isEmpty_iff.mp notEmpty)

theorem exists_of_skipTail (skipped : skipTail text = .ok rest) :
    ∃ exponent, IsExponent exponent ∧ text = exponent ++ rest := by
  unfold skipTail at skipped
  split at skipped
  · obtain ⟨sign, digits, isSign, notEmpty, areDigits, rfl⟩ := exists_of_skipExponent skipped
    exact ⟨_, .some (by simp) isSign notEmpty areDigits, rfl⟩
  · obtain ⟨sign, digits, isSign, notEmpty, areDigits, rfl⟩ := exists_of_skipExponent skipped
    exact ⟨_, .some (by simp) isSign notEmpty areDigits, rfl⟩
  · obtain rfl := Except.ok.inj skipped
    exact ⟨[], .none, rfl⟩

theorem skipTail_append {exponent : List Char} (isExponent : IsExponent exponent)
    (ends : EndsNumber rest) : skipTail (exponent ++ rest) = .ok rest := by
  cases isExponent with
  | none =>
    refine skipTail_eq_self ?_ ?_
    · rintro more rfl
      exact ends 'e' rfl (by decide)
    · rintro more rfl
      exact ends 'E' rfl (by decide)
  | some isLetter isSign notEmpty areDigits =>
    have skipped := skipExponent_append isSign notEmpty areDigits ends.endsDigits
    simp only [List.mem_cons, List.not_mem_nil, or_false] at isLetter
    rcases isLetter with rfl | rfl <;> exact skipped

/-- What is skipped of a number behind its sign. -/
theorem exists_of_skipMagnitude (skipped : skipMagnitude text = .ok rest) :
    ∃ whole fraction exponent, IsWhole whole ∧ IsFraction fraction ∧ IsExponent exponent ∧
      text = whole ++ (fraction ++ (exponent ++ rest)) := by
  -- digits that are not refused are a zero alone, or do not begin with one
  have isWhole {whole behind : List Char} (split : spanDigits text = (whole, behind))
      (notEmpty : whole ≠ []) (noZero : ∀ c more, whole ≠ '0' :: c :: more) : IsWhole whole := by
    obtain ⟨-, areDigits⟩ := append_of_spanDigits split
    rcases whole with _ | ⟨d, more⟩
    · exact absurd rfl notEmpty
    · by_cases zero : d = '0'
      · subst zero
        cases more with
        | nil => exact .zero
        | cons c more => exact absurd rfl (noZero c more)
      · exact .positive (areDigits d List.mem_cons_self) zero
          fun c mem => areDigits c (List.mem_cons_of_mem d mem)
  unfold skipMagnitude at skipped
  split at skipped
  · cases skipped
  · cases skipped
  · next whole more notEmpty noZero split =>
    have whole := isWhole split (fun none => notEmpty none) fun c more same => noZero c more same
    obtain ⟨rfl, -⟩ := append_of_spanDigits split
    obtain ⟨inner, areDigits⟩ := spanDigits_parts more
    simp only at skipped
    split at skipped
    · cases skipped
    · next some =>
      obtain ⟨exponent, isExponent, tail⟩ := exists_of_skipTail skipped
      refine ⟨_, '.' :: (spanDigits more).1, exponent, whole,
        .some (fun none => some (List.isEmpty_iff.mpr none)) areDigits, isExponent, ?_⟩
      rw [List.cons_append, ← tail, ← inner]
  · next whole behind notEmpty noZero noPoint split =>
    have whole := isWhole split (fun none => notEmpty none) fun c more same => noZero c more same
    obtain ⟨rfl, -⟩ := append_of_spanDigits split
    obtain ⟨exponent, isExponent, rfl⟩ := exists_of_skipTail skipped
    exact ⟨_, [], exponent, whole, .none, isExponent, rfl⟩

theorem IsExponent.endsDigits {exponent : List Char} (isExponent : IsExponent exponent)
    (ends : EndsNumber rest) : EndsDigits (exponent ++ rest) := by
  cases isExponent with
  | none => exact ends.endsDigits
  | some isLetter =>
    rintro c ⟨⟩
    exact (forall_mem_of_all (by decide) : ∀ e ∈ ['e', 'E'], e.isDigit = false) _ isLetter

theorem IsFraction.endsDigits {fraction exponent : List Char} (isFraction : IsFraction fraction)
    (isExponent : IsExponent exponent) (ends : EndsNumber rest) :
    EndsDigits (fraction ++ (exponent ++ rest)) := by
  cases isFraction with
  | none => exact isExponent.endsDigits ends
  | some =>
    rintro c ⟨⟩
    rfl

theorem IsWhole.isDigit {whole : List Char} (isWhole : IsWhole whole) :
    ∀ d ∈ whole, d.isDigit = true := by
  cases isWhole with
  | zero => simp
  | positive isDigit _ areDigits => exact List.forall_mem_cons.mpr ⟨isDigit, areDigits⟩

theorem skipMagnitude_append {whole fraction exponent : List Char} (isWhole : IsWhole whole)
    (isFraction : IsFraction fraction) (isExponent : IsExponent exponent) (ends : EndsNumber rest) :
    skipMagnitude (whole ++ (fraction ++ (exponent ++ rest))) = .ok rest := by
  rw [skipMagnitude, spanDigits_append isWhole.isDigit (isFraction.endsDigits isExponent ends)]
  split
  · next same =>
    obtain ⟨rfl, -⟩ := Prod.mk.inj same
    cases isWhole
  · next same =>
    obtain ⟨rfl, -⟩ := Prod.mk.inj same
    cases isWhole with
    | positive _ notZero => exact absurd rfl notZero
  · next same =>
    obtain ⟨-, same⟩ := Prod.mk.inj same
    cases isFraction with
    | none =>
      -- neither an exponent nor what follows a number begins with a point
      cases isExponent with
      | none => exact absurd (by decide) (ends '.' (congrArg List.head? same))
      | some isLetter =>
        obtain ⟨rfl, -⟩ := List.cons.inj same
        exact absurd isLetter (by decide)
    | some notEmpty areDigits =>
      obtain ⟨-, rfl⟩ := List.cons.inj same
      simp only [List.append_eq, spanDigits_append areDigits (isExponent.endsDigits ends)]
      exact (if_neg (mt List.isEmpty_iff.mp notEmpty)).trans (skipTail_append isExponent ends)
  · next noPoint same =>
    obtain ⟨-, rfl⟩ := Prod.mk.inj same
    cases isFraction with
    | none => exact skipTail_append isExponent ends
    | some => exact absurd rfl (noPoint _)

theorem exists_isNumber_of_skipNumber (skipped : skipNumber text = .ok rest) :
    ∃ number, IsNumber number ∧ text = number ++ rest := by
  have unsigned (sign text : List Char) (isSign : sign ∈ [[], ['-']])
      (skipped : skipMagnitude text = .ok rest) :
      ∃ number, IsNumber number ∧ sign ++ text = number ++ rest := by
    obtain ⟨whole, fraction, exponent, isWhole, isFraction, isExponent, rfl⟩ :=
      exists_of_skipMagnitude skipped
    exact ⟨_, .intro isSign isWhole isFraction isExponent, by simp only [List.append_assoc]⟩
  unfold skipNumber at skipped
  split at skipped
  · exact unsigned ['-'] _ (by simp) skipped
  · exact unsigned [] _ (by simp) skipped

/-- A number is skipped to its end. -/
theorem skipNumber_append {number : List Char} (isNumber : IsNumber number)
    (ends : EndsNumber rest) : skipNumber (number ++ rest) = .ok rest := by
  obtain @⟨sign, whole, fraction, exponent, isSign, isWhole, isFraction, isExponent⟩ := isNumber
  have skipped := skipMagnitude_append isWhole isFraction isExponent ends
  simp only [List.append_assoc]
  simp only [List.mem_cons, List.not_mem_nil, or_false] at isSign
  rcases isSign with rfl | rfl
  · unfold skipNumber
    split
    · next same =>
      cases isWhole with
      | zero => cases (List.cons.inj same).1
      | positive isDigit =>
        obtain ⟨rfl, -⟩ := List.cons.inj same
        cases isDigit
    · exact skipped
  · exact skipped

/-! ## Scalars -/

theorem append_of_readWord {word : List Char} (read : readWord word text = .ok rest) :
    text = word ++ rest := by
  fun_induction readWord word text with
  | case1 => exact Except.ok.inj read
  | case2 => cases read
  | case3 w word c text same ih =>
    rw [beq_iff_eq.mp same, List.cons_append, ih read]
  | case4 => cases read

/-- A scalar that is skipped is a value. -/
theorem isValue_of_skipScalar (skipped : skipScalar text = .ok rest) :
    IsValue standard text rest := by
  unfold skipScalar at skipped
  split at skipped
  · cases skipped
  · next c more =>
    split_ifs at skipped with isNull isTrue isFalse isQuote isSignOrDigit
    · rw [beq_iff_eq.mp isNull, append_of_readWord skipped]
      exact .null
    · rw [beq_iff_eq.mp isTrue, append_of_readWord skipped]
      exact .true
    · rw [beq_iff_eq.mp isFalse, append_of_readWord skipped]
      exact .false
    · rw [beq_iff_eq.mp isQuote]
      exact .string (skipQuoted_eq_ok_iff.mp skipped)
    · obtain ⟨number, isNumber, same⟩ := exists_isNumber_of_skipNumber skipped
      rw [same]
      exact .number isNumber

/-- A number begins with a sign or a digit. -/
theorem IsNumber.exists_eq_cons {number : List Char} (isNumber : IsNumber number) :
    ∃ c more, number = c :: more ∧ (c = '-' ∨ c.isDigit = true) := by
  obtain ⟨isSign, isWhole, -, -⟩ := isNumber
  simp only [List.mem_cons, List.not_mem_nil, or_false] at isSign
  rcases isSign with rfl | rfl
  · cases isWhole with
    | zero => exact ⟨_, _, rfl, .inr rfl⟩
    | positive isDigit => exact ⟨_, _, rfl, .inr isDigit⟩
  · exact ⟨_, _, rfl, .inl rfl⟩

theorem skipScalar_number {number : List Char} (isNumber : IsNumber number)
    (ends : EndsNumber rest) : skipScalar (number ++ rest) = .ok rest := by
  have skipped := skipNumber_append isNumber ends
  obtain ⟨c, more, rfl, begins⟩ := isNumber.exists_eq_cons
  have number : (c == '-' || c.isDigit) = true := by
    rw [Bool.or_eq_true, beq_iff_eq]
    exact begins
  have other {d : Char} (notNumber : (d == '-' || d.isDigit) = false) : ¬ (c == d) = true := by
    intro same
    rw [beq_iff_eq.mp same, notNumber] at number
    cases number
  rw [List.cons_append] at skipped ⊢
  rw [skipScalar, if_neg (other rfl), if_neg (other rfl), if_neg (other rfl), if_neg (other rfl),
    if_pos number, skipped]

/-! ## Values -/

/-- A closing bracket behind blanks ends a number. -/
theorem endsNumber_of_skipBlanks {c : Char} (begins : skipBlanks text = c :: rest)
    (notNumber : c ∉ numberChars) : EndsNumber text := by
  cases text with
  | nil => exact endsNumber_nil
  | cons d text =>
    refine endsNumber_cons fun mem => ?_
    by_cases blank : isBlank d = true
    · cases blank.symm.trans (isBlank_of_mem_numberChars d mem)
    · rw [skipBlanks, List.dropWhile_cons_of_neg blank] at begins
      exact notNumber ((List.cons.inj begins).1 ▸ mem)

/-- What stands behind an item ends a number. -/
theorem OutlinesItems.endsNumber {items : Items} (outlines : OutlinesItems false text items rest) :
    EndsNumber text := by
  cases outlines with
  | close closing => exact endsNumber_of_skipBlanks closing (by decide)
  | next comma => exact endsNumber_of_skipBlanks comma (by decide)

/-- What stands behind a member ends a number. -/
theorem OutlinesMembers.endsNumber {members : Members}
    (outlines : OutlinesMembers false text members rest) : EndsNumber text := by
  cases outlines with
  | close closing => exact endsNumber_of_skipBlanks closing (by decide)
  | next comma => exact endsNumber_of_skipBlanks comma (by decide)

/-- What the grammar calls the text behind the opening bracket of an array, or behind an item. -/
def IsItems : Bool → List Char → List Char → Prop
  | true, text, rest => IsValue standard ('[' :: text) rest
  | false, text, rest => IsMoreItems standard text rest

/-- What the grammar calls the text behind the opening bracket of an object, or behind a member. -/
def IsMembers : Bool → List Char → List Char → Prop
  | true, text, rest => IsValue standard ('{' :: text) rest
  | false, text, rest => IsMoreMembers standard text rest

mutual
/-- What closes is a value. -/
theorem Outlines.isValue : ∀ {text : List Char} {outline : Outline} {rest : List Char},
    Outlines text outline rest → IsValue standard text rest
  | _, _, _, .scalar _ _ skipped => isValue_of_skipScalar skipped
  | _, _, _, .array items => items.isItems
  | _, _, _, .object members => members.isMembers
theorem OutlinesItems.isItems : ∀ {first : Bool} {text : List Char} {items : Items}
    {rest : List Char}, OutlinesItems first text items rest → IsItems first text rest
  | true, _, _, _, .close closing => .emptyArray (isBlanks_of_skipBlanks closing)
  | false, _, _, _, .close closing => .close (isBlanks_of_skipBlanks closing)
  | _, _, _, _, .first here more => .array (isBlanks_skipBlanks _) here.isValue more.isItems
  | _, _, _, _, .next comma here more =>
    .next (isBlanks_of_skipBlanks comma) (isBlanks_skipBlanks _) here.isValue more.isItems
theorem OutlinesMember.isMember : ∀ {key : List Char} {members : Members} {rest : List Char},
    OutlinesMember key members rest →
      ∃ middle, IsMember standard ('"' :: key) middle ∧ IsMoreMembers standard middle rest
  | _, _, _, .intro keyEnds colon here more =>
    ⟨_, .intro (skipQuoted_eq_ok_iff.mp keyEnds) (isBlanks_of_skipBlanks colon)
      (isBlanks_skipBlanks _) here.isValue, more.isMembers⟩
theorem OutlinesMembers.isMembers : ∀ {first : Bool} {text : List Char} {members : Members}
    {rest : List Char}, OutlinesMembers first text members rest → IsMembers first text rest
  | true, _, _, _, .close closing => .emptyObject (isBlanks_of_skipBlanks closing)
  | false, _, _, _, .close closing => .close (isBlanks_of_skipBlanks closing)
  | _, _, _, _, .first begins member => by
    obtain ⟨middle, here, more⟩ := member.isMember
    exact .object (isBlanks_of_skipBlanks begins) here more
  | _, _, _, _, .next comma begins member => by
    obtain ⟨middle, here, more⟩ := member.isMember
    exact .next (isBlanks_of_skipBlanks comma) (isBlanks_of_skipBlanks begins) here more
end

/-- Blanks before a value are skipped, and nothing else. -/
theorem Outlines.skipBlanks_eq {outline : Outline} {start : List Char}
    (outlines : Outlines start outline rest) (blanks : IsBlanks standard text start) :
    skipBlanks text = start := by
  obtain ⟨c, more, rfl, -, notBlank⟩ := outlines.exists_eq_cons
  rw [blanks.skipBlanks_eq]
  exact skipBlanks_cons notBlank more

theorem IsBlanks.skipBlanks_eq_cons {c : Char} (blanks : IsBlanks standard text (c :: rest))
    (notBlank : isBlank c = false) : skipBlanks text = c :: rest :=
  blanks.skipBlanks_eq.trans (skipBlanks_cons notBlank rest)

mutual
/-- A value has an outline that closes where the value ends. -/
theorem IsValue.exists_outlines : ∀ {text rest : List Char}, IsValue standard text rest →
    EndsNumber rest → ∃ outline, Outlines text outline rest
  | _, _, .null, _ => ⟨_, .ofScalar rfl⟩
  | _, _, .true, _ => ⟨_, .ofScalar rfl⟩
  | _, _, .false, _ => ⟨_, .ofScalar rfl⟩
  | _, _, .number isNumber, ends => ⟨_, .ofScalar (skipScalar_number isNumber ends)⟩
  | _, _, .string string, _ => ⟨_, .ofScalar (skipQuoted_eq_ok_iff.mpr string)⟩
  | _, _, .emptyArray blanks, _ => ⟨_, .array (.close (blanks.skipBlanks_eq_cons rfl))⟩
  | _, _, .array blanks first more, _ => by
    obtain ⟨items, following⟩ := more.exists_outlines
    obtain ⟨value, here⟩ := first.exists_outlines following.endsNumber
    exact ⟨_, .array (.first ((here.skipBlanks_eq blanks).symm ▸ here) following)⟩
  | _, _, .emptyObject blanks, _ => ⟨_, .object (.close (blanks.skipBlanks_eq_cons rfl))⟩
  | _, _, .object blanks first more, _ => by
    obtain ⟨following, outlines⟩ := more.exists_outlines
    obtain ⟨key, members, rfl, here⟩ := first.exists_outlines outlines
    exact ⟨_, .object (.first (blanks.skipBlanks_eq_cons rfl) here)⟩
theorem IsMoreItems.exists_outlines : ∀ {text rest : List Char}, IsMoreItems standard text rest →
    ∃ items, OutlinesItems false text items rest
  | _, _, .close blanks => ⟨_, .close (blanks.skipBlanks_eq_cons rfl)⟩
  | _, _, .next blanks blanks' item more => by
    obtain ⟨items, following⟩ := more.exists_outlines
    obtain ⟨value, here⟩ := item.exists_outlines following.endsNumber
    exact ⟨_, .next (blanks.skipBlanks_eq_cons rfl) ((here.skipBlanks_eq blanks').symm ▸ here)
      following⟩
theorem IsMember.exists_outlines : ∀ {text middle : List Char}, IsMember standard text middle →
    ∀ {next : Members} {rest : List Char}, OutlinesMembers false middle next rest →
      ∃ key members, text = '"' :: key ∧ OutlinesMember key members rest
  | _, _, .intro key blanks blanks' value, _, _, following => by
    obtain ⟨outline, here⟩ := value.exists_outlines following.endsNumber
    exact ⟨_, _, rfl, .intro (skipQuoted_eq_ok_iff.mpr key) (blanks.skipBlanks_eq_cons rfl)
      ((here.skipBlanks_eq blanks').symm ▸ here) following⟩
theorem IsMoreMembers.exists_outlines : ∀ {text rest : List Char},
    IsMoreMembers standard text rest → ∃ members, OutlinesMembers false text members rest
  | _, _, .close blanks => ⟨_, .close (blanks.skipBlanks_eq_cons rfl)⟩
  | _, _, .next blanks blanks' member more => by
    obtain ⟨following, outlines⟩ := more.exists_outlines
    obtain ⟨key, members, rfl, here⟩ := member.exists_outlines outlines
    exact ⟨_, .next (blanks.skipBlanks_eq_cons rfl) (blanks'.skipBlanks_eq_cons rfl) here⟩
end

end SchemaGrammar.Json
