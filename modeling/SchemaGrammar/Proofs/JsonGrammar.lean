/-!
# The grammar of JSON texts

What a JSON text is, said without any reader or writer. A relation takes a text and what is left of
it: `IsValue d text rest` says that `text` is a value followed by `rest`, so that the parts of a
value follow each other without being taken apart. A value begins and ends with a character of its
own; blanks stand between its tokens only.

The relations are taken over a dialect, which says which characters may stand for themselves in a
string and which may stand between tokens. `standard` is the dialect of the standard, and `lenient`
is the one of the texts that grammars allow. A value of one dialect is one of every dialect that
allows more (`IsValue.mono`). A value stays one whatever stands behind it (`IsValue.append`), so a
text is a value exactly if it is one with nothing left.
-/

namespace SchemaGrammar.Json

/-- What is checked of every item of a list holds of all its members. -/
theorem forall_mem_of_all {α : Type} {P : α → Prop} [DecidablePred P] {xs : List α}
    (checked : (xs.all fun x => decide (P x)) = true) : ∀ x ∈ xs, P x :=
  fun x mem => of_decide_eq_true (List.all_eq_true.mp checked x mem)

/-! ## Strings -/

/-- A character that the standard lets stand for itself in a string. -/
def IsPlain (c : Char) : Prop := c ≠ '"' ∧ c ≠ '\\' ∧ 0x20 ≤ c.toNat

instance (c : Char) : Decidable (IsPlain c) := by
  unfold IsPlain
  infer_instance

/-- The characters that may follow a backslash on their own. -/
def shortEscapes : List Char := ['"', '\\', '/', 'b', 'f', 'n', 'r', 't']

/-- A hexadecimal digit. -/
def IsHexDigit (c : Char) : Prop := c ∈ "0123456789abcdefABCDEF".toList

instance (c : Char) : Decidable (IsHexDigit c) := by
  unfold IsHexDigit
  infer_instance

/-- What may stand for itself in a string, and what may stand between tokens. -/
structure Dialect where
  raw : Char → Prop
  blank : Char → Prop

/-- The dialect of the standard. -/
def standard : Dialect := ⟨IsPlain, fun c => c ∈ [' ', '\t', '\n', '\r']⟩

/-- The dialect in which control characters may stand for themselves in strings, and the space is the
only blank. -/
def lenient : Dialect := ⟨fun c => c ≠ '"' ∧ c ≠ '\\', fun c => c = ' '⟩

/-- The characters of a string and its closing quote. -/
inductive IsStringEnd (d : Dialect) : List Char → List Char → Prop
  | close {rest : List Char} : IsStringEnd d ('"' :: rest) rest
  | raw {c : Char} {text rest : List Char} : d.raw c → IsStringEnd d text rest →
      IsStringEnd d (c :: text) rest
  | short {letter : Char} {text rest : List Char} : letter ∈ shortEscapes →
      IsStringEnd d text rest → IsStringEnd d ('\\' :: letter :: text) rest
  | long {h₁ h₂ h₃ h₄ : Char} {text rest : List Char} : IsHexDigit h₁ → IsHexDigit h₂ →
      IsHexDigit h₃ → IsHexDigit h₄ → IsStringEnd d text rest →
      IsStringEnd d ('\\' :: 'u' :: h₁ :: h₂ :: h₃ :: h₄ :: text) rest

/-! ## Numbers -/

/-- The digits before the point: a zero alone, or digits that do not begin with one. -/
inductive IsWhole : List Char → Prop
  | zero : IsWhole ['0']
  | positive {c : Char} {digits : List Char} : c.isDigit = true → c ≠ '0' →
      (∀ d ∈ digits, d.isDigit = true) → IsWhole (c :: digits)

/-- A point with the digits after it, or nothing. -/
inductive IsFraction : List Char → Prop
  | none : IsFraction []
  | some {digits : List Char} : digits ≠ [] → (∀ d ∈ digits, d.isDigit = true) →
      IsFraction ('.' :: digits)

/-- An exponent with or without a sign, or nothing. -/
inductive IsExponent : List Char → Prop
  | none : IsExponent []
  | some {e : Char} {sign digits : List Char} : e ∈ ['e', 'E'] → sign ∈ [[], ['+'], ['-']] →
      digits ≠ [] → (∀ d ∈ digits, d.isDigit = true) → IsExponent (e :: (sign ++ digits))

/-- A number. -/
inductive IsNumber : List Char → Prop
  | intro {sign whole fraction exponent : List Char} : sign ∈ [[], ['-']] → IsWhole whole →
      IsFraction fraction → IsExponent exponent →
      IsNumber (sign ++ (whole ++ (fraction ++ exponent)))

/-- The characters that a number may have. -/
def numberChars : List Char := "0123456789+-.eE".toList

theorem mem_numberChars_of_isDigit {c : Char} (isDigit : c.isDigit = true) : c ∈ numberChars := by
  obtain ⟨low, high⟩ := Char.isDigit_iff_toNat.mp isDigit
  have all : ∀ n < 128, '0'.toNat ≤ n → n ≤ '9'.toNat → Char.ofNat n ∈ numberChars := by decide
  have := all c.toNat (Nat.lt_of_le_of_lt high (by decide)) low high
  rwa [Char.ofNat_toNat] at this

theorem mem_numberChars_of_mem_sign {sign : List Char} (isSign : sign ∈ [[], ['+'], ['-']]) {c : Char}
    (mem : c ∈ sign) : c ∈ numberChars := by
  simp only [List.mem_cons, List.not_mem_nil, or_false] at isSign
  rcases isSign with rfl | rfl | rfl
  · cases mem
  · rw [List.mem_singleton.mp mem]
    decide
  · rw [List.mem_singleton.mp mem]
    decide

theorem IsNumber.mem_numberChars {text : List Char} (number : IsNumber text) {c : Char}
    (mem : c ∈ text) : c ∈ numberChars := by
  obtain ⟨isSign, whole, fraction, exponent⟩ := number
  simp only [List.mem_append] at mem
  rcases mem with mem | mem | mem | mem
  · refine mem_numberChars_of_mem_sign ?_ mem
    exact (forall_mem_of_all (by decide) : ∀ s ∈ [[], ['-']], s ∈ [[], ['+'], ['-']]) _ isSign
  · cases whole with
    | zero =>
      rw [List.mem_singleton.mp mem]
      decide
    | positive isDigit _ digits =>
      rcases List.mem_cons.mp mem with rfl | mem
      · exact mem_numberChars_of_isDigit isDigit
      · exact mem_numberChars_of_isDigit (digits _ mem)
  · cases fraction with
    | none => exact absurd mem List.not_mem_nil
    | some _ digits =>
      rcases List.mem_cons.mp mem with rfl | mem
      · decide
      · exact mem_numberChars_of_isDigit (digits _ mem)
  · cases exponent with
    | none => exact absurd mem List.not_mem_nil
    | some isLetter isSign _ digits =>
      rcases List.mem_cons.mp mem with rfl | mem
      · exact (forall_mem_of_all (by decide) : ∀ e ∈ ['e', 'E'], e ∈ numberChars) _ isLetter
      · rcases List.mem_append.mp mem with mem | mem
        · exact mem_numberChars_of_mem_sign isSign mem
        · exact mem_numberChars_of_isDigit (digits _ mem)

theorem IsNumber.ne_nil {text : List Char} (number : IsNumber text) : text ≠ [] := by
  obtain ⟨-, whole, -, -⟩ := number
  cases whole with
  | zero => simp
  | positive _ _ _ => simp

/-! ## Values -/

/-- Any number of blanks. -/
inductive IsBlanks (d : Dialect) : List Char → List Char → Prop
  | none {rest : List Char} : IsBlanks d rest rest
  | more {c : Char} {text rest : List Char} : d.blank c → IsBlanks d text rest →
      IsBlanks d (c :: text) rest

mutual
/-- A value. -/
inductive IsValue (d : Dialect) : List Char → List Char → Prop
  | null {rest : List Char} : IsValue d ("null".toList ++ rest) rest
  | true {rest : List Char} : IsValue d ("true".toList ++ rest) rest
  | false {rest : List Char} : IsValue d ("false".toList ++ rest) rest
  | number {text rest : List Char} : IsNumber text → IsValue d (text ++ rest) rest
  | string {text rest : List Char} : IsStringEnd d text rest → IsValue d ('"' :: text) rest
  | emptyArray {text rest : List Char} : IsBlanks d text (']' :: rest) →
      IsValue d ('[' :: text) rest
  | array {text first more rest : List Char} : IsBlanks d text first → IsValue d first more →
      IsMoreItems d more rest → IsValue d ('[' :: text) rest
  | emptyObject {text rest : List Char} : IsBlanks d text ('}' :: rest) →
      IsValue d ('{' :: text) rest
  | object {text first more rest : List Char} : IsBlanks d text first → IsMember d first more →
      IsMoreMembers d more rest → IsValue d ('{' :: text) rest
/-- What follows an item of an array. -/
inductive IsMoreItems (d : Dialect) : List Char → List Char → Prop
  | close {text rest : List Char} : IsBlanks d text (']' :: rest) → IsMoreItems d text rest
  | next {text afterComma item more rest : List Char} : IsBlanks d text (',' :: afterComma) →
      IsBlanks d afterComma item → IsValue d item more → IsMoreItems d more rest →
      IsMoreItems d text rest
/-- A key, a colon and a value. -/
inductive IsMember (d : Dialect) : List Char → List Char → Prop
  | intro {text afterKey afterColon value rest : List Char} : IsStringEnd d text afterKey →
      IsBlanks d afterKey (':' :: afterColon) → IsBlanks d afterColon value →
      IsValue d value rest → IsMember d ('"' :: text) rest
/-- What follows a member of an object. -/
inductive IsMoreMembers (d : Dialect) : List Char → List Char → Prop
  | close {text rest : List Char} : IsBlanks d text ('}' :: rest) → IsMoreMembers d text rest
  | next {text afterComma member more rest : List Char} : IsBlanks d text (',' :: afterComma) →
      IsBlanks d afterComma member → IsMember d member more → IsMoreMembers d more rest →
      IsMoreMembers d text rest
end

/-- What begins with a quote is a string. -/
theorem IsValue.string_iff {d : Dialect} {text rest : List Char} :
    IsValue d ('"' :: text) rest ↔ IsStringEnd d text rest := by
  refine ⟨fun value => ?_, .string⟩
  generalize whole : '"' :: text = chars at value
  cases value with
  | string string =>
    cases whole
    exact string
  | @number digits _ number =>
    cases digits with
    | nil => exact absurd rfl number.ne_nil
    | cons c digits =>
      cases whole
      exact absurd (number.mem_numberChars List.mem_cons_self) (by decide)
  | _ => cases whole

/-- There is no empty value. -/
theorem not_isValue_nil {d : Dialect} {rest : List Char} : ¬ IsValue d [] rest := by
  intro value
  generalize whole : [] = chars at value
  cases value with
  | number number => exact number.ne_nil (List.append_eq_nil_iff.mp whole.symm).1
  | _ => cases whole

/-! ## Wider dialects -/

variable {d wide : Dialect} {text rest : List Char}

theorem IsStringEnd.mono (raw : ∀ c, d.raw c → wide.raw c) (string : IsStringEnd d text rest) :
    IsStringEnd wide text rest := by
  induction string with
  | close => exact .close
  | raw isRaw _ ih => exact .raw (raw _ isRaw) ih
  | short isLetter _ ih => exact .short isLetter ih
  | long hex₁ hex₂ hex₃ hex₄ _ ih => exact .long hex₁ hex₂ hex₃ hex₄ ih

theorem IsBlanks.mono (blank : ∀ c, d.blank c → wide.blank c) (blanks : IsBlanks d text rest) :
    IsBlanks wide text rest := by
  induction blanks with
  | none => exact .none
  | more isBlank _ ih => exact .more (blank _ isBlank) ih

mutual
/-- A value of one dialect is a value of every dialect that allows more. -/
theorem IsValue.mono (raw : ∀ c, d.raw c → wide.raw c) (blank : ∀ c, d.blank c → wide.blank c)
    {text rest : List Char} : IsValue d text rest → IsValue wide text rest
  | .null => .null
  | .true => .true
  | .false => .false
  | .number number => .number number
  | .string string => .string (string.mono raw)
  | .emptyArray blanks => .emptyArray (blanks.mono blank)
  | .array blanks first more =>
    .array (blanks.mono blank) (first.mono raw blank) (more.mono raw blank)
  | .emptyObject blanks => .emptyObject (blanks.mono blank)
  | .object blanks first more =>
    .object (blanks.mono blank) (first.mono raw blank) (more.mono raw blank)
theorem IsMoreItems.mono (raw : ∀ c, d.raw c → wide.raw c) (blank : ∀ c, d.blank c → wide.blank c)
    {text rest : List Char} : IsMoreItems d text rest → IsMoreItems wide text rest
  | .close blanks => .close (blanks.mono blank)
  | .next blanks blanks' item more =>
    .next (blanks.mono blank) (blanks'.mono blank) (item.mono raw blank) (more.mono raw blank)
theorem IsMember.mono (raw : ∀ c, d.raw c → wide.raw c) (blank : ∀ c, d.blank c → wide.blank c)
    {text rest : List Char} : IsMember d text rest → IsMember wide text rest
  | .intro key blanks blanks' value =>
    .intro (key.mono raw) (blanks.mono blank) (blanks'.mono blank) (value.mono raw blank)
theorem IsMoreMembers.mono (raw : ∀ c, d.raw c → wide.raw c)
    (blank : ∀ c, d.blank c → wide.blank c) {text rest : List Char} :
    IsMoreMembers d text rest → IsMoreMembers wide text rest
  | .close blanks => .close (blanks.mono blank)
  | .next blanks blanks' member more =>
    .next (blanks.mono blank) (blanks'.mono blank) (member.mono raw blank) (more.mono raw blank)
end

/-! ## Longer texts -/

theorem IsStringEnd.append (more : List Char) (string : IsStringEnd d text rest) :
    IsStringEnd d (text ++ more) (rest ++ more) := by
  induction string with
  | close => exact .close
  | raw isRaw _ ih => exact .raw isRaw ih
  | short isLetter _ ih => exact .short isLetter ih
  | long hex₁ hex₂ hex₃ hex₄ _ ih => exact .long hex₁ hex₂ hex₃ hex₄ ih

theorem IsBlanks.append (more : List Char) (blanks : IsBlanks d text rest) :
    IsBlanks d (text ++ more) (rest ++ more) := by
  induction blanks with
  | none => exact .none
  | more isBlank _ ih => exact .more isBlank ih

mutual
/-- A value is one whatever stands behind it. -/
theorem IsValue.append (tail : List Char) {text rest : List Char} :
    IsValue d text rest → IsValue d (text ++ tail) (rest ++ tail)
  | .null => .null
  | .true => .true
  | .false => .false
  | .number number => by
    rw [List.append_assoc]
    exact .number number
  | .string string => .string (string.append tail)
  | .emptyArray blanks => .emptyArray (blanks.append tail)
  | .array blanks first more =>
    .array (blanks.append tail) (first.append tail) (more.append tail)
  | .emptyObject blanks => .emptyObject (blanks.append tail)
  | .object blanks first more =>
    .object (blanks.append tail) (first.append tail) (more.append tail)
theorem IsMoreItems.append (tail : List Char) {text rest : List Char} :
    IsMoreItems d text rest → IsMoreItems d (text ++ tail) (rest ++ tail)
  | .close blanks => .close (blanks.append tail)
  | .next blanks blanks' item more =>
    .next (blanks.append tail) (blanks'.append tail) (item.append tail) (more.append tail)
theorem IsMember.append (tail : List Char) {text rest : List Char} :
    IsMember d text rest → IsMember d (text ++ tail) (rest ++ tail)
  | .intro key blanks blanks' value =>
    .intro (key.append tail) (blanks.append tail) (blanks'.append tail) (value.append tail)
theorem IsMoreMembers.append (tail : List Char) {text rest : List Char} :
    IsMoreMembers d text rest → IsMoreMembers d (text ++ tail) (rest ++ tail)
  | .close blanks => .close (blanks.append tail)
  | .next blanks blanks' member more =>
    .next (blanks.append tail) (blanks'.append tail) (member.append tail) (more.append tail)
end

end SchemaGrammar.Json
