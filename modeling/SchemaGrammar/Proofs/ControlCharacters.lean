import SchemaGrammar.Proofs.DerivedTexts

/-!
# Control characters in allowed texts

A text that is a value in the lenient dialect may be a value by the standard as well, or not.
`isSpacedValue_standard_iff` says that it is one exactly if it has no control character.

Without control characters both dialects read a text alike (`IsValue.restrict`). For the converse,
the lenient dialect allows no control characters outside of strings, and the standard allows none
within them. So it remains to see that both mean the same by what stands within a string, whatever
values they take the text for. That is said by a scan which knows nothing of values:
`QuotedPrintable` goes through a text from left to right and looks at the characters between quotes
only. By the standard what has been read of a value passes the scan (`IsValue.quotedPrintable`). In
the lenient dialect it has no control character if it passes the scan (`IsValue.passes`).
-/

namespace SchemaGrammar.Json

open Gbnf (IsSpaces IsSpacedValue)

/-- A character that is no control character. -/
def IsPrintable (c : Char) : Prop := 0x20 ≤ c.toNat

instance (c : Char) : Decidable (IsPrintable c) := by
  unfold IsPrintable
  infer_instance

/-! ## The scan -/

/-- All characters between quotes are printable. The flag says whether the text begins between
quotes; there a quote behind a backslash does not end the string. -/
def QuotedPrintable : Bool → List Char → Prop
  | _, [] => True
  | false, c :: text => QuotedPrintable (c == '"') text
  | true, '"' :: text => QuotedPrintable false text
  | true, '\\' :: c :: text => IsPrintable c ∧ QuotedPrintable true text
  | true, c :: text => IsPrintable c ∧ QuotedPrintable true text

theorem quotedPrintable_escape (c : Char) (text : List Char) :
    QuotedPrintable true ('\\' :: c :: text) ↔ IsPrintable c ∧ QuotedPrintable true text := by
  rw [QuotedPrintable]

theorem quotedPrintable_raw {c : Char} (h : c ≠ '"') (h' : c ≠ '\\') (text : List Char) :
    QuotedPrintable true (c :: text) ↔ IsPrintable c ∧ QuotedPrintable true text := by
  rw [QuotedPrintable]
  · exact h
  · rintro d rest rfl
    exact absurd rfl h'

/-- What has no quote is passed over. -/
theorem quotedPrintable_append {text : List Char} (unquoted : '"' ∉ text) (rest : List Char) :
    QuotedPrintable false (text ++ rest) ↔ QuotedPrintable false rest := by
  induction text with
  | nil => exact Iff.rfl
  | cons c text ih =>
    have different : (c == '"') = false :=
      beq_false_of_ne fun same => unquoted (same ▸ List.mem_cons_self)
    rw [List.cons_append, QuotedPrintable, different]
    exact ih fun mem => unquoted (List.mem_cons_of_mem c mem)

theorem quotedPrintable_quote (text : List Char) :
    QuotedPrintable false ('"' :: text) ↔ QuotedPrintable true text := Iff.rfl

theorem quotedPrintable_cons {c : Char} (h : c ≠ '"') (text : List Char) :
    QuotedPrintable false (c :: text) ↔ QuotedPrintable false text :=
  quotedPrintable_append (fun mem => h (List.mem_singleton.mp mem).symm) text

theorem IsNumber.quote_notMem {text : List Char} (number : IsNumber text) : '"' ∉ text :=
  fun mem => absurd (number.mem_numberChars mem) (by decide)

theorem isPrintable_of_isHexDigit {c : Char} (isHex : IsHexDigit c) : IsPrintable c :=
  (forall_mem_of_all (by decide) : ∀ c ∈ "0123456789abcdefABCDEF".toList, IsPrintable c) c isHex

theorem quotedPrintable_hexDigit {c : Char} (isHex : IsHexDigit c) (text : List Char) :
    QuotedPrintable true (c :: text) ↔ QuotedPrintable true text := by
  have neither : ∀ c ∈ "0123456789abcdefABCDEF".toList, c ≠ '"' ∧ c ≠ '\\' :=
    forall_mem_of_all (by decide)
  rw [quotedPrintable_raw (neither c isHex).1 (neither c isHex).2,
    and_iff_right (isPrintable_of_isHexDigit isHex)]

/-! ## Values by the standard -/

variable {text rest : List Char}

theorem IsStringEnd.quotedPrintable (string : IsStringEnd standard text rest)
    (passes : QuotedPrintable false rest) : QuotedPrintable true text := by
  induction string with
  | close => exact passes
  | raw isPlain _ ih =>
    exact (quotedPrintable_raw isPlain.1 isPlain.2.1 _).mpr ⟨isPlain.2.2, ih passes⟩
  | short isLetter _ ih =>
    have printable : ∀ c ∈ shortEscapes, IsPrintable c := forall_mem_of_all (by decide)
    exact (quotedPrintable_escape _ _).mpr ⟨printable _ isLetter, ih passes⟩
  | long hex₁ hex₂ hex₃ hex₄ _ ih =>
    rw [quotedPrintable_escape, quotedPrintable_hexDigit hex₁, quotedPrintable_hexDigit hex₂,
      quotedPrintable_hexDigit hex₃, quotedPrintable_hexDigit hex₄]
    exact ⟨by decide, ih passes⟩

theorem IsBlanks.quotedPrintable (blanks : IsBlanks standard text rest)
    (passes : QuotedPrintable false rest) : QuotedPrintable false text := by
  induction blanks with
  | none => exact passes
  | more isBlank _ ih =>
    have different : ∀ c ∈ [' ', '\t', '\n', '\r'], c ≠ '"' := forall_mem_of_all (by decide)
    exact (quotedPrintable_cons (different _ isBlank) _).mpr (ih passes)

mutual
/-- What has been read of a value by the standard passes the scan. -/
theorem IsValue.quotedPrintable {text rest : List Char} :
    IsValue standard text rest → QuotedPrintable false rest → QuotedPrintable false text
  | .null, passes => (quotedPrintable_append (by decide) _).mpr passes
  | .true, passes => (quotedPrintable_append (by decide) _).mpr passes
  | .false, passes => (quotedPrintable_append (by decide) _).mpr passes
  | .number number, passes => (quotedPrintable_append number.quote_notMem _).mpr passes
  | .string string, passes => string.quotedPrintable passes
  | .emptyArray blanks, passes => blanks.quotedPrintable passes
  | .array blanks first more, passes =>
    blanks.quotedPrintable (first.quotedPrintable (more.quotedPrintable passes))
  | .emptyObject blanks, passes => blanks.quotedPrintable passes
  | .object blanks first more, passes =>
    blanks.quotedPrintable (first.quotedPrintable (more.quotedPrintable passes))
theorem IsMoreItems.quotedPrintable {text rest : List Char} :
    IsMoreItems standard text rest → QuotedPrintable false rest → QuotedPrintable false text
  | .close blanks, passes => blanks.quotedPrintable passes
  | .next blanks blanks' item more, passes =>
    blanks.quotedPrintable (blanks'.quotedPrintable (item.quotedPrintable
      (more.quotedPrintable passes)))
theorem IsMember.quotedPrintable {text rest : List Char} :
    IsMember standard text rest → QuotedPrintable false rest → QuotedPrintable false text
  | .intro key blanks blanks' value, passes =>
    key.quotedPrintable (blanks.quotedPrintable (blanks'.quotedPrintable
      (value.quotedPrintable passes)))
theorem IsMoreMembers.quotedPrintable {text rest : List Char} :
    IsMoreMembers standard text rest → QuotedPrintable false rest → QuotedPrintable false text
  | .close blanks, passes => blanks.quotedPrintable passes
  | .next blanks blanks' member more, passes =>
    blanks.quotedPrintable (blanks'.quotedPrintable (member.quotedPrintable
      (more.quotedPrintable passes)))
end

/-! ## Values in the lenient dialect -/

/-- If the scan is passed from here, it is passed from there, and there is no control character in
between. -/
def Passes (text rest : List Char) : Prop :=
  QuotedPrintable false text →
    QuotedPrintable false rest ∧ ((∀ c ∈ rest, IsPrintable c) → ∀ c ∈ text, IsPrintable c)

theorem Passes.refl (text : List Char) : Passes text text := by
  intro passes
  exact ⟨passes, id⟩

theorem Passes.trans {first second third : List Char} (here : Passes first second)
    (there : Passes second third) : Passes first third := by
  intro passes
  obtain ⟨passes, printable⟩ := here passes
  obtain ⟨passes, printable'⟩ := there passes
  exact ⟨passes, fun allowed => printable (printable' allowed)⟩

theorem passes_append {token : List Char} (unquoted : '"' ∉ token)
    (printable : ∀ c ∈ token, IsPrintable c) (rest : List Char) : Passes (token ++ rest) rest := by
  intro passes
  refine ⟨(quotedPrintable_append unquoted rest).mp passes, fun allowed => ?_⟩
  exact List.forall_mem_append.mpr ⟨printable, allowed⟩

/-- The characters of the tokens that are no numbers and no strings. -/
def markChars : List Char := "[]\x7b\x7d,: nulltruefalse".toList

/-- A token of such characters. -/
theorem passes_token {token : List Char}
    (checked : (token.all fun c => decide (c ∈ markChars)) = true) (rest : List Char) :
    Passes (token ++ rest) rest := by
  have areMarks : ∀ c ∈ token, c ∈ markChars := forall_mem_of_all checked
  have printable : ∀ c ∈ markChars, IsPrintable c := forall_mem_of_all (by decide)
  refine passes_append (fun mem => ?_) (fun c mem => printable c (areMarks c mem)) rest
  exact absurd (areMarks _ mem) (by decide)

theorem passes_cons {c : Char} (isMark : c ∈ markChars) (here : Passes text rest) :
    Passes (c :: text) rest := by
  refine Passes.trans (@passes_token [c] ?_ text) here
  rw [List.all_cons, List.all_nil, decide_eq_true isMark, Bool.true_and]

theorem IsNumber.isPrintable {text : List Char} (number : IsNumber text) :
    ∀ c ∈ text, IsPrintable c := by
  intro c mem
  have printable : ∀ c ∈ numberChars, IsPrintable c := forall_mem_of_all (by decide)
  exact printable c (number.mem_numberChars mem)

/-- The same for what is read of a string behind its first quote. -/
theorem IsStringEnd.printable (string : IsStringEnd lenient text rest)
    (passes : QuotedPrintable true text) : QuotedPrintable false rest ∧
      ((∀ c ∈ rest, IsPrintable c) → ∀ c ∈ text, IsPrintable c) := by
  induction string with
  | close => exact ⟨passes, fun allowed => List.forall_mem_cons.mpr ⟨by decide, allowed⟩⟩
  | raw isRaw _ ih =>
    obtain ⟨here, passes⟩ := (quotedPrintable_raw isRaw.1 isRaw.2 _).mp passes
    obtain ⟨passes, printable⟩ := ih passes
    exact ⟨passes, fun allowed => List.forall_mem_cons.mpr ⟨here, printable allowed⟩⟩
  | short _ _ ih =>
    obtain ⟨here, passes⟩ := (quotedPrintable_escape _ _).mp passes
    obtain ⟨passes, printable⟩ := ih passes
    refine ⟨passes, fun allowed => ?_⟩
    simp only [List.forall_mem_cons]
    exact ⟨by decide, here, printable allowed⟩
  | long hex₁ hex₂ hex₃ hex₄ _ ih =>
    rw [quotedPrintable_escape, quotedPrintable_hexDigit hex₁, quotedPrintable_hexDigit hex₂,
      quotedPrintable_hexDigit hex₃, quotedPrintable_hexDigit hex₄] at passes
    obtain ⟨passes, printable⟩ := ih passes.2
    refine ⟨passes, fun allowed => ?_⟩
    simp only [List.forall_mem_cons]
    exact ⟨by decide, by decide, isPrintable_of_isHexDigit hex₁, isPrintable_of_isHexDigit hex₂,
      isPrintable_of_isHexDigit hex₃, isPrintable_of_isHexDigit hex₄, printable allowed⟩

theorem IsStringEnd.passes (string : IsStringEnd lenient text rest) :
    Passes ('"' :: text) rest := by
  intro passes
  obtain ⟨passes, printable⟩ := string.printable ((quotedPrintable_quote text).mp passes)
  exact ⟨passes, fun allowed => List.forall_mem_cons.mpr ⟨by decide, printable allowed⟩⟩

theorem IsBlanks.passes (blanks : IsBlanks lenient text rest) : Passes text rest := by
  induction blanks with
  | none => exact .refl _
  | more isBlank _ ih =>
    obtain rfl := isBlank
    exact passes_cons (by decide) ih

mutual
/-- What has been read of a value in the lenient dialect has no control character if it passes the
scan. -/
theorem IsValue.passes {text rest : List Char} :
    IsValue lenient text rest → Passes text rest
  | .null => passes_token (by decide) _
  | .true => passes_token (by decide) _
  | .false => passes_token (by decide) _
  | .number number => passes_append number.quote_notMem number.isPrintable _
  | .string string => string.passes
  | .emptyArray blanks =>
    passes_cons (by decide) (blanks.passes.trans (passes_cons (by decide) (.refl _)))
  | .array blanks first more =>
    passes_cons (by decide) (blanks.passes.trans (first.passes.trans more.passes))
  | .emptyObject blanks =>
    passes_cons (by decide) (blanks.passes.trans (passes_cons (by decide) (.refl _)))
  | .object blanks first more =>
    passes_cons (by decide) (blanks.passes.trans (first.passes.trans more.passes))
theorem IsMoreItems.passes {text rest : List Char} :
    IsMoreItems lenient text rest → Passes text rest
  | .close blanks => blanks.passes.trans (passes_cons (by decide) (.refl _))
  | .next blanks blanks' item more =>
    blanks.passes.trans (passes_cons (by decide)
      (blanks'.passes.trans (item.passes.trans more.passes)))
theorem IsMember.passes {text rest : List Char} :
    IsMember lenient text rest → Passes text rest
  | .intro key blanks blanks' value =>
    key.passes.trans (blanks.passes.trans (passes_cons (by decide)
      (blanks'.passes.trans value.passes)))
theorem IsMoreMembers.passes {text rest : List Char} :
    IsMoreMembers lenient text rest → Passes text rest
  | .close blanks => blanks.passes.trans (passes_cons (by decide) (.refl _))
  | .next blanks blanks' member more =>
    blanks.passes.trans (passes_cons (by decide)
      (blanks'.passes.trans (member.passes.trans more.passes)))
end

/-! ## Texts without control characters -/

theorem IsStringEnd.restrict (string : IsStringEnd lenient text rest)
    (printable : ∀ c ∈ text, IsPrintable c) :
    IsStringEnd standard text rest ∧ ∀ c ∈ rest, IsPrintable c := by
  induction string with
  | close => exact ⟨.close, (List.forall_mem_cons.mp printable).2⟩
  | raw isRaw _ ih =>
    obtain ⟨here, printable⟩ := List.forall_mem_cons.mp printable
    obtain ⟨string, printable⟩ := ih printable
    exact ⟨.raw ⟨isRaw.1, isRaw.2, here⟩ string, printable⟩
  | short isLetter _ ih =>
    simp only [List.forall_mem_cons] at printable
    obtain ⟨string, printable⟩ := ih printable.2.2
    exact ⟨.short isLetter string, printable⟩
  | long hex₁ hex₂ hex₃ hex₄ _ ih =>
    simp only [List.forall_mem_cons] at printable
    obtain ⟨string, printable⟩ := ih printable.2.2.2.2.2.2
    exact ⟨.long hex₁ hex₂ hex₃ hex₄ string, printable⟩

theorem IsBlanks.restrict (blanks : IsBlanks lenient text rest)
    (printable : ∀ c ∈ text, IsPrintable c) :
    IsBlanks standard text rest ∧ ∀ c ∈ rest, IsPrintable c := by
  induction blanks with
  | none => exact ⟨.none, printable⟩
  | more isBlank _ ih =>
    obtain rfl := isBlank
    obtain ⟨blanks, printable⟩ := ih (List.forall_mem_cons.mp printable).2
    exact ⟨.more List.mem_cons_self blanks, printable⟩

mutual
/-- Without control characters a value in the lenient dialect is one by the standard. -/
theorem IsValue.restrict {text rest : List Char} : IsValue lenient text rest →
    (∀ c ∈ text, IsPrintable c) → IsValue standard text rest ∧ ∀ c ∈ rest, IsPrintable c
  | .null, printable => ⟨.null, (List.forall_mem_append.mp printable).2⟩
  | .true, printable => ⟨.true, (List.forall_mem_append.mp printable).2⟩
  | .false, printable => ⟨.false, (List.forall_mem_append.mp printable).2⟩
  | .number number, printable => ⟨.number number, (List.forall_mem_append.mp printable).2⟩
  | .string string, printable => by
    obtain ⟨string, printable⟩ := string.restrict (List.forall_mem_cons.mp printable).2
    exact ⟨.string string, printable⟩
  | .emptyArray blanks, printable => by
    obtain ⟨blanks, printable⟩ := blanks.restrict (List.forall_mem_cons.mp printable).2
    exact ⟨.emptyArray blanks, (List.forall_mem_cons.mp printable).2⟩
  | .array blanks first more, printable => by
    obtain ⟨blanks, printable⟩ := blanks.restrict (List.forall_mem_cons.mp printable).2
    obtain ⟨first, printable⟩ := first.restrict printable
    obtain ⟨more, printable⟩ := more.restrict printable
    exact ⟨.array blanks first more, printable⟩
  | .emptyObject blanks, printable => by
    obtain ⟨blanks, printable⟩ := blanks.restrict (List.forall_mem_cons.mp printable).2
    exact ⟨.emptyObject blanks, (List.forall_mem_cons.mp printable).2⟩
  | .object blanks first more, printable => by
    obtain ⟨blanks, printable⟩ := blanks.restrict (List.forall_mem_cons.mp printable).2
    obtain ⟨first, printable⟩ := first.restrict printable
    obtain ⟨more, printable⟩ := more.restrict printable
    exact ⟨.object blanks first more, printable⟩
theorem IsMoreItems.restrict {text rest : List Char} : IsMoreItems lenient text rest →
    (∀ c ∈ text, IsPrintable c) → IsMoreItems standard text rest ∧ ∀ c ∈ rest, IsPrintable c
  | .close blanks, printable => by
    obtain ⟨blanks, printable⟩ := blanks.restrict printable
    exact ⟨.close blanks, (List.forall_mem_cons.mp printable).2⟩
  | .next blanks blanks' item more, printable => by
    obtain ⟨blanks, printable⟩ := blanks.restrict printable
    obtain ⟨blanks', printable⟩ := blanks'.restrict (List.forall_mem_cons.mp printable).2
    obtain ⟨item, printable⟩ := item.restrict printable
    obtain ⟨more, printable⟩ := more.restrict printable
    exact ⟨.next blanks blanks' item more, printable⟩
theorem IsMember.restrict {text rest : List Char} : IsMember lenient text rest →
    (∀ c ∈ text, IsPrintable c) → IsMember standard text rest ∧ ∀ c ∈ rest, IsPrintable c
  | .intro key blanks blanks' value, printable => by
    obtain ⟨key, printable⟩ := key.restrict (List.forall_mem_cons.mp printable).2
    obtain ⟨blanks, printable⟩ := blanks.restrict printable
    obtain ⟨blanks', printable⟩ := blanks'.restrict (List.forall_mem_cons.mp printable).2
    obtain ⟨value, printable⟩ := value.restrict printable
    exact ⟨.intro key blanks blanks' value, printable⟩
theorem IsMoreMembers.restrict {text rest : List Char} : IsMoreMembers lenient text rest →
    (∀ c ∈ text, IsPrintable c) → IsMoreMembers standard text rest ∧ ∀ c ∈ rest, IsPrintable c
  | .close blanks, printable => by
    obtain ⟨blanks, printable⟩ := blanks.restrict printable
    exact ⟨.close blanks, (List.forall_mem_cons.mp printable).2⟩
  | .next blanks blanks' member more, printable => by
    obtain ⟨blanks, printable⟩ := blanks.restrict printable
    obtain ⟨blanks', printable⟩ := blanks'.restrict (List.forall_mem_cons.mp printable).2
    obtain ⟨member, printable⟩ := member.restrict printable
    obtain ⟨more, printable⟩ := more.restrict printable
    exact ⟨.next blanks blanks' member more, printable⟩
end

/-! ## Both at once -/

theorem isPrintable_of_isSpaces {spaces : List Char} (isSpaces : IsSpaces spaces) :
    ∀ c ∈ spaces, IsPrintable c := by
  intro c mem
  rw [isSpaces c mem]
  decide

theorem quotedPrintable_of_isSpacedValue (spaced : IsSpacedValue standard text) :
    QuotedPrintable false text := by
  obtain ⟨value, spaces, rfl, isValue, isSpaces⟩ := spaced
  refine (isValue.append spaces).quotedPrintable ?_
  have unquoted : '"' ∉ spaces := fun mem => absurd (isSpaces _ mem) (by decide)
  rw [List.nil_append, ← List.append_nil spaces]
  exact (quotedPrintable_append unquoted []).mpr trivial

/-- A value in the lenient dialect, with spaces behind it, is one by the standard exactly if it has
no control character. -/
theorem isSpacedValue_standard_iff (spaced : IsSpacedValue lenient text) :
    IsSpacedValue standard text ↔ ∀ c ∈ text, IsPrintable c := by
  constructor
  · intro isStandard
    have passes := quotedPrintable_of_isSpacedValue isStandard
    obtain ⟨value, spaces, rfl, isValue, isSpaces⟩ := spaced
    exact ((isValue.append spaces).passes passes).2 (isPrintable_of_isSpaces isSpaces)
  · intro printable
    obtain ⟨value, spaces, rfl, isValue, isSpaces⟩ := spaced
    have isValue := (isValue.restrict (List.forall_mem_append.mp printable).1).1
    exact ⟨value, spaces, rfl, isValue, isSpaces⟩

end SchemaGrammar.Json
