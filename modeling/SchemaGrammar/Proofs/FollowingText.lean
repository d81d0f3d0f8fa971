import SchemaGrammar.Proofs.ReadBack
import SchemaGrammar.Proofs.SkippedGrammar

/-!
# What follows a value does not matter

A reader takes as much of a text as it needs and cannot tell what stands behind that. For a string
this is so whatever stands there. A number has to be told from a longer one, so for numbers the text
behind it may be any that does not go on with a character of numbers (`EndsNumber`): with such texts
a reader of a number is steady (`IsSteady`).

A value can therefore be cut off from what follows it, and put before something else
(`Outlines.cuts`); an array or an object before anything (`Outlines.cuts_nested`). It has another
outline then, since outlines hold what is left of their text, but one that reads alike
(`Outline.Alike`).
-/

namespace SchemaGrammar.Json

variable {text rest : List Char}

/-! ## Strings -/

/-- Reading takes some part of a text, and the same thing of any text that begins with this part. -/
def Takes {α : Type} (read : List Char → Except Failure (α × List Char)) (text : List Char) (a : α)
    (rest : List Char) : Prop :=
  ∃ front, text = front ++ rest ∧ ∀ other, read (front ++ other) = .ok (a, other)

theorem takes_readHex {n : Nat} (read : readHex text = .ok (n, rest)) :
    Takes readHex text n rest := by
  unfold readHex at read
  split at read
  · next a b c d more =>
    split at read
    · next value₁ value₂ value₃ value₄ =>
      obtain ⟨rfl, rfl⟩ := Prod.mk.inj (Except.ok.inj read)
      exact ⟨[a, b, c, d], rfl, fun other => by
        simp only [List.cons_append, List.nil_append, readHex, value₁, value₂, value₃, value₄]⟩
    · cases read
  · cases read

theorem takes_readTrailing {leading : Nat} {c : Char}
    (read : readTrailing leading text = .ok (c, rest)) :
    Takes (readTrailing leading) text c rest := by
  unfold readTrailing at read
  split at read
  · obtain ⟨⟨unit, more⟩, hex, paired⟩ := bind_eq_ok_iff.mp read
    obtain ⟨front, rfl, takes⟩ := takes_readHex hex
    dsimp only at paired
    split at paired
    · next trailing =>
      obtain ⟨rfl, rfl⟩ := Prod.mk.inj (Except.ok.inj paired)
      refine ⟨'\\' :: 'u' :: front, rfl, fun other => ?_⟩
      rw [List.cons_append, List.cons_append, readTrailing, takes]
      exact if_pos trailing
    · cases paired
  · cases read
  · cases read

theorem takes_readEscape {c : Char} (read : readEscape text = .ok (c, rest)) :
    Takes readEscape text c rest := by
  unfold readEscape at read
  split at read
  case h_9 =>
    obtain ⟨⟨unit, more⟩, hex, decoded⟩ := bind_eq_ok_iff.mp read
    obtain ⟨front, rfl, takes⟩ := takes_readHex hex
    dsimp only at decoded
    split at decoded
    · cases decoded
    · next notTrailing =>
      split at decoded
      · next leading =>
        obtain ⟨behind, rfl, takesBehind⟩ := takes_readTrailing decoded
        refine ⟨'u' :: (front ++ behind), by simp, fun other => ?_⟩
        rw [List.cons_append, List.append_assoc, readEscape, takes]
        refine (if_neg notTrailing).trans ((if_pos leading).trans (takesBehind other))
      · next notLeading =>
        obtain ⟨rfl, rfl⟩ := Prod.mk.inj (Except.ok.inj decoded)
        refine ⟨'u' :: front, rfl, fun other => ?_⟩
        rw [List.cons_append, readEscape, takes]
        exact (if_neg notTrailing).trans (if_neg notLeading)
  case h_10 => cases read
  all_goals
    obtain ⟨rfl, rfl⟩ := Prod.mk.inj (Except.ok.inj read)
    exact ⟨[_], rfl, fun _ => rfl⟩

theorem takes_readQuoted {done chars : List Char} (read : readQuoted done text = .ok (chars, rest)) :
    Takes (readQuoted done) text chars rest := by
  fun_induction readQuoted done text with
  | case1 => cases read
  | case2 done text =>
    obtain ⟨rfl, rfl⟩ := Prod.mk.inj (Except.ok.inj read)
    exact ⟨['"'], rfl, fun other => by rw [List.singleton_append, readQuoted]⟩
  | case3 => cases read
  | case4 done text c behind escape ih =>
    obtain ⟨escaped, rfl, takesEscape⟩ := takes_readEscape escape
    obtain ⟨front, rfl, takes⟩ := ih read
    refine ⟨'\\' :: (escaped ++ front), by simp, fun other => ?_⟩
    rw [List.cons_append, List.append_assoc, readQuoted_escape (takesEscape _), takes]
  | case5 => cases read
  | case6 done c text notQuote notEscape printable ih =>
    obtain ⟨front, rfl, takes⟩ := ih read
    refine ⟨c :: front, rfl, fun other => ?_⟩
    rw [List.cons_append, readQuoted_plain ⟨notQuote, notEscape, Nat.not_lt.mp printable⟩, takes]

theorem takes_readString {s : String} (read : readString text = .ok (s, rest)) :
    Takes readString text s rest := by
  obtain ⟨⟨chars, behind⟩, quoted, same⟩ := map_eq_ok_iff.mp read
  obtain ⟨rfl, rfl⟩ := Prod.mk.inj same
  obtain ⟨front, rfl, takes⟩ := takes_readQuoted quoted
  exact ⟨front, rfl, fun other => by rw [readString, takes]; rfl⟩

/-! ## Numbers -/

/-- What is read before a text that ends a number, if anything is, is the same whatever the text is,
and the text is left. -/
def IsSteady {α : Type} (read : List Char → Except Failure (α × List Char)) : Prop :=
  ∃ found : Option α, ∀ rest, EndsNumber rest →
    ∀ a behind, read rest = .ok (a, behind) ↔ found = some a ∧ rest = behind

namespace IsSteady

variable {α : Type} {read other : List Char → Except Failure (α × List Char)}

theorem ok {a : α} : IsSteady fun rest => .ok (a, rest) :=
  ⟨some a, fun rest _ b behind => by simp⟩

theorem error {failure : List Char → Failure} :
    IsSteady fun rest => (.error (failure rest) : Except Failure (α × List Char)) :=
  ⟨none, fun rest _ b behind => by simp⟩

theorem congr (steady : IsSteady other) (same : ∀ rest, EndsNumber rest → read rest = other rest) :
    IsSteady read := by
  obtain ⟨found, finds⟩ := steady
  exact ⟨found, fun rest ends a behind => by rw [same rest ends, finds rest ends]⟩

end IsSteady

section Numbers

variable (negative : Bool) (significand : Nat) (exponent : Int) {digits : List Char}

theorem isSteady_realOf : IsSteady (realOf negative significand exponent) := by
  unfold realOf
  cases scale (.ofNat significand) exponent with
  | none => exact .error
  | some => exact .ok

theorem isSteady_readExponent {sign : List Char} (isSign : sign ∈ [[], ['+'], ['-']])
    (notEmpty : digits ≠ []) (areDigits : ∀ d ∈ digits, d.isDigit = true) :
    IsSteady fun rest => readExponent negative significand exponent (sign ++ digits ++ rest) := by
  -- the sign is seen without a look behind the digits
  have head (rest : List Char) : (sign ++ digits ++ rest).head? = (sign ++ digits).head? :=
    List.head?_append_of_ne_nil _ (by simp [notEmpty])
  generalize (sign ++ digits).head? = seen at head
  rcases taken : accumulate (twoTo 31) 0 digits with ⟨written, _ | ⟨d, extra⟩⟩
  · have steady := isSteady_realOf negative significand
      (if (seen == some '-') = true then exponent - written else exponent + written)
    refine steady.congr fun rest ends => ?_
    simp only [readExponent, head, skipSign_append isSign notEmpty areDigits,
      spanDigits_append areDigits ends.endsDigits, taken]
    exact if_neg (mt List.isEmpty_iff.mp notEmpty)
  · -- an exponent out of range makes a zero, or no number
    have steady : IsSteady fun rest =>
        if (significand = 0 || seen == some '-') = true then
          (.ok (.real (.zeroOf negative), rest) : Except Failure (Number × List Char))
        else .error (.behind .numberOutOfRange (extra ++ rest)) := by
      split
      · exact .ok
      · exact .error
    refine steady.congr fun rest ends => ?_
    simp only [readExponent, head, skipSign_append isSign notEmpty areDigits,
      spanDigits_append areDigits ends.endsDigits, taken]
    exact if_neg (mt List.isEmpty_iff.mp notEmpty)

variable {negative significand exponent} in
theorem finishReal_eq_realOf (lower : ∀ more, text ≠ 'e' :: more)
    (upper : ∀ more, text ≠ 'E' :: more) :
    finishReal negative significand exponent text = realOf negative significand exponent text := by
  unfold finishReal
  split
  · exact absurd rfl (lower _)
  · exact absurd rfl (upper _)
  · rfl

theorem EndsNumber.ne_cons {c : Char} (ends : EndsNumber rest) (isNumber : c ∈ numberChars)
    (more : List Char) : rest ≠ c :: more := by
  rintro rfl
  exact ends c rfl isNumber

theorem isSteady_finishReal {tail : List Char} (isExponent : IsExponent tail) :
    IsSteady fun rest => finishReal negative significand exponent (tail ++ rest) := by
  cases isExponent with
  | none =>
    exact (isSteady_realOf negative significand exponent).congr fun rest ends =>
      finishReal_eq_realOf (ends.ne_cons (by decide)) (ends.ne_cons (by decide))
  | some isLetter isSign notEmpty areDigits =>
    have steady := isSteady_readExponent negative significand exponent isSign notEmpty areDigits
    simp only [List.mem_cons, List.not_mem_nil, or_false] at isLetter
    rcases isLetter with rfl | rfl <;> exact steady

theorem isSteady_readFraction {tail : List Char} (notEmpty : digits ≠ [])
    (areDigits : ∀ d ∈ digits, d.isDigit = true) (isExponent : IsExponent tail) :
    IsSteady fun rest =>
      readFraction negative significand exponent (digits ++ (tail ++ rest)) := by
  rcases added : accumulate (twoTo 64) significand digits with ⟨longer, extra⟩
  have steady := isSteady_finishReal negative longer
    (exponent - (digits.length - extra.length : Nat)) isExponent
  refine steady.congr fun rest ends => ?_
  simp only [readFraction, spanDigits_append areDigits (isExponent.endsDigits ends), added]
  exact if_neg (mt List.isEmpty_iff.mp notEmpty)

theorem isSteady_wholeNumber : IsSteady (wholeNumber negative significand) := by
  cases whole : Number.ofInt? (if negative then -(significand : Int) else significand) with
  | none =>
    refine (isSteady_realOf negative significand 0).congr fun rest _ => ?_
    simp only [wholeNumber, whole]
  | some n =>
    by_cases minusZero : (negative && significand = 0) = true
    · refine (isSteady_realOf negative 0 0).congr fun rest _ => ?_
      simp only [wholeNumber, whole, if_pos minusZero]
    · have steady : IsSteady fun rest => (.ok (n, rest) : Except Failure (Number × List Char)) := .ok
      refine steady.congr fun rest _ => ?_
      simp only [wholeNumber, whole, if_neg minusZero]

/-- Finishes a number whose whole digits have been taken, by what follows them. -/
def finishWhole (negative : Bool) (taken : Nat × List Char) (behind : List Char) :
    Except Failure (Number × List Char) :=
  match taken, behind with
  | (significand, extra), '.' :: more => readFraction negative significand extra.length more
  | (significand, []), 'e' :: _ => finishReal negative significand 0 behind
  | (significand, []), 'E' :: _ => finishReal negative significand 0 behind
  | (significand, []), _ => wholeNumber negative significand behind
  | (significand, extra), _ => finishReal negative significand extra.length behind

theorem readMagnitude_append {whole behind : List Char} (isWhole : IsWhole whole)
    (ends : EndsDigits behind) :
    readMagnitude negative (whole ++ behind) =
      finishWhole negative (accumulate (twoTo 64) 0 whole) behind := by
  rw [readMagnitude, spanDigits_append isWhole.isDigit ends]
  split
  · next same =>
    obtain ⟨rfl, -⟩ := Prod.mk.inj same
    cases isWhole
  · next same =>
    obtain ⟨rfl, -⟩ := Prod.mk.inj same
    cases isWhole with
    | positive _ notZero => exact absurd rfl notZero
  · next same =>
    obtain ⟨rfl, rfl⟩ := Prod.mk.inj same
    rfl

theorem isSteady_readMagnitude {whole fraction tail : List Char} (isWhole : IsWhole whole)
    (isFraction : IsFraction fraction) (isExponent : IsExponent tail) :
    IsSteady fun rest => readMagnitude negative (whole ++ (fraction ++ (tail ++ rest))) := by
  have steady : IsSteady fun rest =>
      finishWhole negative (accumulate (twoTo 64) 0 whole) (fraction ++ (tail ++ rest)) := by
    rcases accumulate (twoTo 64) 0 whole with ⟨significand, extra⟩
    have real (exponent : Int) := isSteady_finishReal negative significand exponent isExponent
    cases isFraction with
    | some notEmpty areDigits =>
      have fraction := isSteady_readFraction negative significand extra.length notEmpty areDigits
        isExponent
      rcases extra with _ | ⟨d, extra⟩ <;> exact fraction
    | none =>
      cases isExponent with
      | none =>
        -- a text that ends a number begins with neither a point nor the letter of an exponent
        rcases extra with _ | ⟨d, extra⟩
        · refine (isSteady_wholeNumber negative significand).congr fun rest ends => ?_
          exact finishWhole.eq_4 _ _ _ (ends.ne_cons (by decide)) (ends.ne_cons (by decide))
            (ends.ne_cons (by decide))
        · refine (real (d :: extra).length).congr fun rest ends => ?_
          have notAll : d :: extra ≠ [] := List.cons_ne_nil d extra
          exact finishWhole.eq_5 _ _ _ _ notAll (ends.ne_cons (by decide)) (fun _ _ => notAll)
            fun _ _ => notAll
      | some isLetter =>
        simp only [List.mem_cons, List.not_mem_nil, or_false] at isLetter
        rcases isLetter with rfl | rfl <;> rcases extra with _ | ⟨d, extra⟩ <;> exact real _
  exact steady.congr fun rest ends =>
    readMagnitude_append negative isWhole (isFraction.endsDigits isExponent ends)

/-- A number that begins with a digit has no sign. -/
theorem readNumber_of_isDigit {c : Char} (isDigit : c.isDigit = true) (more : List Char) :
    readNumber (c :: more) = readMagnitude false (c :: more) := by
  unfold readNumber
  split
  · next same =>
    obtain ⟨rfl, -⟩ := List.cons.inj same
    cases isDigit
  · rfl

/-- A number reads the same before all texts that end it. -/
theorem isSteady_readNumber {number : List Char} (isNumber : IsNumber number) :
    IsSteady fun rest => readNumber (number ++ rest) := by
  obtain @⟨sign, whole, fraction, exponent, isSign, isWhole, isFraction, isExponent⟩ := isNumber
  simp only [List.append_assoc]
  simp only [List.mem_cons, List.not_mem_nil, or_false] at isSign
  rcases isSign with rfl | rfl
  · refine (isSteady_readMagnitude false isWhole isFraction isExponent).congr fun rest ends => ?_
    cases isWhole with
    | zero => exact readNumber_of_isDigit rfl _
    | positive isDigit => exact readNumber_of_isDigit isDigit _
  · exact isSteady_readMagnitude true isWhole isFraction isExponent

end Numbers

/-! ## Scalars -/

/-- A scalar reads the same before all texts that end a number. -/
theorem exists_front_of_readScalar {v : Value} (read : readScalar text = .ok (v, rest))
    (ends : EndsNumber rest) :
    ∃ front, text = front ++ rest ∧
      ∀ other, EndsNumber other → readScalar (front ++ other) = .ok (v, other) := by
  unfold readScalar at read
  split at read
  · cases read
  · next c more =>
    split_ifs at read with isNull isTrue isFalse isQuote isNumber
    · obtain ⟨behind, word, same⟩ := map_eq_ok_iff.mp read
      obtain ⟨rfl, rfl⟩ := Prod.mk.inj same
      obtain rfl := append_of_readWord word
      rw [beq_iff_eq.mp isNull]
      exact ⟨"null".toList, rfl, fun other _ => rfl⟩
    · obtain ⟨behind, word, same⟩ := map_eq_ok_iff.mp read
      obtain ⟨rfl, rfl⟩ := Prod.mk.inj same
      obtain rfl := append_of_readWord word
      rw [beq_iff_eq.mp isTrue]
      exact ⟨"true".toList, rfl, fun other _ => rfl⟩
    · obtain ⟨behind, word, same⟩ := map_eq_ok_iff.mp read
      obtain ⟨rfl, rfl⟩ := Prod.mk.inj same
      obtain rfl := append_of_readWord word
      rw [beq_iff_eq.mp isFalse]
      exact ⟨"false".toList, rfl, fun other _ => rfl⟩
    · obtain ⟨⟨s, behind⟩, string, same⟩ := map_eq_ok_iff.mp read
      obtain ⟨rfl, rfl⟩ := Prod.mk.inj same
      obtain ⟨front, rfl, takes⟩ := takes_readString string
      refine ⟨c :: front, rfl, fun other _ => ?_⟩
      rw [List.cons_append, readScalar, if_neg isNull, if_neg isTrue, if_neg isFalse, if_pos isQuote,
        takes]
      rfl
    · obtain ⟨⟨n, behind⟩, number, same⟩ := map_eq_ok_iff.mp read
      obtain ⟨rfl, rfl⟩ := Prod.mk.inj same
      obtain ⟨front, grammatical, whole⟩ :=
        exists_isNumber_of_skipNumber (skipNumber_of_read number)
      obtain ⟨found, finds⟩ := isSteady_readNumber grammatical
      rw [whole] at number
      have known := ((finds behind ends n behind).mp number).1
      refine ⟨front, whole, fun other ends => ?_⟩
      have again : readNumber (front ++ other) = .ok (n, other) :=
        (finds other ends n other).mpr ⟨known, rfl⟩
      obtain ⟨d, front, rfl, -⟩ := grammatical.exists_eq_cons
      obtain ⟨rfl, -⟩ := List.cons.inj whole
      rw [List.cons_append] at again ⊢
      rw [readScalar, if_neg isNull, if_neg isTrue, if_neg isFalse, if_neg isQuote, if_pos isNumber,
        again]
      rfl

/-- A scalar is skipped to its end before all texts that end a number. -/
theorem exists_front_of_skipScalar (skipped : skipScalar text = .ok rest) :
    ∃ front, text = front ++ rest ∧
      ∀ other, EndsNumber other → skipScalar (front ++ other) = .ok other := by
  unfold skipScalar at skipped
  split at skipped
  · cases skipped
  · next c more =>
    split_ifs at skipped with isNull isTrue isFalse isQuote isNumber
    · rw [beq_iff_eq.mp isNull, append_of_readWord skipped]
      exact ⟨"null".toList, rfl, fun other _ => rfl⟩
    · rw [beq_iff_eq.mp isTrue, append_of_readWord skipped]
      exact ⟨"true".toList, rfl, fun other _ => rfl⟩
    · rw [beq_iff_eq.mp isFalse, append_of_readWord skipped]
      exact ⟨"false".toList, rfl, fun other _ => rfl⟩
    · obtain ⟨front, rfl, string⟩ := (skipQuoted_eq_ok_iff.mp skipped).exists_front
      refine ⟨c :: front, rfl, fun other _ => ?_⟩
      rw [List.cons_append, skipScalar, if_neg isNull, if_neg isTrue, if_neg isFalse, if_pos isQuote,
        skipQuoted_eq_ok_iff.mpr (string other)]
    · obtain ⟨front, grammatical, whole⟩ := exists_isNumber_of_skipNumber skipped
      exact ⟨front, whole, fun other ends => skipScalar_number grammatical ends⟩

/-! ## Outlines -/

mutual
/-- What is read of an outline is read of another one too, and the other one can be passed over. What
is left of their texts may differ. -/
inductive Outline.Alike : Outline → Outline → Prop
  | scalar {text text' rest : List Char} :
      (∀ v behind, readScalar text = .ok (v, behind) →
        ∃ behind', readScalar text' = .ok (v, behind')) →
      skipScalar text' = .ok rest → Outline.Alike (.scalar text) (.scalar text')
  | array {text text' : List Char} {items items' : Items} : Items.Alike items items' →
      Outline.Alike (.array text items) (.array text' items')
  | object {text text' : List Char} {members members' : Members} : Members.Alike members members' →
      Outline.Alike (.object text members) (.object text' members')
/-- The same of items. -/
inductive Items.Alike : Items → Items → Prop
  | closed {rest rest' : List Char} : Items.Alike (.closed rest) (.closed rest')
  | item {value value' : Outline} {next next' : Items} : Outline.Alike value value' →
      Items.Alike next next' → Items.Alike (.item value next) (.item value' next')
/-- The same of members. -/
inductive Members.Alike : Members → Members → Prop
  | closed {rest rest' : List Char} : Members.Alike (.closed rest) (.closed rest')
  | member {key key' afterKey afterKey' : List Char} {value value' : Outline}
      {next next' : Members} :
      (∀ name behind, readKey key = .ok (name, behind) →
        ∃ behind', readKey key' = .ok (name, behind')) →
      Outline.Alike value value' → Members.Alike next next' →
      Members.Alike (.member key afterKey value next) (.member key' afterKey' value' next')
end

mutual
theorem Outline.Alike.skip : ∀ {outline other : Outline}, outline.Alike other → other.skip = .ok ()
  | _, _, .scalar _ skipped => by rw [Outline.skip, skipped, Except.map]
  | _, _, .array items => items.skip
  | _, _, .object members => members.skip
theorem Items.Alike.skip : ∀ {items other : Items}, items.Alike other → other.skip = .ok ()
  | _, _, .closed => rfl
  | _, _, .item here more => by
    rw [Items.skip, here.skip]
    exact more.skip
theorem Members.Alike.skip : ∀ {members other : Members}, members.Alike other → other.skip = .ok ()
  | _, _, .closed => rfl
  | _, _, .member _ here more => by
    rw [Members.skip, here.skip]
    exact more.skip
end

mutual
/-- What is built of an outline is built of one that reads alike. -/
theorem Outline.Alike.read : ∀ {outline other : Outline}, outline.Alike other →
    ∀ {depth : Nat} {v : Value}, outline.read depth = .ok v → other.read depth = .ok v
  | _, _, .scalar reads _, depth, v, built => by
    cases Outline.readsAs_of_read built with
    | scalar read =>
      obtain ⟨behind, read⟩ := reads _ _ read
      rw [Outline.read, read]
      rfl
  | _, _, .array items, depth, v, built => by
    cases depth with
    | zero => cases built
    | succ depth =>
      obtain ⟨vs, inner, rfl⟩ := map_eq_ok_iff.mp built
      rw [Outline.read, items.read inner]
      rfl
  | _, _, .object members, depth, v, built => by
    cases depth with
    | zero => cases built
    | succ depth =>
      obtain ⟨vs, inner, rfl⟩ := map_eq_ok_iff.mp built
      rw [Outline.read, members.read inner]
      rfl
theorem Items.Alike.read : ∀ {items other : Items}, items.Alike other →
    ∀ {depth i : Nat} {vs : List Value}, items.read depth i = .ok vs → other.read depth i = .ok vs
  | _, _, .closed, _, _, _, built => built
  | _, _, .item here more, depth, i, vs, built => by
    rw [Items.read] at built ⊢
    split at built
    · cases built
    · next v first =>
      obtain ⟨vs, following, rfl⟩ := map_eq_ok_iff.mp built
      rw [below_eq_ok_iff.mpr (here.read (below_eq_ok_iff.mp first))]
      exact map_eq_ok_iff.mpr ⟨vs, more.read following, rfl⟩
theorem Members.Alike.read : ∀ {members other : Members}, members.Alike other →
    ∀ {depth : Nat} {vs : List Member}, members.read depth = .ok vs → other.read depth = .ok vs
  | _, _, .closed, _, _, built => built
  | _, _, .member keys here more, depth, vs, built => by
    rw [Members.read] at built ⊢
    split at built
    · cases built
    · next name behind key =>
      split at built
      · cases built
      · next v first =>
        obtain ⟨vs, following, rfl⟩ := map_eq_ok_iff.mp built
        obtain ⟨behind, key⟩ := keys _ _ key
        rw [key]
        dsimp only
        rw [below_eq_ok_iff.mpr (here.read (below_eq_ok_iff.mp first))]
        exact map_eq_ok_iff.mpr ⟨vs, more.read following, rfl⟩
end

/-! ## Cutting behind a value -/

theorem exists_front_of_skipBlanks {c : Char} (begins : skipBlanks text = c :: rest)
    (notBlank : isBlank c = false) :
    ∃ front, text = front ++ rest ∧ ∀ other, skipBlanks (front ++ other) = c :: other := by
  refine ⟨text.takeWhile isBlank ++ [c], ?_, fun other => ?_⟩
  · rw [List.append_assoc, List.singleton_append, ← begins]
    exact List.takeWhile_append_dropWhile.symm
  · rw [List.append_assoc, skipBlanks_append (List.all_eq_true.mp List.all_takeWhile)]
    exact skipBlanks_cons notBlank other

/-- The part of a text up to `rest` has an outline that reads alike before all texts that may
follow. -/
def CutsValue (mayFollow : List Char → Prop) (text : List Char) (outline : Outline)
    (rest : List Char) : Prop :=
  ∃ front, text = front ++ rest ∧ ∀ other, mayFollow other →
    ∃ outline', Outlines (front ++ other) outline' other ∧ outline.Alike outline'

/-- The same of items, before all texts. -/
def CutsItems (first : Bool) (text : List Char) (items : Items) (rest : List Char) : Prop :=
  ∃ front, text = front ++ rest ∧ ∀ other,
    ∃ items', OutlinesItems first (front ++ other) items' other ∧ items.Alike items'

/-- The same of a member whose key has been opened. -/
def CutsMember (key : List Char) (members : Members) (rest : List Char) : Prop :=
  ∃ front, key = front ++ rest ∧ ∀ other,
    ∃ members', OutlinesMember (front ++ other) members' other ∧ members.Alike members'

/-- The same of members. -/
def CutsMembers (first : Bool) (text : List Char) (members : Members) (rest : List Char) : Prop :=
  ∃ front, text = front ++ rest ∧ ∀ other,
    ∃ members', OutlinesMembers first (front ++ other) members' other ∧ members.Alike members'

theorem CutsValue.mono {mayFollow mayFollow' : List Char → Prop} {outline : Outline}
    (fewer : ∀ other, mayFollow' other → mayFollow other)
    (cuts : CutsValue mayFollow text outline rest) : CutsValue mayFollow' text outline rest := by
  obtain ⟨front, same, outlined⟩ := cuts
  exact ⟨front, same, fun other follows => outlined other (fewer other follows)⟩

/-- A value may have blanks before it. -/
theorem CutsValue.behind_blanks {mayFollow : List Char → Prop} {outline : Outline}
    (cuts : CutsValue mayFollow (skipBlanks text) outline rest) :
    ∃ front, text = front ++ rest ∧ ∀ other, mayFollow other →
      ∃ outline', Outlines (skipBlanks (front ++ other)) outline' other ∧ outline.Alike outline' := by
  obtain ⟨front, same, outlined⟩ := cuts
  refine ⟨text.takeWhile isBlank ++ front, ?_, fun other follows => ?_⟩
  · rw [List.append_assoc, ← same]
    exact List.takeWhile_append_dropWhile.symm
  · obtain ⟨outline', outlines, alike⟩ := outlined other follows
    obtain ⟨c, more, begins, -, notBlank⟩ := outlines.exists_eq_cons
    refine ⟨outline', ?_, alike⟩
    rw [List.append_assoc, skipBlanks_append (List.all_eq_true.mp List.all_takeWhile), begins,
      skipBlanks_cons notBlank, ← begins]
    exact outlines

/-- Anything may follow an array. -/
theorem cutsValue_array {items : Items} (cuts : CutsItems true text items rest) :
    CutsValue (fun _ => True) ('[' :: text) (.array ('[' :: text) items) rest := by
  obtain ⟨front, rfl, outlined⟩ := cuts
  refine ⟨'[' :: front, rfl, fun other _ => ?_⟩
  obtain ⟨items', outlines, alike⟩ := outlined other
  exact ⟨_, .array outlines, .array alike⟩

/-- Anything may follow an object. -/
theorem cutsValue_object {members : Members} (cuts : CutsMembers true text members rest) :
    CutsValue (fun _ => True) ('{' :: text) (.object ('{' :: text) members) rest := by
  obtain ⟨front, rfl, outlined⟩ := cuts
  refine ⟨'{' :: front, rfl, fun other _ => ?_⟩
  obtain ⟨members', outlines, alike⟩ := outlined other
  exact ⟨_, .object outlines, .object alike⟩

theorem cutsValue_scalar (skipped : skipScalar text = .ok rest) (ends : EndsNumber rest) :
    CutsValue EndsNumber text (.scalar text) rest := by
  obtain ⟨front, same, skips⟩ := exists_front_of_skipScalar skipped
  refine ⟨front, same, fun other ends' => ⟨_, .ofScalar (skips other ends'), ?_⟩⟩
  refine .scalar (fun v behind read => ?_) (skips other ends')
  obtain rfl := Except.ok.inj ((skipScalar_of_read read).symm.trans skipped)
  obtain ⟨front', same', reads⟩ := exists_front_of_readScalar read ends
  obtain rfl := List.append_cancel_right (same.symm.trans same')
  exact ⟨other, reads other ends'⟩

section Steps

variable {first : Bool} {key afterKey behind middle : List Char} {value : Outline}
  {next items : Items} {following members : Members}

theorem cutsItems_close (closing : skipBlanks text = ']' :: rest) :
    CutsItems first text (.closed rest) rest := by
  obtain ⟨front, same, skips⟩ := exists_front_of_skipBlanks closing rfl
  exact ⟨front, same, fun other => ⟨_, .close (skips other), .closed⟩⟩

theorem cutsItems_first (here : CutsValue EndsNumber (skipBlanks text) value middle)
    (more : CutsItems false middle next rest) : CutsItems true text (.item value next) rest := by
  obtain ⟨front, rfl, outlined⟩ := here.behind_blanks
  obtain ⟨back, rfl, items⟩ := more
  refine ⟨front ++ back, (List.append_assoc ..).symm, fun other => ?_⟩
  obtain ⟨next', outlines, alike⟩ := items other
  obtain ⟨value', here, alike'⟩ := outlined (back ++ other) outlines.endsNumber
  rw [List.append_assoc]
  exact ⟨_, .first here outlines, .item alike' alike⟩

theorem cutsItems_next (comma : skipBlanks text = ',' :: behind)
    (here : CutsValue EndsNumber (skipBlanks behind) value middle)
    (more : CutsItems false middle next rest) :
    CutsItems false text (.item value next) rest := by
  obtain ⟨start, rfl, skips⟩ := exists_front_of_skipBlanks comma rfl
  obtain ⟨front, rfl, outlined⟩ := here.behind_blanks
  obtain ⟨back, rfl, items⟩ := more
  refine ⟨start ++ (front ++ back), by simp only [List.append_assoc], fun other => ?_⟩
  obtain ⟨next', outlines, alike⟩ := items other
  obtain ⟨value', here, alike'⟩ := outlined (back ++ other) outlines.endsNumber
  rw [List.append_assoc, List.append_assoc]
  exact ⟨_, .next (skips _) here outlines, .item alike' alike⟩

/-- The key of a member reads the same before all texts. -/
theorem cutsMember (keyEnds : skipQuoted key = .ok afterKey)
    (colon : skipBlanks afterKey = ':' :: behind)
    (here : CutsValue EndsNumber (skipBlanks behind) value middle)
    (more : CutsMembers false middle following rest) :
    CutsMember key (.member key afterKey value following) rest := by
  obtain ⟨name, rfl, string⟩ := (skipQuoted_eq_ok_iff.mp keyEnds).exists_front
  obtain ⟨start, rfl, skips⟩ := exists_front_of_skipBlanks colon rfl
  obtain ⟨front, rfl, outlined⟩ := here.behind_blanks
  obtain ⟨back, rfl, members⟩ := more
  refine ⟨name ++ (start ++ (front ++ back)), by simp only [List.append_assoc], fun other => ?_⟩
  obtain ⟨following', outlines, alike⟩ := members other
  obtain ⟨value', here, alike'⟩ := outlined (back ++ other) outlines.endsNumber
  simp only [List.append_assoc]
  refine ⟨_, .intro (skipQuoted_eq_ok_iff.mpr (string _)) (skips _) here outlines,
    .member (fun s behind read => ?_) alike' alike⟩
  have read := mapError_eq_ok_iff.mp read
  obtain rfl := Except.ok.inj ((skipQuoted_of_readString read).symm.trans keyEnds)
  obtain ⟨name', same, takes⟩ := takes_readString read
  obtain rfl := List.append_cancel_right same
  exact ⟨_, mapError_eq_ok_iff.mpr (takes _)⟩

theorem cutsMembers_close (closing : skipBlanks text = '}' :: rest) :
    CutsMembers first text (.closed rest) rest := by
  obtain ⟨front, same, skips⟩ := exists_front_of_skipBlanks closing rfl
  exact ⟨front, same, fun other => ⟨_, .close (skips other), .closed⟩⟩

theorem cutsMembers_first (begins : skipBlanks text = '"' :: key)
    (member : CutsMember key members rest) : CutsMembers true text members rest := by
  obtain ⟨start, rfl, skips⟩ := exists_front_of_skipBlanks begins rfl
  obtain ⟨front, rfl, outlined⟩ := member
  refine ⟨start ++ front, (List.append_assoc ..).symm, fun other => ?_⟩
  obtain ⟨members', outlines, alike⟩ := outlined other
  rw [List.append_assoc]
  exact ⟨_, .first (skips _) outlines, alike⟩

theorem cutsMembers_next (comma : skipBlanks text = ',' :: behind)
    (begins : skipBlanks behind = '"' :: key) (member : CutsMember key members rest) :
    CutsMembers false text members rest := by
  obtain ⟨start, rfl, skips⟩ := exists_front_of_skipBlanks comma rfl
  obtain ⟨quote, rfl, skips'⟩ := exists_front_of_skipBlanks begins rfl
  obtain ⟨front, rfl, outlined⟩ := member
  refine ⟨start ++ (quote ++ front), by simp only [List.append_assoc], fun other => ?_⟩
  obtain ⟨members', outlines, alike⟩ := outlined other
  rw [List.append_assoc, List.append_assoc]
  exact ⟨_, .next (skips _) (skips' _) outlines, alike⟩

end Steps

mutual
/-- A value can be cut off from what follows it. -/
theorem Outlines.cuts : ∀ {text : List Char} {outline : Outline} {rest : List Char},
    Outlines text outline rest → EndsNumber rest → CutsValue EndsNumber text outline rest
  | _, _, _, .scalar _ _ skipped, ends => cutsValue_scalar skipped ends
  | _, _, _, .array items, _ => (cutsValue_array items.cuts).mono fun _ _ => trivial
  | _, _, _, .object members, _ => (cutsValue_object members.cuts).mono fun _ _ => trivial
theorem OutlinesItems.cuts : ∀ {first : Bool} {text : List Char} {items : Items} {rest : List Char},
    OutlinesItems first text items rest → CutsItems first text items rest
  | _, _, _, _, .close closing => cutsItems_close closing
  | _, _, _, _, .first here more => cutsItems_first (here.cuts more.endsNumber) more.cuts
  | _, _, _, _, .next comma here more => cutsItems_next comma (here.cuts more.endsNumber) more.cuts
theorem OutlinesMember.cuts : ∀ {key : List Char} {members : Members} {rest : List Char},
    OutlinesMember key members rest → CutsMember key members rest
  | _, _, _, .intro keyEnds colon here more =>
    cutsMember keyEnds colon (here.cuts more.endsNumber) more.cuts
theorem OutlinesMembers.cuts : ∀ {first : Bool} {text : List Char} {members : Members}
    {rest : List Char}, OutlinesMembers first text members rest →
      CutsMembers first text members rest
  | _, _, _, _, .close closing => cutsMembers_close closing
  | _, _, _, _, .first begins member => cutsMembers_first begins member.cuts
  | _, _, _, _, .next comma begins member => cutsMembers_next comma begins member.cuts
end

/-- An array or an object can be cut off whatever follows it. -/
theorem Outlines.cuts_nested {outline : Outline} (outlines : Outlines text outline rest)
    (nested : ∀ start, outline ≠ .scalar start) : CutsValue (fun _ => True) text outline rest := by
  cases outlines with
  | scalar => exact absurd rfl (nested _)
  | array items => exact cutsValue_array items.cuts
  | object members => exact cutsValue_object members.cuts

end SchemaGrammar.Json
