import SchemaGrammar.Proofs.FollowingText
import SchemaGrammar.Proofs.ShortestDecimal
import SchemaGrammar.Proofs.WrittenNumber

/-!
# The decimal that is read off the text of a double

The text of a double is written in one of four layouts, and whoever reads it gets a significand and
a power of ten. In every layout they are the same: the digits without the zeros at their end, and
the place of the last one. Only a whole number below `10 ^ 16` is read with the zero behind its point
(`Decimal.numeral`). All digits count and none is dropped, since they fit into 64 bits
(`readNumber_text`). So what is read is the shortest decimal in another form, and it rounds to the
double it is written for (`roundsTo_numeral`).
-/

namespace SchemaGrammar

open Json

/-! ## Digits -/

/-- Digits are all taken as long as their number stays below the limit. -/
theorem accumulate_eq {limit : Nat} : ∀ {digits : List Char} {n : Nat},
    Nat.ofDigitChars 10 digits n < limit →
      accumulate limit n digits = (Nat.ofDigitChars 10 digits n, [])
  | [], _, _ => rfl
  | c :: digits, n, below => by
    rw [Nat.ofDigitChars_cons, Nat.mul_comm] at below ⊢
    have next : n * 10 + (c.toNat - '0'.toNat) < limit := by
      refine Nat.lt_of_le_of_lt ?_ below
      rw [Nat.ofDigitChars_eq_ofDigitChars_zero]
      exact Nat.le_add_right_of_le (Nat.le_mul_of_pos_left _ (Nat.pow_pos (by decide)))
    rw [accumulate]
    exact (if_pos next).trans (accumulate_eq below)

/-- What is dropped at the end of digits are zeros. -/
theorem exists_rdropWhile_zeros (digits : List Char) :
    ∃ count, digits = digits.rdropWhile (· == '0') ++ List.replicate count '0' := by
  refine ⟨(digits.rtakeWhile (· == '0')).length, ?_⟩
  have zeros : digits.rtakeWhile (· == '0') =
      List.replicate (digits.rtakeWhile (· == '0')).length '0' :=
    List.eq_replicate_of_mem fun c mem =>
      beq_iff_eq.mp (@List.mem_rtakeWhile_imp _ (· == '0') _ _ mem)
  rw [← zeros]
  exact (List.rdropWhile_append_rtakeWhile ..).symm

theorem ofDigitChars_lt {digits : List Char} (areDigits : ∀ d ∈ digits, d.isDigit = true) :
    Nat.ofDigitChars 10 digits 0 < tenTo digits.length := by
  induction digits with
  | nil => exact Nat.one_pos
  | cons c digits ih =>
    have rest := ih fun d mem => areDigits d (List.mem_cons_of_mem c mem)
    have digit : c.toNat - '0'.toNat < 10 := by
      have isDigit := areDigits c List.mem_cons_self
      rw [Char.isDigit, Bool.and_eq_true, decide_eq_true_iff, decide_eq_true_iff] at isDigit
      have := UInt32.le_iff_toNat_le.mp isDigit.2
      have nine : ('9' : Char).val.toNat = '0'.toNat + 9 := rfl
      have here : c.val.toNat = c.toNat := rfl
      omega
    rw [Nat.ofDigitChars_cons, Nat.mul_zero, Nat.zero_add, Nat.ofDigitChars_eq_ofDigitChars_zero,
      List.length_cons, tenTo_add]
    calc 10 ^ digits.length * (c.toNat - '0'.toNat) + Nat.ofDigitChars 10 digits 0
        < tenTo digits.length * (c.toNat - '0'.toNat) + tenTo digits.length :=
          Nat.add_lt_add_left rest _
      _ = tenTo digits.length * (c.toNat - '0'.toNat + 1) := rfl
      _ ≤ tenTo digits.length * tenTo 1 := Nat.mul_le_mul_left _ digit

/-! ## The decimal that is written -/

namespace Decimal

/-- The digits that are written of a decimal: those of its significand without the zeros at the
end. -/
def digits (d : Decimal) : List Char := (decimalDigits d.significand).rdropWhile (· == '0')

/-- The exponent of a decimal's first digit. -/
def lead (d : Decimal) : Int := d.exponent + (decimalDigits d.significand).length - 1

/-- The decimal with no zeros at the end of its significand. -/
def reduced (d : Decimal) : Decimal :=
  ⟨Nat.ofDigitChars 10 d.digits 0, d.lead + 1 - d.digits.length⟩

/-- The decimal that is read where a decimal is written. A whole number that is written positionally
has a zero behind its point. -/
def numeral (d : Decimal) : Decimal :=
  if 0 ≤ d.lead ∧ d.lead ≤ 15 ∧ 0 ≤ d.reduced.exponent then
    ⟨d.reduced.significand * tenTo (d.reduced.exponent + 1).toNat, -1⟩
  else d.reduced

/-- Zeros at the end of a significand make up for a smaller exponent. -/
theorem roundsTo_mul_tenTo {significand count place : Nat} {exponent : Int} :
    (⟨significand * tenTo count, exponent⟩ : Decimal).RoundsTo place ↔
      (⟨significand, exponent + count⟩ : Decimal).RoundsTo place := by
  have balance : count + exponent.toNat + (-(exponent + count)).toNat =
      (exponent + count).toNat + (-exponent).toNat := by omega
  rw [RoundsTo, RoundsTo, ← Double.nearestPlace_eq_iff (tenTo_pos _),
    ← Double.nearestPlace_eq_iff (tenTo_pos _)]
  dsimp only
  generalize (-(exponent + count)).toNat = down at balance
  generalize (exponent + count).toNat = up at balance
  generalize (-exponent).toNat = down' at balance
  generalize exponent.toNat = up' at balance
  rw [← Double.nearestPlace_mul (tenTo_pos down') (tenTo_pos down),
    ← Double.nearestPlace_mul (tenTo_pos down) (tenTo_pos down'), Nat.mul_comm (tenTo down)]
  have same : significand * tenTo count * tenTo up' * Double.quantaPerUnit * tenTo down =
      significand * tenTo up * Double.quantaPerUnit * tenTo down' := by
    calc _ = significand * Double.quantaPerUnit * (tenTo count * tenTo up' * tenTo down) := by ring
      _ = significand * Double.quantaPerUnit * (tenTo up * tenTo down') := by
          rw [← tenTo_add, ← tenTo_add, balance, tenTo_add]
      _ = _ := by ring
  rw [same]

variable (d : Decimal)

theorem exists_reduced : ∃ count, d.significand = d.reduced.significand * tenTo count ∧
    d.reduced.exponent = d.exponent + count := by
  obtain ⟨count, whole⟩ := exists_rdropWhile_zeros (decimalDigits d.significand)
  refine ⟨count, ?_, ?_⟩
  · calc d.significand = Nat.ofDigitChars 10 (decimalDigits d.significand) 0 :=
          Nat.ofDigitChars_ten_toDigits.symm
      _ = Nat.ofDigitChars 10 d.digits 0 * tenTo count := by
          rw [whole, Nat.ofDigitChars_append, Nat.ofDigitChars_replicate_zero, Nat.mul_comm]
          rfl
  · have length := congrArg List.length whole
    rw [List.length_append, List.length_replicate] at length
    rw [reduced, lead, digits]
    dsimp only
    omega

theorem roundsTo_reduced_iff {place : Nat} : d.reduced.RoundsTo place ↔ d.RoundsTo place := by
  obtain ⟨count, significand, exponent⟩ := d.exists_reduced
  have same : d.reduced = ⟨d.reduced.significand, d.exponent + count⟩ := by rw [← exponent]
  rw [same, ← roundsTo_mul_tenTo, ← significand]

theorem roundsTo_numeral_iff {place : Nat} : d.numeral.RoundsTo place ↔ d.RoundsTo place := by
  rw [← d.roundsTo_reduced_iff, numeral]
  split
  · next whole =>
    have exponent : d.reduced.exponent = -1 + (d.reduced.exponent + 1).toNat := by omega
    have same : d.reduced = ⟨d.reduced.significand, -1 + (d.reduced.exponent + 1).toNat⟩ := by
      rw [← exponent]
    conv_rhs => rw [same]
    exact roundsTo_mul_tenTo
  · rfl

theorem numeral_eq_reduced (far : d.lead < 0 ∨ 15 < d.lead) : d.numeral = d.reduced :=
  if_neg (by omega)

theorem isDigit_of_mem_digits {c : Char} (mem : c ∈ d.digits) : c.isDigit = true :=
  isDigit_of_mem_decimalDigits ((List.rdropWhile_prefix _ _).mem mem)

/-- Numbers of up to 17 digits, with the zero behind the point if it is written, fit into 64 bits. -/
theorem significand_numeral_lt (few : d.significand ≤ tenTo 17) :
    d.numeral.significand < twoTo 64 := by
  have limit : tenTo 17 < twoTo 64 := by decide
  rw [numeral]
  split
  · next whole =>
    have reduced : d.reduced.significand < tenTo d.digits.length :=
      ofDigitChars_lt fun c mem => d.isDigit_of_mem_digits mem
    have exponent : d.digits.length + (d.reduced.exponent + 1).toNat ≤ 17 := by
      have : d.reduced.exponent = d.lead + 1 - d.digits.length := rfl
      omega
    calc d.reduced.significand * tenTo (d.reduced.exponent + 1).toNat
        ≤ tenTo d.digits.length * tenTo (d.reduced.exponent + 1).toNat :=
          Nat.mul_le_mul_right _ reduced.le
      _ = tenTo (d.digits.length + (d.reduced.exponent + 1).toNat) := (tenTo_add _ _).symm
      _ ≤ tenTo 17 := tenTo_le exponent
      _ < twoTo 64 := limit
  · obtain ⟨count, significand, -⟩ := d.exists_reduced
    calc d.reduced.significand ≤ d.reduced.significand * tenTo count :=
          Nat.le_mul_of_pos_right _ (tenTo_pos count)
      _ = d.significand := significand.symm
      _ ≤ tenTo 17 := few
      _ < twoTo 64 := limit

end Decimal

/-! ## Reading the layouts -/

section Reading

variable {negative : Bool} {significand : Nat} {exponent : Int}
  {whole digits behind rest : List Char}

/-- An exponent is read back with its sign. -/
theorem readExponent_written (plus : Bool) {lead : Int} (short : lead.natAbs < twoTo 31)
    (ends : EndsNumber rest) :
    readExponent negative significand exponent
        ((if lead < 0 then ['-'] else if plus then ['+'] else []) ++ decimalDigits lead.natAbs ++
          rest) =
      realOf negative significand (exponent + lead) rest := by
  have isSign : (if lead < 0 then ['-'] else if plus then ['+'] else []) ∈ [[], ['+'], ['-']] := by
    split
    · decide
    · split <;> decide
  have notEmpty : decimalDigits lead.natAbs ≠ [] := Nat.toDigits_ne_nil
  have areDigits : ∀ d ∈ decimalDigits lead.natAbs, d.isDigit = true :=
    fun d mem => isDigit_of_mem_decimalDigits mem
  have value : Nat.ofDigitChars 10 (decimalDigits lead.natAbs) 0 = lead.natAbs :=
    Nat.ofDigitChars_ten_toDigits
  have taken : accumulate (twoTo 31) 0 (decimalDigits lead.natAbs) = (lead.natAbs, []) := by
    rw [accumulate_eq (by rwa [value]), value]
  simp only [readExponent, skipSign_append isSign notEmpty areDigits,
    spanDigits_append areDigits ends.endsDigits, taken]
  refine (if_neg (mt List.isEmpty_iff.mp notEmpty)).trans ?_
  obtain ⟨c, more, written⟩ := List.exists_cons_of_ne_nil notEmpty
  have notMinus : c ≠ '-' := by
    rintro rfl
    exact absurd (areDigits '-' (written ▸ List.mem_cons_self)) (by decide)
  congr 1
  rcases lt_or_ge lead 0 with down | up
  · rw [if_pos down]
    refine (if_pos rfl).trans ?_
    omega
  · rw [if_neg (Int.not_lt.mpr up), written]
    refine (if_neg ?_).trans ?_
    · cases plus
      · simpa using notMinus
      · exact Bool.false_ne_true
    · omega

/-- Digits with a point among them are read as a whole number scaled down. -/
theorem readMagnitude_point (isWhole : IsWhole whole) (notEmpty : digits ≠ [])
    (areDigits : ∀ d ∈ digits, d.isDigit = true) (ends : EndsDigits behind)
    (short : Nat.ofDigitChars 10 (whole ++ digits) 0 < twoTo 64) :
    readMagnitude negative (whole ++ '.' :: (digits ++ behind)) =
      finishReal negative (Nat.ofDigitChars 10 (whole ++ digits) 0) (-digits.length) behind := by
  have point : EndsDigits ('.' :: (digits ++ behind)) := by
    rintro c ⟨⟩
    rfl
  rw [Nat.ofDigitChars_append] at short ⊢
  have wholeShort : Nat.ofDigitChars 10 whole 0 < twoTo 64 := by
    refine Nat.lt_of_le_of_lt ?_ short
    rw [@Nat.ofDigitChars_eq_ofDigitChars_zero digits]
    exact Nat.le_add_right_of_le (Nat.le_mul_of_pos_left _ (Nat.pow_pos (by decide)))
  rw [readMagnitude_append negative isWhole point, accumulate_eq wholeShort, finishWhole,
    readFraction, spanDigits_append areDigits ends]
  refine (if_neg (mt List.isEmpty_iff.mp notEmpty)).trans ?_
  rw [accumulate_eq short]
  dsimp only
  rw [List.length_nil, Nat.sub_zero, Int.ofNat_zero, Int.zero_sub]

/-- Digits before an exponent are read as a whole number. -/
theorem readMagnitude_exponent (isWhole : IsWhole whole)
    (short : Nat.ofDigitChars 10 whole 0 < twoTo 64) :
    readMagnitude negative (whole ++ 'e' :: rest) =
      readExponent negative (Nat.ofDigitChars 10 whole 0) 0 rest := by
  have letter : EndsDigits ('e' :: rest) := by
    rintro c ⟨⟩
    rfl
  rw [readMagnitude_append negative isWhole letter, accumulate_eq short, finishWhole, finishReal]

end Reading

namespace Decimal

/-- The text of a decimal in a format. -/
def layout (d : Decimal) (format : DoubleFormat) : List Char :=
  if 0 ≤ d.lead && d.lead ≤ 15 then FiniteDouble.withPoint d.digits (d.lead.toNat + 1)
  else if format.leastExponent ≤ d.lead && d.lead < 0 then
    '0' :: '.' :: (List.replicate (-d.lead - 1).toNat '0' ++ d.digits)
  else
    d.digits.take 1 ++ (if d.digits.length ≤ 1 then [] else '.' :: d.digits.drop 1) ++
      'e' :: ((if d.lead < 0 then ['-'] else if format.plus then ['+'] else []) ++
        decimalDigits d.lead.natAbs)

variable {d : Decimal}

theorem exists_digits_eq_cons (positive : 0 < d.significand) :
    ∃ c kept, d.digits = c :: kept ∧ c ≠ '0' := by
  obtain ⟨c, digits, written, notZero⟩ := exists_decimalDigits_eq_cons d.significand positive
  obtain ⟨kept, stripped, -⟩ := @FiniteDouble.rdropWhile_zero_eq_cons c digits notZero
  exact ⟨c, kept, by rw [Decimal.digits, written, stripped], notZero⟩

section Layouts

variable {negative plus : Bool} {c : Char} {kept rest : List Char}

/-- Without the zeros at their end the digits are still those of a number. -/
theorem ofDigitChars_digits (d : Decimal) :
    Nat.ofDigitChars 10 d.digits 0 = d.reduced.significand := rfl

theorem readMagnitude_withPoint (cons : d.digits = c :: kept) (notZero : c ≠ '0')
    (short : d.numeral.significand < twoTo 64) (low : 0 ≤ d.lead) (high : d.lead ≤ 15)
    (ends : EndsNumber rest) :
    readMagnitude negative (FiniteDouble.withPoint d.digits (d.lead.toNat + 1) ++ rest) =
      realOf negative d.numeral.significand d.numeral.exponent rest := by
  have areDigits : ∀ e ∈ c :: kept, e.isDigit = true :=
    fun e mem => d.isDigit_of_mem_digits (cons ▸ mem)
  obtain ⟨whole, part, written, isWhole, notEmpty, partDigits, whole', split⟩ :=
    FiniteDouble.exists_withPoint_eq notZero areDigits d.lead.toNat
  rw [← cons] at written whole' split
  have exponent : d.reduced.exponent = d.lead + 1 - d.digits.length := rfl
  -- Together the digits on both sides of the point are those of the number that is read.
  have together : Nat.ofDigitChars 10 (whole ++ part) 0 = d.numeral.significand ∧
      -(part.length : Int) = d.numeral.exponent := by
    rcases split with ⟨le, rfl⟩ | ⟨lt, rfl⟩
    · have zeros : (d.reduced.exponent + 1).toNat = d.lead.toNat + 1 - d.digits.length + 1 := by
        omega
      rw [numeral, if_pos ⟨low, high, by omega⟩, whole', List.take_of_length_le le,
        List.append_assoc, show ['0'] = List.replicate 1 '0' from rfl,
        List.replicate_append_replicate,
        Nat.ofDigitChars_append, Nat.ofDigitChars_replicate_zero, Nat.mul_comm, zeros]
      exact ⟨rfl, rfl⟩
    · rw [numeral, if_neg (by omega), whole', Nat.sub_eq_zero_of_le lt.le, List.replicate_zero,
        List.append_nil, List.take_append_drop, List.length_drop, exponent]
      exact ⟨rfl, by omega⟩
  rw [← together.1] at short ⊢
  rw [← together.2, written, List.append_assoc, List.cons_append,
    readMagnitude_point isWhole notEmpty partDigits ends.endsDigits short]
  exact finishReal_eq_realOf (ends.ne_cons (by decide)) (ends.ne_cons (by decide))

theorem readMagnitude_below_one (cons : d.digits = c :: kept)
    (short : d.numeral.significand < twoTo 64) (low : d.lead < 0) (ends : EndsNumber rest) :
    readMagnitude negative
        ('0' :: '.' :: (List.replicate (-d.lead - 1).toNat '0' ++ d.digits) ++ rest) =
      realOf negative d.numeral.significand d.numeral.exponent rest := by
  have areDigits : ∀ e ∈ List.replicate (-d.lead - 1).toNat '0' ++ d.digits, e.isDigit = true := by
    intro e mem
    rcases List.mem_append.mp mem with mem | mem
    · rw [List.eq_of_mem_replicate mem]
      decide
    · exact d.isDigit_of_mem_digits mem
  have notEmpty : List.replicate (-d.lead - 1).toNat '0' ++ d.digits ≠ [] := by
    rw [cons]
    exact List.append_ne_nil_of_right_ne_nil _ (List.cons_ne_nil c kept)
  have same :
      Nat.ofDigitChars 10 (['0'] ++ (List.replicate (-d.lead - 1).toNat '0' ++ d.digits)) 0 =
        d.reduced.significand := by
    rw [Nat.ofDigitChars_append, Nat.ofDigitChars_append, Nat.ofDigitChars_replicate_zero]
    rfl
  have exponent : d.reduced.exponent = d.lead + 1 - d.digits.length := rfl
  rw [d.numeral_eq_reduced (.inl low)] at short ⊢
  rw [← same] at short ⊢
  have read :=
    @readMagnitude_point negative ['0'] _ rest .zero notEmpty areDigits ends.endsDigits short
  refine Eq.trans ?_ (read.trans ?_)
  · simp only [List.cons_append, List.nil_append]
  · rw [finishReal_eq_realOf (ends.ne_cons (by decide)) (ends.ne_cons (by decide)), exponent,
      List.length_append, List.length_replicate]
    congr 1
    omega

theorem readMagnitude_withExponent (cons : d.digits = c :: kept) (notZero : c ≠ '0')
    (short : d.numeral.significand < twoTo 64) (far : d.lead < 0 ∨ 15 < d.lead)
    (small : d.lead.natAbs < twoTo 31) (ends : EndsNumber rest) :
    readMagnitude negative
        (d.digits.take 1 ++ (if d.digits.length ≤ 1 then [] else '.' :: d.digits.drop 1) ++
          'e' :: ((if d.lead < 0 then ['-'] else if plus then ['+'] else []) ++
            decimalDigits d.lead.natAbs) ++ rest) =
      realOf negative d.numeral.significand d.numeral.exponent rest := by
  have areDigits : ∀ e ∈ c :: kept, e.isDigit = true :=
    fun e mem => d.isDigit_of_mem_digits (cons ▸ mem)
  have isWhole : IsWhole [c] := .positive (areDigits c List.mem_cons_self) notZero nofun
  have last : d.reduced.exponent = -(kept.length : Int) + d.lead := by
    have exponent : d.reduced.exponent = d.lead + 1 - d.digits.length := rfl
    rw [exponent, cons, List.length_cons]
    omega
  rw [d.numeral_eq_reduced far] at short ⊢
  rw [← ofDigitChars_digits, cons] at short ⊢
  rw [last]
  rcases kept with _ | ⟨next, kept⟩
  · refine Eq.trans ?_ ((readMagnitude_exponent isWhole short).trans
      (readExponent_written plus small ends))
    simp only [List.take_succ_cons, List.take_nil, List.length_singleton, le_refl, if_true,
      List.append_nil, List.append_assoc, List.cons_append, List.nil_append]
  · have letter : EndsDigits ('e' :: ((if d.lead < 0 then ['-'] else if plus then ['+'] else []) ++
        decimalDigits d.lead.natAbs ++ rest)) := by
      rintro c ⟨⟩
      rfl
    have read := @readMagnitude_point negative [c] (next :: kept) _ isWhole (List.cons_ne_nil _ _)
      (fun e mem => areDigits e (List.mem_cons_of_mem c mem)) letter short
    refine Eq.trans ?_ (read.trans (readExponent_written plus small ends))
    simp only [List.take_succ_cons, List.take_zero, List.length_cons, List.drop_succ_cons,
      List.drop_zero, Nat.reduceLeDiff, if_false, List.append_assoc, List.cons_append,
      List.nil_append]

/-- Reading what is written of a decimal gives its numeral, in every format. -/
theorem readMagnitude_layout (format : DoubleFormat) (positive : 0 < d.significand)
    (few : d.significand ≤ tenTo 17) (small : d.lead.natAbs < twoTo 31) (ends : EndsNumber rest) :
    readMagnitude negative (d.layout format ++ rest) =
      realOf negative d.numeral.significand d.numeral.exponent rest := by
  obtain ⟨c, kept, cons, notZero⟩ := exists_digits_eq_cons positive
  have short := d.significand_numeral_lt few
  unfold layout
  split
  · next near =>
    rw [Bool.and_eq_true, decide_eq_true_iff, decide_eq_true_iff] at near
    exact readMagnitude_withPoint cons notZero short near.1 near.2 ends
  · next notNear =>
    rw [Bool.and_eq_true, decide_eq_true_iff, decide_eq_true_iff] at notNear
    split
    · next below =>
      rw [Bool.and_eq_true, decide_eq_true_iff, decide_eq_true_iff] at below
      exact readMagnitude_below_one cons short below.2 ends
    · exact readMagnitude_withExponent cons notZero short (by omega) small ends

/-- What is written of a decimal begins with a digit. -/
theorem exists_layout_eq_cons (format : DoubleFormat) (positive : 0 < d.significand) :
    ∃ c more, d.layout format = c :: more ∧ c.isDigit = true := by
  obtain ⟨c, kept, cons, -⟩ := exists_digits_eq_cons positive
  have isDigit : c.isDigit = true := d.isDigit_of_mem_digits (cons ▸ List.mem_cons_self)
  unfold layout
  rw [cons]
  split
  · exact ⟨c, _, rfl, isDigit⟩
  · split
    · exact ⟨'0', _, rfl, rfl⟩
    · exact ⟨c, _, rfl, isDigit⟩

end Layouts

end Decimal

/-! ## Doubles -/

namespace FiniteDouble

variable (x : FiniteDouble)

/-- The decimal that is read where a double is written. -/
def numeral (tiesUp : Bool) : Decimal := (x.shortest tiesUp).numeral

theorem shortest_of_isZero {x : FiniteDouble} (zero : x.isZero = true) (tiesUp : Bool) :
    x.shortest tiesUp = ⟨0, 0⟩ := if_pos zero

/-- What is read where a double is written rounds to the double. -/
theorem roundsTo_numeral (tiesUp : Bool) : (x.numeral tiesUp).RoundsTo x.place := by
  refine (Decimal.roundsTo_numeral_iff _).mpr ?_
  cases zero : x.isZero with
  | false => exact roundsTo_shortest (place_pos zero) tiesUp
  | true =>
    have place : x.place.val = 0 := beq_iff_eq.mp zero
    rw [shortest_of_isZero zero, place, Decimal.RoundsTo, Nat.zero_mul, Nat.zero_mul]
    refine (Double.nearestPlace_eq_iff (tenTo_pos 0)).mp ?_
    rw [← Nat.zero_mul (tenTo 0)]
    exact Double.nearestPlace_quantaAt 0 (tenTo_pos 0)

theorem significand_numeral_lt (tiesUp : Bool) : (x.numeral tiesUp).significand < twoTo 64 := by
  refine Decimal.significand_numeral_lt _ ?_
  cases zero : x.isZero with
  | false => exact significand_shortest_le (place_pos zero) tiesUp
  | true => exact shortest_of_isZero zero tiesUp ▸ Nat.zero_le _

theorem lead_shortest_lt {x : FiniteDouble} (positive : 0 < x.place.val) (tiesUp : Bool) :
    (x.shortest tiesUp).lead.natAbs < twoTo 31 := by
  have exponent := exponent_shortest_lt positive tiesUp
  have length : (decimalDigits (x.shortest tiesUp).significand).length ≤ 18 := by
    refine (Nat.length_toDigits_le_iff (by decide) (by decide)).mpr ?_
    exact Nat.lt_of_le_of_lt (significand_shortest_le positive tiesUp) (by decide)
  have limit : twoTo 31 = 2147483648 := rfl
  rw [Decimal.lead]
  omega

/-- The text of a double without its sign. -/
def magnitudeText (format : DoubleFormat) : List Char :=
  if x.isZero then ['0', '.', '0'] else (x.shortest format.tiesUp).layout format

theorem toList_text (format : DoubleFormat) : (x.text format).toList =
    if x.negative then '-' :: x.magnitudeText format else x.magnitudeText format := by
  rw [text, String.toList_ofList]
  rfl

theorem exists_magnitudeText_eq_cons (format : DoubleFormat) :
    ∃ c more, x.magnitudeText format = c :: more ∧ c.isDigit = true := by
  unfold magnitudeText
  cases zero : x.isZero with
  | false =>
    exact Decimal.exists_layout_eq_cons format (significand_shortest_pos (place_pos zero) _)
  | true => exact ⟨'0', _, rfl, rfl⟩

theorem readMagnitude_magnitudeText (format : DoubleFormat) (negative : Bool) {rest : List Char}
    (ends : EndsNumber rest) : readMagnitude negative (x.magnitudeText format ++ rest) =
      realOf negative (x.numeral format.tiesUp).significand (x.numeral format.tiesUp).exponent
        rest := by
  unfold magnitudeText
  cases zero : x.isZero with
  | false =>
    have positive := place_pos zero
    exact Decimal.readMagnitude_layout format (significand_shortest_pos positive _)
      (significand_shortest_le positive _) (lead_shortest_lt positive _) ends
  | true =>
    rw [numeral, shortest_of_isZero zero]
    refine (readMagnitude_point .zero (List.cons_ne_nil '0' []) (List.forall_mem_singleton.mpr rfl)
      ends.endsDigits (by decide)).trans ?_
    exact finishReal_eq_realOf (ends.ne_cons (by decide)) (ends.ne_cons (by decide))

/-- Reading the text of a double gives its numeral, in every format. -/
theorem readNumber_text (format : DoubleFormat) {rest : List Char} (ends : EndsNumber rest) :
    readNumber ((x.text format).toList ++ rest) =
      realOf x.negative (x.numeral format.tiesUp).significand (x.numeral format.tiesUp).exponent
        rest := by
  rw [toList_text]
  cases sign : x.negative with
  | true => exact x.readMagnitude_magnitudeText format true ends
  | false =>
    rw [if_neg Bool.false_ne_true, ← x.readMagnitude_magnitudeText format false ends]
    obtain ⟨c, more, cons, isDigit⟩ := x.exists_magnitudeText_eq_cons format
    rw [cons]
    exact readNumber_of_isDigit isDigit _

end FiniteDouble

end SchemaGrammar
