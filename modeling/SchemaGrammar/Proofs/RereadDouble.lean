import SchemaGrammar.Proofs.WrittenDecimal

/-!
# Doubles that are written and read again

A double is read by scaling its significand by a power of ten, with one rounding for the
significand, one for the power and one for their product or quotient. So what is read where a double
is written is always a double (`readNumber_text_eq`), but not always the same one
(`FiniteDouble.reread`). That it is finite needs an argument only next to the largest double: the
last two doubles are computed, and below them three roundings do not add up to the distance that is
left.

A double is kept where no rounding but the last one changes anything: if its digits make a number of
53 bits, and their power of ten is one of those that are doubles themselves
(`FiniteDouble.reread_eq_self`).
-/

namespace SchemaGrammar

open Json (scale readNumber realOf EndsNumber)

/-- The double of a natural number that is not too large. -/
def FiniteDouble.ofNat (n : Nat) (le : n ≤ tenTo 308) : FiniteDouble :=
  ⟨false, Double.wholePlace n, Double.wholePlace_lt_placeCount le⟩

namespace Double

theorem atPlace_eq (negative : Bool) (place : Fin placeCount) :
    atPlace negative place = .finite ⟨negative, place⟩ := dif_pos place.isLt

theorem ofNat_eq {n : Nat} (le : n ≤ tenTo 308) : ofNat n = .finite (.ofNat n le) :=
  atPlace_eq false ⟨wholePlace n, wholePlace_lt_placeCount le⟩

theorem powerOfTen_eq {e : Nat} (le : e ≤ 308) : powerOfTen e = .finite (.ofNat _ (tenTo_le le)) :=
  ofNat_eq (tenTo_le le)

/-- Powers of ten are one at least. -/
theorem quantaPerUnit_le_quantaAt_tenTo (e : Nat) :
    quantaPerUnit ≤ quantaAt (wholePlace (tenTo e)) := by
  have one := quantaAt_wholePlace (n := 1) (by decide)
  rw [Nat.one_mul] at one
  rw [← one]
  refine quantaAt_strictMono.monotone (le_nearestPlace Nat.one_pos ?_)
  rw [one, Nat.mul_one]
  exact Nat.le_mul_of_pos_left _ (tenTo_pos e)

theorem mul_ofNat_eq {x : FiniteDouble} {n : Nat} (le : n ≤ tenTo 308) {place : Fin placeCount}
    (same : nearestPlace (x.quanta * quantaAt (wholePlace n)) quantaPerUnit = place) :
    mul (.finite x) (.finite (.ofNat n le)) = .finite ⟨x.negative != false, place⟩ := by
  rw [← atPlace_eq (x.negative != false) place, ← same]
  rfl

/-- The powers of ten up to the twenty-second are doubles. -/
theorem quantaAt_wholePlace_tenTo {e : Nat} (near : e ≤ 22) :
    quantaAt (wholePlace (tenTo e)) = tenTo e * quantaPerUnit := by
  have halves : tenTo e = 5 ^ e * 2 ^ e := by
    rw [← Nat.mul_pow]
    rfl
  have last : 5 ^ 22 ≤ 2 ^ 53 := by decide
  rw [halves]
  exact quantaAt_wholePlace_shift ((Nat.pow_le_pow_right (by decide) near).trans last) e

/-- What is divided by a double that is one at least stays finite. -/
theorem exists_div_ofNat_eq (x : FiniteDouble) {n : Nat} (le : n ≤ tenTo 308)
    (large : quantaPerUnit ≤ quantaAt (wholePlace n)) : ∃ place : Fin placeCount,
      nearestPlace (x.quanta * quantaPerUnit) (quantaAt (wholePlace n)) = place ∧
        div (.finite x) (.finite (.ofNat n le)) = .finite ⟨x.negative != false, place⟩ := by
  have positive : 0 < quantaAt (wholePlace n) := Nat.lt_of_lt_of_le quantaPerUnit_pos large
  have notZero : (FiniteDouble.ofNat n le).isZero = false := by
    refine beq_false_of_ne fun zero => positive.ne' ?_
    rw [show wholePlace n = 0 from zero]
    rfl
  have least : nearestPlace (x.quanta * quantaPerUnit) (quantaAt (wholePlace n)) ≤ x.place :=
    nearestPlace_le_of_le positive (Nat.mul_le_mul_left _ large)
  refine ⟨⟨_, Nat.lt_of_le_of_lt least x.place.isLt⟩, rfl, ?_⟩
  rw [div, if_neg (Bool.eq_false_iff.mp notZero)]
  exact atPlace_eq _ ⟨_, Nat.lt_of_le_of_lt least x.place.isLt⟩

/-- So does what is divided by a power of ten. -/
theorem exists_div_powerOfTen_eq (x : FiniteDouble) {e : Nat} (le : e ≤ 308) :
    ∃ place : Fin placeCount,
      nearestPlace (x.quanta * quantaPerUnit) (quantaAt (wholePlace (tenTo e))) = place ∧
        div (.finite x) (powerOfTen e) = .finite ⟨x.negative != false, place⟩ := by
  rw [powerOfTen_eq le]
  exact exists_div_ofNat_eq x (tenTo_le le) (quantaPerUnit_le_quantaAt_tenTo e)

/-- Rounding makes a natural number greater by one part in `2 ^ 53` at most. -/
theorem quantaAt_wholePlace_le (n : Nat) :
    2 ^ 53 * quantaAt (wholePlace n) ≤ (2 ^ 53 + 1) * (n * quantaPerUnit) := by
  rcases Nat.eq_zero_or_pos n with rfl | positive
  · rw [quantaAt_wholePlace (Nat.zero_le _), Nat.zero_mul]
    exact Nat.zero_le _
  · have normal := calc 2 ^ 52 * 1 ≤ quantaPerUnit := twoTo_le (m := 52) (by decide)
      _ ≤ n * quantaPerUnit := Nat.le_mul_of_pos_left _ positive
    have rounded := quantaAt_nearestPlace_le Nat.one_pos normal
    rwa [Nat.mul_one] at rounded

end Double

/-! ## Scaling -/

theorem scale_of_le {x : Double} {e : Int} (small : e.natAbs ≤ 308) : scale x e =
    match if e < 0 then x.div (.powerOfTen e.natAbs) else x.mul (.powerOfTen e.natAbs) with
    | .finite y => some y
    | _ => none := by
  unfold scale
  exact if_pos small

section Steps

variable {n : Nat} {place : Fin Double.placeCount}

/-- A natural number is scaled up by one multiplication, if the product is not too large. -/
theorem scale_up {e : Nat} (small : n ≤ tenTo 308) (le : e ≤ 308)
    (same : Double.nearestPlace
      (Double.quantaAt (Double.wholePlace n) * Double.quantaAt (Double.wholePlace (tenTo e)))
      Double.quantaPerUnit = place) :
    scale (.ofNat n) e = some ⟨false, place⟩ := by
  have product : Double.mul (.ofNat n) (.powerOfTen e) = .finite ⟨false, place⟩ := by
    rw [Double.ofNat_eq small, Double.powerOfTen_eq le]
    exact @Double.mul_ofNat_eq (.ofNat n small) _ (tenTo_le le) _ same
  rw [scale_of_le (Int.natAbs_natCast e ▸ le), if_neg (Int.not_lt.mpr (Int.natCast_nonneg e)),
    Int.natAbs_natCast, product]

/-- It is scaled down by one division, if the power of ten is a double. -/
theorem scale_down {e : Int} (small : n ≤ tenTo 308) (le : e.natAbs ≤ 308) (down : e < 0)
    (same : Double.nearestPlace (Double.quantaAt (Double.wholePlace n) * Double.quantaPerUnit)
      (Double.quantaAt (Double.wholePlace (tenTo e.natAbs))) = place) :
    scale (.ofNat n) e = some ⟨false, place⟩ := by
  obtain ⟨place', same', quotient⟩ := Double.exists_div_powerOfTen_eq (.ofNat n small) le
  obtain rfl : place' = place := Fin.ext (same'.symm.trans same)
  rw [scale_of_le le, if_pos down, Double.ofNat_eq small, quotient]
  rfl

end Steps

/-- Scaling down never fails. -/
theorem exists_scale_eq_of_neg (x : FiniteDouble) {e : Int} (down : e < 0) :
    ∃ y, scale (.finite x) e = some y := by
  by_cases small : e.natAbs ≤ 308
  · obtain ⟨place, -, quotient⟩ := Double.exists_div_powerOfTen_eq x small
    rw [scale_of_le small, if_pos down, quotient]
    exact ⟨_, rfl⟩
  · obtain ⟨place, -, quotient⟩ := Double.exists_div_powerOfTen_eq x (Nat.le_refl 308)
    rw [scale, if_neg small]
    split
    · exact ⟨_, rfl⟩
    · rw [if_neg (by omega), quotient]
      exact exists_scale_eq_of_neg _ (by omega)
termination_by e.natAbs

namespace Decimal

variable {d : Decimal} {place : Nat}

/-- A whole decimal rounds as a natural number. -/
theorem roundsTo_iff_of_nonneg (whole : 0 ≤ d.exponent) : d.RoundsTo place ↔
    Double.Rounds (d.significand * tenTo d.exponent.toNat * Double.quantaPerUnit) 1 place := by
  have none : (-d.exponent).toNat = 0 := by omega
  rw [RoundsTo, none]
  rfl

/-- The power of ten of a whole decimal that rounds to a finite double is finite itself. -/
theorem exponent_le_of_roundsTo (rounds : d.RoundsTo place) (lt : place < Double.placeCount)
    (positive : 0 < d.significand) (whole : 0 ≤ d.exponent) : d.exponent.toNat ≤ 308 := by
  by_contra large
  have reached := calc Double.quantaAt Double.placeCount * 1
    _ = Double.quantaAt Double.placeCount := Nat.mul_one _
    _ ≤ tenTo 309 * Double.quantaPerUnit := Double.extremes_in_decimal.2.1
    _ = 1 * tenTo 309 * Double.quantaPerUnit := by rw [Nat.one_mul]
    _ ≤ d.significand * tenTo d.exponent.toNat * Double.quantaPerUnit :=
        Nat.mul_le_mul_right _ (Nat.mul_le_mul positive (tenTo_le (by omega)))
  have past := Double.le_nearestPlace Nat.one_pos reached
  have same := (Double.nearestPlace_eq_iff Nat.one_pos).mpr
    ((roundsTo_iff_of_nonneg whole).mp rounds)
  omega

/-- The place of the product by which a whole decimal is read: the significand and the power of ten
are rounded before they are multiplied. -/
def productPlace (d : Decimal) : Nat :=
  Double.nearestPlace (Double.quantaAt (Double.wholePlace d.significand) *
    Double.quantaAt (Double.wholePlace (tenTo d.exponent.toNat))) Double.quantaPerUnit

/-- Where rounding makes each of two factors greater by one part in `2 ^ 53` at most, a product that
was two steps below half way behind the last double stays below that. -/
theorem two_mul_mul_lt_of_roundings {a b s t unit step : Nat}
    (left : 2 ^ 53 * a ≤ (2 ^ 53 + 1) * (s * unit)) (right : 2 ^ 53 * b ≤ (2 ^ 53 + 1) * (t * unit))
    (least : 2 * (s * t * unit) ≤ (2 ^ 54 - 5) * step) (positive : 0 < step * unit) :
    2 * (a * b) < (2 ^ 54 - 1) * step * unit := by
  have product := Nat.mul_le_mul left right
  have rounded : 2 ^ 53 * a * (2 ^ 53 * b) = 2 ^ 106 * (a * b) := by ring
  have unrounded : (2 ^ 53 + 1) * (s * unit) * ((2 ^ 53 + 1) * (t * unit)) =
      (2 ^ 53 + 1) ^ 2 * (s * t * unit * unit) := by ring
  have scaled := Nat.mul_le_mul_right unit least
  rw [rounded, unrounded] at product
  rw [Nat.mul_assoc 2, Nat.mul_assoc (2 ^ 54 - 5)] at scaled
  rw [Nat.mul_assoc (2 ^ 54 - 1)]
  omega

/-- Below the last two doubles a whole decimal stays finite, although it is multiplied with two
roundings more than it takes. -/
theorem productPlace_lt (rounds : d.RoundsTo place) (below : place + 3 ≤ Double.placeCount)
    (whole : 0 ≤ d.exponent) : d.productPlace < Double.placeCount := by
  have unit := Double.quantaPerUnit_pos
  have notLast : Double.placeCount - 1 < Double.placeCount := by decide
  refine Nat.lt_of_le_of_lt (Double.nearestPlace_le unit ?_) notLast
  -- The decimal lies five halves of a step or more before the last double.
  have least : 2 * (d.significand * tenTo d.exponent.toNat * Double.quantaPerUnit) ≤
      (2 ^ 54 - 5) * twoTo 2045 := by
    have above := ((roundsTo_iff_of_nonneg whole).mp rounds).above
    have lower : Double.quantaAt place ≤ Double.quantaAt (Double.placeCount - 3) :=
      Double.quantaAt_strictMono.monotone (by omega)
    have upper : Double.quantaAt (place + 1) ≤ Double.quantaAt (Double.placeCount - 2) :=
      Double.quantaAt_strictMono.monotone (by omega)
    have third := Double.quantaAt_placeCount_sub (k := 3) (by decide)
    have second := Double.quantaAt_placeCount_sub (k := 2) (by decide)
    omega
  have last := Double.quantaAt_placeCount_sub (k := 1) (by decide)
  have past := Double.quantaAt_placeCount_sub (Nat.zero_le _)
  have behind : Double.placeCount - 1 + 1 = Double.placeCount - 0 := by decide
  rw [behind, last, past, ← Nat.add_mul]
  exact two_mul_mul_lt_of_roundings (Double.quantaAt_wholePlace_le _)
    (Double.quantaAt_wholePlace_le _) least (Nat.mul_pos (twoTo_pos 2045) unit)

end Decimal

namespace FiniteDouble

variable (x : FiniteDouble) (tiesUp : Bool)

/-- For the last two doubles the product is computed. -/
theorem productPlace_of_last (last : Double.placeCount ≤ x.place + 2) :
    (x.numeral tiesUp).productPlace < Double.placeCount := by
  have computed : ∀ negative tiesUp : Bool,
      (numeral ⟨negative, Double.placeCount - 2, by decide⟩ tiesUp).productPlace <
        Double.placeCount ∧
      (numeral ⟨negative, Double.placeCount - 1, by decide⟩ tiesUp).productPlace <
        Double.placeCount := by
    decide +kernel
  obtain ⟨negative, place, lt⟩ := x
  have known : place = Double.placeCount - 2 ∨ place = Double.placeCount - 1 := by
    have : Double.placeCount ≤ place + 2 := last
    omega
  rcases known with rfl | rfl
  · exact (computed negative tiesUp).1
  · exact (computed negative tiesUp).2

/-- The product is finite that is made when a whole number is read for a double. -/
theorem productPlace_numeral_lt (whole : 0 ≤ (x.numeral tiesUp).exponent) :
    (x.numeral tiesUp).productPlace < Double.placeCount := by
  rcases Nat.lt_or_ge (x.place + 2) Double.placeCount with below | last
  · exact Decimal.productPlace_lt (x.roundsTo_numeral tiesUp) below whole
  · exact x.productPlace_of_last tiesUp last

theorem significand_le_tenTo : (x.numeral tiesUp).significand ≤ tenTo 308 :=
  calc (x.numeral tiesUp).significand
    _ ≤ twoTo 64 := (x.significand_numeral_lt tiesUp).le
    _ ≤ tenTo 20 := by decide
    _ ≤ tenTo 308 := tenTo_le (by decide)

theorem significand_numeral_pos (whole : 0 ≤ (x.numeral tiesUp).exponent) :
    0 < (x.numeral tiesUp).significand := by
  cases zero : x.isZero with
  | false => exact (x.roundsTo_numeral tiesUp).significand_pos (place_pos zero)
  | true =>
    rw [numeral, shortest_of_isZero zero] at whole
    exact absurd whole (by decide)

/-- What is read where a double is written is a finite double. -/
theorem exists_scale_numeral_eq : ∃ y,
    scale (.ofNat (x.numeral tiesUp).significand) (x.numeral tiesUp).exponent = some y := by
  have small := x.significand_le_tenTo tiesUp
  rcases Int.lt_or_le (x.numeral tiesUp).exponent 0 with down | whole
  · rw [Double.ofNat_eq small]
    exact exists_scale_eq_of_neg _ down
  · have le := Decimal.exponent_le_of_roundsTo (x.roundsTo_numeral tiesUp) x.place.isLt
      (x.significand_numeral_pos tiesUp whole) whole
    have lt := x.productPlace_numeral_lt tiesUp whole
    rw [← Int.toNat_of_nonneg whole]
    exact ⟨_, @scale_up _ ⟨_, lt⟩ _ small le rfl⟩

/-- Where the significand and the power of ten are doubles, what is read is the double that was
written. -/
theorem scale_numeral_eq (short : (x.numeral tiesUp).significand ≤ 2 ^ 53)
    (near : (x.numeral tiesUp).exponent.natAbs ≤ 22) :
    scale (.ofNat (x.numeral tiesUp).significand) (x.numeral tiesUp).exponent =
      some ⟨false, x.place⟩ := by
  have unit := Double.quantaPerUnit_pos
  have small := x.significand_le_tenTo tiesUp
  have rounds := x.roundsTo_numeral tiesUp
  generalize x.numeral tiesUp = d at short near small rounds ⊢
  have significand := Double.quantaAt_wholePlace short
  rcases Int.lt_or_le d.exponent 0 with down | whole
  · refine scale_down small (near.trans (by decide)) down ?_
    have power := Double.quantaAt_wholePlace_tenTo near
    have none : d.exponent.toNat = 0 := by omega
    have there : (-d.exponent).toNat = d.exponent.natAbs := by omega
    rw [Decimal.RoundsTo, none, there] at rounds
    rw [significand, power, Double.nearestPlace_mul (tenTo_pos _) unit]
    exact (Double.nearestPlace_eq_iff (tenTo_pos _)).mpr (Nat.mul_one d.significand ▸ rounds)
  · have power := Double.quantaAt_wholePlace_tenTo (e := d.exponent.toNat) (by omega)
    rw [← Int.toNat_of_nonneg whole]
    refine scale_up small (by omega) ?_
    have place := (Double.nearestPlace_eq_iff Nat.one_pos).mpr
      ((Decimal.roundsTo_iff_of_nonneg whole).mp rounds)
    rw [significand, power, ← place]
    generalize Double.quantaPerUnit = q at unit
    rw [← Double.nearestPlace_mul Nat.one_pos unit, Nat.one_mul]
    congr 1
    ring

/-- The double that reading takes the text of a double for. -/
def reread (x : FiniteDouble) : FiniteDouble :=
  match readNumber (x.text Json.doubleFormat).toList with
  | .ok (.real y, _) => y
  | _ => x

/-- A double is read back as a double. -/
theorem readNumber_text_eq (x : FiniteDouble) {rest : List Char} (ends : EndsNumber rest) :
    readNumber ((x.text Json.doubleFormat).toList ++ rest) = .ok (.real x.reread, rest) := by
  obtain ⟨y, scaled⟩ := x.exists_scale_numeral_eq Json.doubleFormat.tiesUp
  have alone := x.readNumber_text Json.doubleFormat Json.endsNumber_nil
  rw [List.append_nil] at alone
  rw [reread, alone, x.readNumber_text Json.doubleFormat ends, realOf, realOf, scaled]

/-- What a double is read back as is its decimal, scaled. -/
theorem reread_eq_of_scale {x y : FiniteDouble}
    (scaled : scale (.ofNat (x.numeral Json.doubleFormat.tiesUp).significand)
      (x.numeral Json.doubleFormat.tiesUp).exponent = some y) :
    x.reread = if x.negative then y.neg else y := by
  have read := x.readNumber_text Json.doubleFormat Json.endsNumber_nil
  rw [readNumber_text_eq x Json.endsNumber_nil, realOf, scaled] at read
  obtain ⟨same, -⟩ := Prod.mk.inj (Except.ok.inj read)
  exact Json.Number.real.inj same

/-- The double behind the one nearest to `1e-24` is read as that one. -/
theorem reread_behind_tiny :
    reread ⟨false, 4247835366853742248, by decide⟩ = ⟨false, 4247835366853742247, by decide⟩ := by
  have decimal : numeral ⟨false, 4247835366853742248, by decide⟩ Json.doubleFormat.tiesUp =
      ⟨10000000000000001, -40⟩ := by decide +kernel
  refine reread_eq_of_scale ?_
  rw [decimal, scale_of_le (by decide)]
  decide +kernel

/-- A double is kept if its digits make a number of 53 bits and the power of ten is one of those
that are doubles. -/
theorem reread_eq_self (x : FiniteDouble)
    (short : (x.numeral Json.doubleFormat.tiesUp).significand ≤ 2 ^ 53)
    (near : (x.numeral Json.doubleFormat.tiesUp).exponent.natAbs ≤ 22) : x.reread = x := by
  rw [reread_eq_of_scale (x.scale_numeral_eq _ short near)]
  obtain ⟨negative, place⟩ := x
  cases negative <;> rfl

end FiniteDouble

end SchemaGrammar
