import SchemaGrammar.Double.Shortest
import SchemaGrammar.Proofs.NearestPlace

/-!
# The shortest decimal of a double

The decimal that is found for a double rounds to it (`roundsTo_shortest`). One is always found, since
seventeen digits are enough: with so many the decimals lie closer together than the doubles, and one
of the two next to a double lies on its side of the half way (`isInside_or_isInside_next`).
-/

namespace SchemaGrammar

open Double (quantaAt quantaAt_strictMono quantaAt_steps exists_steps Rounds)

/-- A decimal rounds to a place; it is a ratio of quanta. -/
def Decimal.RoundsTo (d : Decimal) (place : Nat) : Prop :=
  Rounds (d.significand * tenTo d.exponent.toNat * Double.quantaPerUnit)
    (tenTo (-d.exponent).toNat) place

/-- No decimal that is zero rounds to a double that is not. -/
theorem Decimal.RoundsTo.significand_pos {d : Decimal} {place : Nat} (rounds : d.RoundsTo place)
    (positive : 0 < place) : 0 < d.significand := by
  have here : 0 < quantaAt place := quantaAt_strictMono positive
  refine Nat.pos_of_ne_zero fun zero => ?_
  have below := rounds.below
  rw [zero, Nat.zero_mul, Nat.zero_mul] at below
  have wide := Nat.mul_pos (Nat.add_pos_right (quantaAt (place - 1)) here)
    (tenTo_pos (-d.exponent).toNat)
  omega

namespace FiniteDouble

theorem place_pos {x : FiniteDouble} (notZero : x.isZero = false) : 0 < x.place.val :=
  Nat.pos_of_ne_zero (ne_of_beq_false notZero)

/-! ## The grid of decimals -/

/-- The exponent of a decimal with so many digits. -/
def gridExponent (x : FiniteDouble) (count : Nat) : Int :=
  leadingExponent (2 * quantaAt x.place) - count + 1

/-- What the number is multiplied by to count steps of the grid. -/
def gridUp (x : FiniteDouble) (count : Nat) : Nat := tenTo (-x.gridExponent count).toNat

/-- A step of the grid, in half quanta. -/
def gridStep (x : FiniteDouble) (count : Nat) : Nat :=
  2 * Double.quantaPerUnit * tenTo (x.gridExponent count).toNat

/-- The steps of the grid up to the number. -/
def gridBelow (x : FiniteDouble) (count : Nat) : Nat :=
  2 * quantaAt x.place * x.gridUp count / x.gridStep count

/-- Whether a decimal of the grid rounds to the number. -/
def isInside (x : FiniteDouble) (count c : Nat) : Bool :=
  let low := quantaAt (x.place - 1) + quantaAt x.place
  let high := quantaAt x.place + quantaAt (x.place + 1)
  if x.place.val % 2 == 0 then
    low * x.gridUp count ≤ c * x.gridStep count && c * x.gridStep count ≤ high * x.gridUp count
  else low * x.gridUp count < c * x.gridStep count && c * x.gridStep count < high * x.gridUp count

theorem decimalOfLength?_eq (x : FiniteDouble) (tiesUp : Bool) (count : Nat) :
    x.decimalOfLength? tiesUp count =
      match x.isInside count (x.gridBelow count), x.isInside count (x.gridBelow count + 1) with
      | false, false => none
      | true, false => some ⟨x.gridBelow count, x.gridExponent count⟩
      | false, true => some ⟨x.gridBelow count + 1, x.gridExponent count⟩
      | true, true =>
        if 2 * quantaAt x.place * x.gridUp count - x.gridBelow count * x.gridStep count <
              (x.gridBelow count + 1) * x.gridStep count - 2 * quantaAt x.place * x.gridUp count ||
            (2 * quantaAt x.place * x.gridUp count - x.gridBelow count * x.gridStep count ==
              (x.gridBelow count + 1) * x.gridStep count - 2 * quantaAt x.place * x.gridUp count &&
              !tiesUp && x.gridBelow count % 2 == 0) then
          some ⟨x.gridBelow count, x.gridExponent count⟩
        else some ⟨x.gridBelow count + 1, x.gridExponent count⟩ := rfl

section Grid

variable {x : FiniteDouble} {tiesUp : Bool} {count : Nat} {d : Decimal}

theorem rounding_of_isInside {c : Nat} (inside : x.isInside count c = true) :
    (⟨c, x.gridExponent count⟩ : Decimal).RoundsTo x.place := by
  have twice : c * x.gridStep count =
      2 * (c * tenTo (x.gridExponent count).toNat * Double.quantaPerUnit) := by
    rw [gridStep]
    ring
  unfold isInside at inside
  dsimp only at inside
  rw [twice] at inside
  split at inside
  · next even =>
    obtain ⟨below, above⟩ := Bool.and_eq_true_iff.mp inside
    have even := beq_iff_eq.mp even
    exact ⟨(Nat.lt_or_eq_of_le (of_decide_eq_true below)).imp_right fun same => ⟨same, even⟩,
      (Nat.lt_or_eq_of_le (of_decide_eq_true above)).imp_right fun same => ⟨same, even⟩⟩
  · obtain ⟨below, above⟩ := Bool.and_eq_true_iff.mp inside
    exact ⟨.inl (of_decide_eq_true below), .inl (of_decide_eq_true above)⟩

/-- What is found is on the grid, at the number or one step behind it, and rounds to the number. -/
theorem of_decimalOfLength? (found : x.decimalOfLength? tiesUp count = some d) :
    d.RoundsTo x.place ∧ d.significand ≤ x.gridBelow count + 1 ∧
      d.exponent = x.gridExponent count := by
  rw [decimalOfLength?_eq] at found
  split at found
  · cases found
  · next inside _ =>
    obtain rfl := Option.some.inj found
    exact ⟨rounding_of_isInside inside, Nat.le_succ _, rfl⟩
  · next _ inside =>
    obtain rfl := Option.some.inj found
    exact ⟨rounding_of_isInside inside, le_rfl, rfl⟩
  · next inside inside' =>
    split at found
    · obtain rfl := Option.some.inj found
      exact ⟨rounding_of_isInside inside, Nat.le_succ _, rfl⟩
    · obtain rfl := Option.some.inj found
      exact ⟨rounding_of_isInside inside', le_rfl, rfl⟩

end Grid

/-! ## How fine the grid is -/

section Fineness

variable {x : FiniteDouble} {tiesUp : Bool}

/-- The exponent of the first digit bounds the number from both sides. -/
theorem exists_leadingExponent_eq {quanta : Nat} (positive : 0 < quanta) : ∃ digits : Nat,
    leadingExponent (2 * quanta) = digits - 340 ∧
      tenTo digits * Double.quantaPerUnit ≤ quanta * tenTo 340 ∧
      quanta * tenTo 340 < tenTo (digits + 1) * Double.quantaPerUnit := by
  have unit := Double.quantaPerUnit_pos
  have halves : 2 * quanta * tenTo 340 / (2 * Double.quantaPerUnit) =
      quanta * tenTo 340 / Double.quantaPerUnit := by
    rw [Nat.mul_assoc, Nat.mul_div_mul_left _ _ (by decide)]
  have atLeastOne : 1 ≤ quanta * tenTo 340 / Double.quantaPerUnit := by
    refine (Nat.one_le_div_iff unit).mpr (Double.extremes_in_decimal.2.2.trans ?_)
    exact Nat.le_mul_of_pos_left _ positive
  obtain ⟨digits, length⟩ := Nat.exists_eq_add_of_lt
    (Nat.length_toDigits_pos (b := 10) (n := quanta * tenTo 340 / Double.quantaPerUnit))
  rw [Nat.zero_add] at length
  refine ⟨digits, ?_, ?_, ?_⟩
  · rw [leadingExponent, halves, decimalDigits, length]
    omega
  · refine (Nat.le_div_iff_mul_le unit).mp ?_
    rcases Nat.eq_zero_or_pos digits with rfl | positive
    · exact atLeastOne
    · by_contra less
      have short := (Nat.length_toDigits_le_iff (by decide) positive).mpr (Nat.lt_of_not_le less)
      omega
  · refine (Nat.div_lt_iff_lt_mul unit).mp ?_
    exact (Nat.length_toDigits_le_iff (by decide) (Nat.succ_pos digits)).mp length.le

/-- With so many digits the number is less than that power of ten in steps of the grid, and no less
than the power before it. -/
theorem grid_bounds (positive : 0 < x.place.val) (count : Nat) :
    tenTo count * x.gridStep (count + 1) ≤ 2 * quantaAt x.place * x.gridUp (count + 1) ∧
      2 * quantaAt x.place * x.gridUp (count + 1) <
        tenTo (count + 1) * x.gridStep (count + 1) := by
  have notZero : 0 < quantaAt x.place := quantaAt_strictMono positive
  obtain ⟨digits, exponent, low, high⟩ := exists_leadingExponent_eq notZero
  have balance : digits + (-x.gridExponent (count + 1)).toNat =
      count + (x.gridExponent (count + 1)).toNat + 340 := by
    rw [gridExponent, exponent]
    omega
  rw [gridUp, gridStep]
  generalize (-x.gridExponent (count + 1)).toNat = up at balance
  generalize (x.gridExponent (count + 1)).toNat = down at balance
  generalize quantaAt x.place = quanta at low high
  have scale : tenTo digits * tenTo up = tenTo count * tenTo down * tenTo 340 := by
    rw [← tenTo_add, balance, tenTo_add, tenTo_add]
  have ten : tenTo 1 = 10 := rfl
  constructor
  · refine Nat.le_of_mul_le_mul_right ?_ (tenTo_pos 340)
    calc tenTo count * (2 * Double.quantaPerUnit * tenTo down) * tenTo 340
        = 2 * (tenTo digits * Double.quantaPerUnit * tenTo up) := by
          rw [show tenTo digits * Double.quantaPerUnit * tenTo up =
            tenTo digits * tenTo up * Double.quantaPerUnit by ring, scale]
          ring
      _ ≤ 2 * (quanta * tenTo 340 * tenTo up) :=
          Nat.mul_le_mul_left 2 (Nat.mul_le_mul_right _ low)
      _ = 2 * quanta * tenTo up * tenTo 340 := by ring
  · refine Nat.lt_of_mul_lt_mul_right (a := tenTo 340) ?_
    calc 2 * quanta * tenTo up * tenTo 340 = 2 * (quanta * tenTo 340 * tenTo up) := by ring
      _ < 2 * (tenTo (digits + 1) * Double.quantaPerUnit * tenTo up) :=
          Nat.mul_lt_mul_of_pos_left (Nat.mul_lt_mul_of_pos_right high (tenTo_pos up)) (by decide)
      _ = 20 * (tenTo digits * tenTo up * Double.quantaPerUnit) := by
          rw [tenTo_add digits, ten]
          ring
      _ = tenTo (count + 1) * (2 * Double.quantaPerUnit * tenTo down) * tenTo 340 := by
          rw [scale, tenTo_add count, ten]
          ring

theorem gridBelow_lt (positive : 0 < x.place.val) (count : Nat) :
    x.gridBelow (count + 1) < tenTo (count + 1) := by
  have step : 0 < x.gridStep (count + 1) :=
    Nat.mul_pos (Nat.mul_pos (by decide) Double.quantaPerUnit_pos) (tenTo_pos _)
  exact (Nat.div_lt_iff_lt_mul step).mpr (grid_bounds positive count).2

theorem isInside_of_lt {count c : Nat}
    (below : (quantaAt (x.place - 1) + quantaAt x.place) * x.gridUp count < c * x.gridStep count)
    (above : c * x.gridStep count < (quantaAt x.place + quantaAt (x.place + 1)) * x.gridUp count) :
    x.isInside count c = true := by
  unfold isInside
  dsimp only
  split
  · exact Bool.and_eq_true_iff.mpr ⟨decide_eq_true below.le, decide_eq_true above.le⟩
  · exact Bool.and_eq_true_iff.mpr ⟨decide_eq_true below, decide_eq_true above⟩

/-- Of the two decimals of seventeen digits next to a number one rounds to it. -/
theorem isInside_or_isInside_next (positive : 0 < x.place.val) :
    x.isInside 17 (x.gridBelow 17) = true ∨ x.isInside 17 (x.gridBelow 17 + 1) = true := by
  obtain ⟨gap, next, before, behind, gapPositive, wider, far⟩ := Double.exists_gaps positive
  have step : 0 < x.gridStep 17 :=
    Nat.mul_pos (Nat.mul_pos (by decide) Double.quantaPerUnit_pos) (tenTo_pos _)
  have up : 0 < x.gridUp 17 := tenTo_pos _
  have reached : x.gridBelow 17 * x.gridStep 17 ≤ 2 * quantaAt x.place * x.gridUp 17 :=
    Nat.div_mul_le_self _ _
  have passed : 2 * quantaAt x.place * x.gridUp 17 < (x.gridBelow 17 + 1) * x.gridStep 17 :=
    Nat.lt_mul_of_div_lt (Nat.lt_succ_self _) step
  -- Seventeen digits make steps of less than the distance between two doubles.
  have fine : x.gridStep 17 < 2 * (gap * x.gridUp 17) := by
    have many : tenTo 16 * x.gridStep 17 ≤ 2 * quantaAt x.place * x.gridUp 17 :=
      (grid_bounds positive 16).1
    have few : 2 * quantaAt x.place * x.gridUp 17 ≤ 2 * (2 ^ 53 * gap) * x.gridUp 17 :=
      Nat.mul_le_mul_right _ (Nat.mul_le_mul_left 2 far)
    have digits : tenTo 16 = 10 ^ 16 := rfl
    have wide : 0 < gap * x.gridUp 17 := Nat.mul_pos gapPositive up
    rw [show 2 * (2 ^ 53 * gap) * x.gridUp 17 = 2 ^ 54 * (gap * x.gridUp 17) by ring] at few
    rw [digits] at many
    omega
  have low : (quantaAt (x.place - 1) + quantaAt x.place) * x.gridUp 17 + gap * x.gridUp 17 =
      2 * quantaAt x.place * x.gridUp 17 := by
    rw [← Nat.add_mul, Nat.add_right_comm, before, ← Nat.two_mul]
  have high : (quantaAt x.place + quantaAt (x.place + 1)) * x.gridUp 17 =
      2 * quantaAt x.place * x.gridUp 17 + next * x.gridUp 17 := by
    rw [← Nat.add_mul, ← behind, Nat.two_mul, Nat.add_assoc]
  have wider := Nat.mul_le_mul_right (x.gridUp 17) wider
  have wide : 0 < gap * x.gridUp 17 := Nat.mul_pos gapPositive up
  have following : (x.gridBelow 17 + 1) * x.gridStep 17 =
      x.gridBelow 17 * x.gridStep 17 + x.gridStep 17 := Nat.succ_mul _ _
  rcases Nat.lt_or_ge (2 * quantaAt x.place * x.gridUp 17)
    (x.gridBelow 17 * x.gridStep 17 + gap * x.gridUp 17) with near | far
  · exact .inl (isInside_of_lt (by omega) (by omega))
  · exact .inr (isInside_of_lt (by omega) (by omega))

/-- A decimal is found with seventeen digits, if not before. -/
theorem exists_decimalOfLength?_eq (positive : 0 < x.place.val) (tiesUp : Bool) :
    ∃ d, x.decimalOfLength? tiesUp 17 = some d := by
  rw [decimalOfLength?_eq]
  rcases isInside_or_isInside_next positive with inside | inside
  · rw [inside]
    split
    · contradiction
    · exact ⟨_, rfl⟩
    · contradiction
    · split <;> exact ⟨_, rfl⟩
  · rw [inside]
    split
    · contradiction
    · contradiction
    · exact ⟨_, rfl⟩
    · split <;> exact ⟨_, rfl⟩

theorem exists_shortest_eq (positive : 0 < x.place.val) (tiesUp : Bool) :
    ∃ count < 17, x.decimalOfLength? tiesUp (count + 1) = some (x.shortest tiesUp) := by
  obtain ⟨last, found⟩ := exists_decimalOfLength?_eq positive tiesUp
  have notZero : x.isZero = false := beq_false_of_ne positive.ne'
  rw [shortest, notZero]
  cases first : (List.range 17).findSome? fun i => x.decimalOfLength? tiesUp (i + 1) with
  | none =>
    have missing := List.findSome?_eq_none_iff.mp first 16 (List.mem_range.mpr (by decide))
    exact absurd (found.symm.trans missing) (Option.some_ne_none last)
  | some d =>
    obtain ⟨count, mem, found⟩ := List.exists_of_findSome?_eq_some first
    exact ⟨count, List.mem_range.mp mem, found⟩

/-- The shortest decimal of a double rounds to it. -/
theorem roundsTo_shortest (positive : 0 < x.place.val) (tiesUp : Bool) :
    (x.shortest tiesUp).RoundsTo x.place := by
  obtain ⟨count, -, found⟩ := exists_shortest_eq positive tiesUp
  exact (of_decimalOfLength? found).1

/-- The shortest decimal of a double has no more than seventeen digits. -/
theorem significand_shortest_le (positive : 0 < x.place.val) (tiesUp : Bool) :
    (x.shortest tiesUp).significand ≤ tenTo 17 := by
  obtain ⟨count, few, found⟩ := exists_shortest_eq positive tiesUp
  calc (x.shortest tiesUp).significand ≤ x.gridBelow (count + 1) + 1 :=
        (of_decimalOfLength? found).2.1
    _ ≤ tenTo (count + 1) := gridBelow_lt positive count
    _ ≤ tenTo 17 := tenTo_le few

/-- The exponent of the shortest decimal of a double has three digits at most. -/
theorem exponent_shortest_lt (positive : 0 < x.place.val) (tiesUp : Bool) :
    (x.shortest tiesUp).exponent.natAbs < 1000 := by
  obtain ⟨count, few, found⟩ := exists_shortest_eq positive tiesUp
  obtain ⟨digits, leading, low, -⟩ :=
    exists_leadingExponent_eq (quantaAt_strictMono positive : 0 < quantaAt x.place)
  rw [(of_decimalOfLength? found).2.2, gridExponent, leading]
  have short : digits < 1000 := by
    by_contra long
    have least : quantaAt x.place ≤ quantaAt Double.placeCount :=
      quantaAt_strictMono.monotone x.place.isLt.le
    have := calc tenTo 1000 * Double.quantaPerUnit
      _ ≤ tenTo digits * Double.quantaPerUnit :=
          Nat.mul_le_mul_right _ (tenTo_le (Nat.le_of_not_lt long))
      _ ≤ quantaAt x.place * tenTo 340 := low
      _ ≤ tenTo 309 * Double.quantaPerUnit * tenTo 340 :=
          Nat.mul_le_mul_right _ (least.trans Double.extremes_in_decimal.2.1)
      _ = tenTo 649 * Double.quantaPerUnit := by
          rw [Nat.mul_right_comm, ← tenTo_add]
    have less := Nat.le_of_mul_le_mul_right this Double.quantaPerUnit_pos
    exact absurd less (Nat.not_le_of_lt (tenTo_lt (by decide)))
  omega

/-- The shortest decimal of a double other than zero is not zero. -/
theorem significand_shortest_pos (positive : 0 < x.place.val) (tiesUp : Bool) :
    0 < (x.shortest tiesUp).significand :=
  (roundsTo_shortest positive tiesUp).significand_pos positive

end Fineness

end FiniteDouble

end SchemaGrammar
