import Mathlib.Order.Monotone.Basic
import Mathlib.Tactic.Ring
import SchemaGrammar.Double.Rounding

/-!
# Rounding takes a ratio to the nearest double

The doubles ascend with their places (`quantaAt_strictMono`). A ratio rounds to a place if it lies
no farther than half way from there to the places next to it, and half way only if the place is even
(`Rounds`). There is just one such place (`Rounds.unique`), and it is the one that is computed
(`nearestPlace_eq_iff`). So a double rounds to itself, and what rounds to one is told by
inequalities.
-/

namespace SchemaGrammar

/-! ## Powers of two and of ten -/

theorem twoTo_eq (exponent : Nat) : twoTo exponent = 2 ^ exponent := Nat.one_shiftLeft exponent

theorem twoTo_pos (exponent : Nat) : 0 < twoTo exponent := by
  rw [twoTo_eq]
  exact Nat.two_pow_pos exponent

theorem twoTo_le {m n : Nat} (le : m ≤ n) : twoTo m ≤ twoTo n := by
  rw [twoTo_eq, twoTo_eq]
  exact Nat.pow_le_pow_right Nat.two_pos le

theorem tenTo_pos (exponent : Nat) : 0 < tenTo exponent := Nat.pow_pos (by decide)

theorem tenTo_add (m n : Nat) : tenTo (m + n) = tenTo m * tenTo n := Nat.pow_add 10 m n

theorem tenTo_le {m n : Nat} (le : m ≤ n) : tenTo m ≤ tenTo n := Nat.pow_le_pow_right (by decide) le

theorem tenTo_lt {m n : Nat} (lt : m < n) : tenTo m < tenTo n := Nat.pow_lt_pow_right (by decide) lt

theorem Double.quantaPerUnit_pos : 0 < Double.quantaPerUnit := twoTo_pos 1074

/-! ## Rounding to a whole number -/

/-- Rounding moves by no more than a half, and by a half only to an even number. -/
theorem roundHalfEven_spec (num : Nat) {den : Nat} (positive : 0 < den) :
    (2 * num < (2 * roundHalfEven num den + 1) * den ∨
      2 * num = (2 * roundHalfEven num den + 1) * den ∧ roundHalfEven num den % 2 = 0) ∧
    (2 * roundHalfEven num den * den < 2 * num + den ∨
      2 * roundHalfEven num den * den = 2 * num + den ∧ roundHalfEven num den % 2 = 0) := by
  have parts := Nat.div_add_mod num den
  have small := Nat.mod_lt num positive
  unfold roundHalfEven
  dsimp only
  generalize num / den = q at parts
  generalize num % den = r at parts small
  have whole : 2 * q * den = 2 * (den * q) := by ring
  have half : (2 * q + 1) * den = 2 * (den * q) + den := by ring
  have next : 2 * (q + 1) * den = 2 * (den * q) + 2 * den := by ring
  have nextHalf : (2 * (q + 1) + 1) * den = 2 * (den * q) + 3 * den := by ring
  split
  · omega
  · split
    · rcases Nat.mod_two_eq_zero_or_one q with even | odd
      · rw [even, q.add_zero]
        omega
      · rw [odd]
        omega
    · omega

namespace Double

/-! ## Places in ascending order -/

/-- Within an octave the magnitudes are equally far apart, and so are they up to the next one. -/
theorem quantaAt_steps {octave steps : Nat} (low : octave = 0 ∨ 2 ^ 52 ≤ steps)
    (high : steps ≤ 2 ^ 53) : quantaAt (octave * 2 ^ 52 + steps) = steps * 2 ^ octave := by
  unfold quantaAt
  simp only [twoTo_eq]
  rcases Nat.lt_or_ge steps (2 ^ 52) with less | atLeast
  · obtain rfl : octave = 0 := by omega
    rw [if_pos (by omega)]
    omega
  · rcases high.lt_or_eq with less | rfl
    · have inOctave : (octave * 2 ^ 52 + steps) / 2 ^ 52 = octave + 1 := by omega
      have behind : (octave * 2 ^ 52 + steps) % 2 ^ 52 + 2 ^ 52 = steps := by omega
      rw [inOctave, behind, if_neg (Nat.succ_ne_zero octave), Nat.add_sub_cancel]
    · have inOctave : (octave * 2 ^ 52 + 2 ^ 53) / 2 ^ 52 = octave + 2 := by omega
      have behind : (octave * 2 ^ 52 + 2 ^ 53) % 2 ^ 52 + 2 ^ 52 = 2 ^ 52 := by omega
      rw [inOctave, behind, if_neg (Nat.succ_ne_zero _), show octave + 2 - 1 = octave + 1 from rfl]
      ring

/-- Every place lies some steps behind the beginning of an octave. -/
theorem exists_steps (place : Nat) : ∃ octave steps, place = octave * 2 ^ 52 + steps ∧
    (octave = 0 ∨ 2 ^ 52 ≤ steps) ∧ steps < 2 ^ 53 := by
  rcases Nat.lt_or_ge place (2 ^ 52) with less | atLeast
  · exact ⟨0, place, by omega⟩
  · exact ⟨place / 2 ^ 52 - 1, place % 2 ^ 52 + 2 ^ 52, by omega⟩

/-- Where an octave ends, the next magnitude is twice as far away. -/
theorem le_quantaAt_next {octave steps : Nat} (low : octave = 0 ∨ 2 ^ 52 ≤ steps)
    (high : steps ≤ 2 ^ 53) :
    (steps + 1) * 2 ^ octave ≤ quantaAt (octave * 2 ^ 52 + steps + 1) := by
  rcases high.lt_or_eq with less | rfl
  · rw [Nat.add_assoc, quantaAt_steps (by omega) less]
  · have place : octave * 2 ^ 52 + 2 ^ 53 + 1 = (octave + 1) * 2 ^ 52 + (2 ^ 52 + 1) := by omega
    rw [place, quantaAt_steps (by omega) (by omega)]
    calc (2 ^ 53 + 1) * 2 ^ octave ≤ ((2 ^ 52 + 1) * 2) * 2 ^ octave :=
          Nat.mul_le_mul_right _ (by omega)
      _ = (2 ^ 52 + 1) * 2 ^ (octave + 1) := by ring

theorem quantaAt_strictMono : StrictMono quantaAt := by
  refine strictMono_nat_of_lt_succ fun place => ?_
  obtain ⟨octave, steps, rfl, low, high⟩ := exists_steps place
  rw [Nat.add_assoc, quantaAt_steps low high.le, quantaAt_steps (by omega) high]
  exact Nat.mul_lt_mul_of_pos_right (Nat.lt_succ_self steps) (Nat.two_pow_pos octave)

/-- The distances to the places next to one: the one behind is no nearer than the one before, and
the magnitude is `2 ^ 53` such distances at most. -/
theorem exists_gaps {place : Nat} (positive : 0 < place) : ∃ gap next,
    quantaAt (place - 1) + gap = quantaAt place ∧ quantaAt place + next = quantaAt (place + 1) ∧
      0 < gap ∧ gap ≤ next ∧ quantaAt place ≤ 2 ^ 53 * gap := by
  obtain ⟨octave, steps, rfl, low, high⟩ := exists_steps place
  have here := quantaAt_steps low high.le
  have behind : quantaAt (octave * 2 ^ 52 + steps + 1) = (steps + 1) * 2 ^ octave := by
    rw [Nat.add_assoc, quantaAt_steps (by omega) high]
  by_cases inside : octave = 0 ∨ 2 ^ 52 < steps
  · have before : quantaAt (octave * 2 ^ 52 + steps - 1) = (steps - 1) * 2 ^ octave := by
      rw [Nat.add_sub_assoc (by omega), quantaAt_steps (by omega) (by omega)]
    refine ⟨2 ^ octave, 2 ^ octave, ?_, ?_, Nat.two_pow_pos octave, le_rfl, ?_⟩
    · rw [before, here, ← Nat.succ_mul, Nat.succ_eq_add_one, Nat.sub_add_cancel (by omega)]
    · rw [behind, here, Nat.succ_mul]
    · rw [here]
      exact Nat.mul_le_mul_right _ high.le
  · -- The places before the first one of an octave are half as far apart.
    obtain ⟨earlier, rfl⟩ := Nat.exists_eq_add_one_of_ne_zero (fun zero => inside (.inl zero))
    obtain rfl : steps = 2 ^ 52 := by omega
    have before : quantaAt ((earlier + 1) * 2 ^ 52 + 2 ^ 52 - 1) = (2 ^ 53 - 1) * 2 ^ earlier := by
      rw [show (earlier + 1) * 2 ^ 52 + 2 ^ 52 - 1 = earlier * 2 ^ 52 + (2 ^ 53 - 1) by omega,
        quantaAt_steps (.inr (by decide)) (by decide)]
    have octave : 2 ^ (earlier + 1) = 2 * 2 ^ earlier := Nat.pow_succ'
    refine ⟨2 ^ earlier, 2 ^ (earlier + 1), ?_, ?_, Nat.two_pow_pos earlier, ?_, ?_⟩
    · rw [before, here]
      omega
    · rw [behind, here, Nat.succ_mul]
    · omega
    · rw [here]
      omega

/-! ## Ratios that round to a place -/

/-- A ratio rounds to a place: it is not farther from there than half way to the places next to it,
and half way only if the place is even. -/
structure Rounds (num den place : Nat) : Prop where
  below : (quantaAt (place - 1) + quantaAt place) * den < 2 * num ∨
    (quantaAt (place - 1) + quantaAt place) * den = 2 * num ∧ place % 2 = 0
  above : 2 * num < (quantaAt place + quantaAt (place + 1)) * den ∨
    2 * num = (quantaAt place + quantaAt (place + 1)) * den ∧ place % 2 = 0

section Rounds

variable {num den place other : Nat}

/-- No ratio rounds to two places. -/
theorem Rounds.unique (positive : 0 < den) (rounds : Rounds num den place)
    (rounds' : Rounds num den other) : place = other := by
  have apart {p q : Nat} (less : p < q) (above : Rounds num den p) (below : Rounds num den q) :
      False := by
    have lower : quantaAt p ≤ quantaAt (q - 1) := quantaAt_strictMono.monotone (by omega)
    have upper : quantaAt (p + 1) ≤ quantaAt q := quantaAt_strictMono.monotone (by omega)
    have between : (quantaAt p + quantaAt (p + 1)) * den ≤ (quantaAt (q - 1) + quantaAt q) * den :=
      Nat.mul_le_mul_right den (Nat.add_le_add lower upper)
    -- The ratio is half way between the two, which are neighbours and not both even.
    have halfWay : (quantaAt p + quantaAt (p + 1)) * den = (quantaAt (q - 1) + quantaAt q) * den ∧
        p % 2 = 0 ∧ q % 2 = 0 := by
      have := above.above
      have := below.below
      omega
    have same := Nat.eq_of_mul_eq_mul_right positive halfWay.1
    have next : p = q - 1 := quantaAt_strictMono.injective (by omega)
    omega
  rcases Nat.lt_trichotomy place other with less | same | greater
  · exact (apart less rounds rounds').elim
  · exact same
  · exact (apart greater rounds' rounds).elim

/-- A ratio lies in the octave from which its place is counted. -/
theorem exists_octave (num : Nat) (positive : 0 < den) : ∃ octave,
    nearestPlace num den = octave * 2 ^ 52 + roundHalfEven num (den * 2 ^ octave) ∧
      num < 2 ^ 53 * (den * 2 ^ octave) ∧ (octave = 0 ∨ 2 ^ 52 * (den * 2 ^ octave) ≤ num) := by
  have scaled (k octave : Nat) : 2 ^ (k + octave) * den = 2 ^ k * (den * 2 ^ octave) := by ring
  refine ⟨(num / den).log2 - 52, ?_, ?_, ?_⟩
  · rw [nearestPlace, twoTo_eq, twoTo_eq]
  · calc num < (num / den + 1) * den := Nat.lt_mul_of_div_lt (Nat.lt_succ_self _) positive
      _ ≤ 2 ^ (53 + ((num / den).log2 - 52)) * den := by
          refine Nat.mul_le_mul_right den (Nat.succ_le_of_lt (Nat.lt_log2_self.trans_le ?_))
          exact Nat.pow_le_pow_right (by decide) (by omega)
      _ = 2 ^ 53 * (den * 2 ^ ((num / den).log2 - 52)) := scaled _ _
  · rcases Nat.lt_or_ge 52 (num / den).log2 with high | low
    · have notZero : num / den ≠ 0 := by
        intro zero
        rw [zero] at high
        exact absurd high (by decide)
      refine .inr ?_
      calc 2 ^ 52 * (den * 2 ^ ((num / den).log2 - 52))
          = 2 ^ (num / den).log2 * den := by rw [← scaled, Nat.add_sub_cancel' high.le]
        _ ≤ num / den * den := Nat.mul_le_mul_right den (Nat.log2_self_le notZero)
        _ ≤ num := Nat.div_mul_le_self num den
    · exact .inl (Nat.sub_eq_zero_of_le low)

/-- The steps that are counted do not leave the octave. -/
theorem exists_nearestPlace_eq (num : Nat) (positive : 0 < den) : ∃ octave steps,
    nearestPlace num den = octave * 2 ^ 52 + steps ∧
      steps = roundHalfEven num (den * 2 ^ octave) ∧ (octave = 0 ∨ 2 ^ 52 ≤ steps) ∧
      steps ≤ 2 ^ 53 ∧ (octave = 0 ∨ 2 ^ 52 * (den * 2 ^ octave) ≤ num) := by
  obtain ⟨octave, place, high, low⟩ := exists_octave num positive
  obtain ⟨notBelow, notAbove⟩ :=
    roundHalfEven_spec num (Nat.mul_pos positive (Nat.two_pow_pos octave))
  refine ⟨octave, _, place, rfl, ?_, ?_, low⟩
  · refine low.imp_right fun atLeast => ?_
    by_contra less
    have : (2 * roundHalfEven num (den * 2 ^ octave) + 1) * (den * 2 ^ octave) ≤
        (2 ^ 53 - 1) * (den * 2 ^ octave) := Nat.mul_le_mul_right _ (by omega)
    omega
  · by_contra more
    have : 2 * (2 ^ 53 + 1) * (den * 2 ^ octave) ≤
        2 * roundHalfEven num (den * 2 ^ octave) * (den * 2 ^ octave) :=
      Nat.mul_le_mul_right _ (by omega)
    omega

/-- The place that is computed is the one to which the ratio rounds. -/
theorem rounds_nearestPlace (num : Nat) (positive : 0 < den) :
    Rounds num den (nearestPlace num den) := by
  obtain ⟨octave, steps, place, counted, stepsLow, stepsHigh, low⟩ :=
    exists_nearestPlace_eq num positive
  obtain ⟨notBelow, notAbove⟩ :=
    roundHalfEven_spec num (Nat.mul_pos positive (Nat.two_pow_pos octave))
  rw [← counted] at notBelow notAbove
  rw [place]
  have here := quantaAt_steps stepsLow stepsHigh
  constructor
  · rcases steps with _ | fewer
    · obtain rfl : octave = 0 := by omega
      have zero : quantaAt 0 = 0 := rfl
      simp only [Nat.zero_mul, Nat.add_zero, Nat.zero_sub, zero, and_true]
      omega
    · by_cases atStart : octave ≠ 0 ∧ fewer + 1 = 2 ^ 52
      · -- The place before is nearer, but the ratio does not lie below this one.
        rw [atStart.2] at here ⊢
        have before : quantaAt (octave * 2 ^ 52 + 2 ^ 52 - 1) <
            quantaAt (octave * 2 ^ 52 + 2 ^ 52) := quantaAt_strictMono (by omega)
        have lower : (quantaAt (octave * 2 ^ 52 + 2 ^ 52 - 1) +
            quantaAt (octave * 2 ^ 52 + 2 ^ 52)) * den <
              2 * quantaAt (octave * 2 ^ 52 + 2 ^ 52) * den :=
          Nat.mul_lt_mul_of_pos_right (by omega) positive
        have reached : 2 * quantaAt (octave * 2 ^ 52 + 2 ^ 52) * den =
            2 * (2 ^ 52 * (den * 2 ^ octave)) := by rw [here]; ring
        omega
      · have before : quantaAt (octave * 2 ^ 52 + (fewer + 1) - 1) = fewer * 2 ^ octave := by
          rw [← Nat.add_assoc, Nat.add_sub_cancel, quantaAt_steps (by omega) (by omega)]
        have halfWay : (fewer * 2 ^ octave + (fewer + 1) * 2 ^ octave) * den =
            (2 * fewer + 1) * (den * 2 ^ octave) := by ring
        have next : 2 * (fewer + 1) * (den * 2 ^ octave) =
            (2 * fewer + 1) * (den * 2 ^ octave) + den * 2 ^ octave := by ring
        rw [before, here]
        omega
  · have next := Nat.mul_le_mul_right den
      (Nat.add_le_add here.ge (le_quantaAt_next stepsLow stepsHigh))
    have halfWay : (steps * 2 ^ octave + (steps + 1) * 2 ^ octave) * den =
        (2 * steps + 1) * (den * 2 ^ octave) := by ring
    omega

theorem nearestPlace_eq_iff (positive : 0 < den) :
    nearestPlace num den = place ↔ Rounds num den place :=
  ⟨fun same => same ▸ rounds_nearestPlace num positive,
    fun rounds => (rounds_nearestPlace num positive).unique positive rounds⟩

/-- A ratio is the same when both its sides are multiplied. -/
theorem Rounds.scale (rounds : Rounds num den place) {factor : Nat} (positive : 0 < factor) :
    Rounds (num * factor) (den * factor) place := by
  have twice : 2 * (num * factor) = 2 * num * factor := by ring
  obtain ⟨below, above⟩ := rounds
  constructor
  · rw [twice, ← Nat.mul_assoc]
    exact below.imp (fun less => Nat.mul_lt_mul_of_pos_right less positive)
      (And.imp_left (congrArg (· * factor)))
  · rw [twice, ← Nat.mul_assoc]
    exact above.imp (fun less => Nat.mul_lt_mul_of_pos_right less positive)
      (And.imp_left (congrArg (· * factor)))

theorem nearestPlace_mul (positive : 0 < den) {factor : Nat} (positive' : 0 < factor) :
    nearestPlace (num * factor) (den * factor) = nearestPlace num den :=
  (nearestPlace_eq_iff (Nat.mul_pos positive positive')).mpr
    ((rounds_nearestPlace num positive).scale positive')

/-- A double rounds to itself. -/
theorem nearestPlace_quantaAt (place : Nat) (positive : 0 < den) :
    nearestPlace (quantaAt place * den) den = place := by
  refine (nearestPlace_eq_iff positive).mpr ⟨?_, .inl ?_⟩
  · rcases place with _ | place
    · exact .inr ⟨by rw [show quantaAt 0 = 0 from rfl]; ring, rfl⟩
    · have before : quantaAt place < quantaAt (place + 1) := quantaAt_strictMono place.lt_succ_self
      have := Nat.mul_lt_mul_of_pos_right before positive
      refine .inl ?_
      rw [Nat.add_sub_cancel, Nat.add_mul]
      omega
  · have next : quantaAt place < quantaAt (place + 1) := quantaAt_strictMono (Nat.lt_succ_self _)
    have := Nat.mul_lt_mul_of_pos_right next positive
    rw [Nat.add_mul]
    omega

/-- What lies less than half way behind a place rounds no farther. -/
theorem nearestPlace_le (positive : 0 < den)
    (less : 2 * num < (quantaAt place + quantaAt (place + 1)) * den) :
    nearestPlace num den ≤ place := by
  by_contra farther
  have lower : quantaAt place ≤ quantaAt (nearestPlace num den - 1) :=
    quantaAt_strictMono.monotone (by omega)
  have upper : quantaAt (place + 1) ≤ quantaAt (nearestPlace num den) :=
    quantaAt_strictMono.monotone (by omega)
  have between := Nat.mul_le_mul_right den (Nat.add_le_add lower upper)
  have := (rounds_nearestPlace num positive).below
  omega

/-- Rounding passes no double. -/
theorem nearestPlace_le_of_le (positive : 0 < den) (le : num ≤ quantaAt place * den) :
    nearestPlace num den ≤ place := by
  refine nearestPlace_le positive ?_
  have next : quantaAt place < quantaAt (place + 1) := quantaAt_strictMono (Nat.lt_succ_self _)
  have := Nat.mul_lt_mul_of_pos_right next positive
  rw [Nat.add_mul]
  omega

theorem le_nearestPlace (positive : 0 < den) (le : quantaAt place * den ≤ num) :
    place ≤ nearestPlace num den := by
  by_contra nearer
  have lower : quantaAt (nearestPlace num den) < quantaAt place := quantaAt_strictMono (by omega)
  have upper : quantaAt (nearestPlace num den + 1) ≤ quantaAt place :=
    quantaAt_strictMono.monotone (by omega)
  have below : (quantaAt (nearestPlace num den) + quantaAt (nearestPlace num den + 1)) * den <
      2 * quantaAt place * den := Nat.mul_lt_mul_of_pos_right (by omega) positive
  have := (rounds_nearestPlace num positive).above
  rw [Nat.mul_assoc] at below
  omega

/-- From `2 ^ 52` quanta on, rounding makes a ratio greater by one part in `2 ^ 53` at most. -/
theorem quantaAt_nearestPlace_le (positive : 0 < den) (normal : 2 ^ 52 * den ≤ num) :
    2 ^ 53 * (quantaAt (nearestPlace num den) * den) ≤ (2 ^ 53 + 1) * num := by
  obtain ⟨octave, steps, place, counted, stepsLow, stepsHigh, low⟩ :=
    exists_nearestPlace_eq num positive
  have notAbove := (roundHalfEven_spec num (Nat.mul_pos positive (Nat.two_pow_pos octave))).2
  have magnitude : quantaAt (nearestPlace num den) * den = steps * (den * 2 ^ octave) := by
    rw [place, quantaAt_steps stepsLow stepsHigh]
    ring
  have small : 2 ^ 52 * (den * 2 ^ octave) ≤ num := by
    rcases low with rfl | small
    · simpa using normal
    · exact small
  rw [← counted, Nat.mul_assoc 2] at notAbove
  rw [magnitude]
  omega

/-- Every natural number of up to 53 bits is a double, and so is it shifted to the left. -/
theorem exists_quantaAt_eq {n : Nat} (short : n ≤ 2 ^ 53) (shift : Nat) :
    ∃ place, quantaAt place = n * 2 ^ shift := by
  induction shift generalizing n with
  | zero => exact ⟨n, by rw [← quantaAt_steps (.inl rfl) short]; simp⟩
  | succ shift ih =>
    rcases Nat.lt_or_ge n (2 ^ 52) with less | atLeast
    · obtain ⟨place, same⟩ := @ih (2 * n) (by omega)
      exact ⟨place, by rw [same]; ring⟩
    · exact ⟨_, quantaAt_steps (.inr atLeast) short⟩

end Rounds

/-! ## Natural numbers -/

/-- The place of a natural number. -/
def wholePlace (n : Nat) : Nat := nearestPlace (n * quantaPerUnit) 1

/-- A natural number of up to 53 bits, shifted to the left or not, is its double. -/
theorem quantaAt_wholePlace_shift {n : Nat} (short : n ≤ 2 ^ 53) (shift : Nat) :
    quantaAt (wholePlace (n * 2 ^ shift)) = n * 2 ^ shift * quantaPerUnit := by
  obtain ⟨place, same⟩ := exists_quantaAt_eq short (shift + 1074)
  have whole : n * 2 ^ shift * quantaPerUnit = quantaAt place * 1 := by
    rw [same, Nat.mul_one, quantaPerUnit, twoTo_eq, Nat.pow_add, Nat.mul_assoc]
  rw [wholePlace, whole, nearestPlace_quantaAt place Nat.one_pos, Nat.mul_one]

theorem quantaAt_wholePlace {n : Nat} (short : n ≤ 2 ^ 53) :
    quantaAt (wholePlace n) = n * quantaPerUnit := by
  have shifted := quantaAt_wholePlace_shift short 0
  rwa [Nat.pow_zero, Nat.mul_one] at shifted

/-! ## The extremes -/

/-- The greatest doubles have 309 digits in front of the decimal point, the least double other than
zero has less than 340 behind it. -/
theorem extremes_in_decimal : tenTo 308 * quantaPerUnit ≤ quantaAt (placeCount - 1) ∧
    quantaAt placeCount ≤ tenTo 309 * quantaPerUnit ∧ quantaPerUnit ≤ tenTo 340 := by
  decide +kernel

/-- The magnitudes within the last octave. -/
theorem quantaAt_placeCount_sub {k : Nat} (near : k ≤ 2 ^ 52) :
    quantaAt (placeCount - k) = (2 ^ 53 - k) * twoTo 2045 := by
  have place : placeCount - k = 2045 * 2 ^ 52 + (2 ^ 53 - k) := by
    have count : placeCount = 2047 * 2 ^ 52 := rfl
    omega
  rw [place, twoTo_eq]
  exact quantaAt_steps (.inr (by omega)) (by omega)

theorem wholePlace_lt_placeCount {n : Nat} (le : n ≤ tenTo 308) : wholePlace n < placeCount := by
  have notLast : placeCount - 1 < placeCount := by decide
  refine Nat.lt_of_le_of_lt (nearestPlace_le_of_le Nat.one_pos ?_) notLast
  rw [Nat.mul_one]
  exact (Nat.mul_le_mul_right _ le).trans extremes_in_decimal.1

end Double

end SchemaGrammar
