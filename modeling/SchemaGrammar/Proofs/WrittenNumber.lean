import SchemaGrammar.Json.Writer
import SchemaGrammar.Proofs.JsonGrammar
import SchemaGrammar.Proofs.ShortestDecimal
import Mathlib.Data.List.DropRight

/-!
# What is written for a number is one

The text of an integer and the text of a finite double are numbers of the grammar
(`Number.isNumber_write`). For an integer this is that decimal digits do not begin with a zero
unless there is only one. A double is written from the digits of its shortest decimal, in one of
four layouts. Each of them needs a first digit other than zero, so the point is that the significand
is never zero unless the double is (`significand_shortest_pos`).
-/

namespace SchemaGrammar

open Json

/-! ## Decimal digits -/

theorem isDigit_of_mem_decimalDigits {n : Nat} {c : Char} (mem : c ∈ decimalDigits n) :
    c.isDigit = true :=
  Nat.isDigit_of_mem_toDigits (by decide) (by decide) mem

/-- The digits of a positive number do not begin with a zero. -/
theorem exists_decimalDigits_eq_cons (n : Nat) (positive : 0 < n) :
    ∃ c digits, decimalDigits n = c :: digits ∧ c ≠ '0' := by
  induction n using Nat.strongRecOn with
  | ind n ih =>
    unfold decimalDigits
    by_cases small : n < 10
    · refine ⟨n.digitChar, [], Nat.toDigits_of_lt_base small, ?_⟩
      exact (by decide : ∀ n < 10, 0 < n → n.digitChar ≠ '0') n small positive
    · obtain ⟨c, digits, same, notZero⟩ := ih (n / 10) (by omega) (by omega)
      refine ⟨c, digits ++ [(n % 10).digitChar], ?_, notZero⟩
      rw [Nat.toDigits_of_base_le (by decide) (Nat.not_lt.mp small)]
      exact congrArg (· ++ [(n % 10).digitChar]) same

theorem isWhole_decimalDigits (n : Nat) : IsWhole (decimalDigits n) := by
  rcases Nat.eq_zero_or_pos n with rfl | positive
  · exact .zero
  · obtain ⟨c, digits, same, notZero⟩ := exists_decimalDigits_eq_cons n positive
    have areDigits : ∀ d ∈ c :: digits, d.isDigit = true :=
      fun d mem => isDigit_of_mem_decimalDigits (same ▸ mem)
    rw [same]
    exact .positive (areDigits c List.mem_cons_self) notZero
      fun d mem => areDigits d (List.mem_cons_of_mem c mem)

/-! ## Doubles -/

namespace FiniteDouble

/-- Dropping zeros at the end keeps a first digit that is not one. -/
theorem rdropWhile_zero_eq_cons {c : Char} {digits : List Char} (notZero : c ≠ '0') :
    ∃ kept, (c :: digits).rdropWhile (· == '0') = c :: kept ∧ ∀ d ∈ kept, d ∈ digits := by
  have shorter := List.rdropWhile_prefix (· == '0') (l := c :: digits)
  cases kept : (c :: digits).rdropWhile (· == '0') with
  | nil =>
    have allZero := List.rdropWhile_eq_nil_iff.mp kept c List.mem_cons_self
    exact absurd (beq_iff_eq.mp allZero) notZero
  | cons d kept' =>
    rw [kept] at shorter
    obtain ⟨rfl, keptShorter⟩ := List.cons_prefix_cons.mp shorter
    exact ⟨kept', rfl, fun d mem => keptShorter.mem mem⟩

/-- A text that is a number with and without a sign. -/
def IsMagnitude (text : List Char) : Prop := ∀ sign ∈ [[], ['-']], IsNumber (sign ++ text)

theorem isMagnitude_of_parts {whole fraction exponent : List Char} (isWhole : IsWhole whole)
    (isFraction : IsFraction fraction) (isExponent : IsExponent exponent) :
    IsMagnitude (whole ++ (fraction ++ exponent)) :=
  fun _ isSign => .intro isSign isWhole isFraction isExponent

/-- Digits with a point among them or behind them, taken apart at the point. -/
theorem exists_withPoint_eq {c : Char} {digits : List Char} (notZero : c ≠ '0')
    (areDigits : ∀ d ∈ c :: digits, d.isDigit = true) (count : Nat) : ∃ whole part,
      withPoint (c :: digits) (count + 1) = whole ++ '.' :: part ∧ IsWhole whole ∧ part ≠ [] ∧
        (∀ d ∈ part, d.isDigit = true) ∧
        whole = (c :: digits).take (count + 1) ++
          List.replicate (count + 1 - (c :: digits).length) '0' ∧
        ((c :: digits).length ≤ count + 1 ∧ part = ['0'] ∨
          count + 1 < (c :: digits).length ∧ part = (c :: digits).drop (count + 1)) := by
  have isWhole : IsWhole ((c :: digits).take (count + 1) ++
      List.replicate (count + 1 - (c :: digits).length) '0') := by
    rw [List.take_succ_cons, List.cons_append]
    refine .positive (areDigits c List.mem_cons_self) notZero fun d mem => ?_
    rcases List.mem_append.mp mem with mem | mem
    · exact areDigits d (List.mem_cons_of_mem c (List.mem_of_mem_take mem))
    · rw [List.eq_of_mem_replicate mem]
      decide
  by_cases le : (c :: digits).length ≤ count + 1
  · have empty : ((c :: digits).drop (count + 1)).isEmpty = true :=
      List.isEmpty_iff.mpr (List.drop_eq_nil_iff.mpr le)
    refine ⟨_, ['0'], ?_, isWhole, List.cons_ne_nil '0' [], List.forall_mem_singleton.mpr rfl, rfl,
      .inl ⟨le, rfl⟩⟩
    rw [withPoint, if_pos empty]
  · have notEmpty : (c :: digits).drop (count + 1) ≠ [] := mt List.drop_eq_nil_iff.mp le
    refine ⟨_, _, ?_, isWhole, notEmpty, fun d mem => areDigits d (List.mem_of_mem_drop mem), rfl,
      .inr ⟨Nat.lt_of_not_le le, rfl⟩⟩
    rw [withPoint, if_neg (mt List.isEmpty_iff.mp notEmpty)]

theorem isMagnitude_withPoint {c : Char} {digits : List Char} (notZero : c ≠ '0')
    (areDigits : ∀ d ∈ c :: digits, d.isDigit = true) (count : Nat) :
    IsMagnitude (withPoint (c :: digits) (count + 1)) := by
  obtain ⟨whole, part, same, isWhole, notEmpty, areDigits, -⟩ :=
    exists_withPoint_eq notZero areDigits count
  have parts := isMagnitude_of_parts isWhole (.some notEmpty areDigits) .none
  rwa [List.append_nil, ← same] at parts

/-- Digits behind a zero and a point. -/
theorem isMagnitude_below_one {digits : List Char} (notEmpty : digits ≠ [])
    (areDigits : ∀ d ∈ digits, d.isDigit = true) (zeros : Nat) :
    IsMagnitude ('0' :: '.' :: (List.replicate zeros '0' ++ digits)) := by
  have isFraction : IsFraction ('.' :: (List.replicate zeros '0' ++ digits)) := by
    refine .some (fun empty => notEmpty (List.append_eq_nil_iff.mp empty).2) fun d mem => ?_
    rcases List.mem_append.mp mem with mem | mem
    · rw [List.eq_of_mem_replicate mem]
      decide
    · exact areDigits d mem
  have parts := isMagnitude_of_parts .zero isFraction .none
  rwa [List.append_nil] at parts

/-- One digit, the others behind a point if there are any, and an exponent. -/
theorem isMagnitude_withExponent {c : Char} {digits : List Char} (notZero : c ≠ '0')
    (areDigits : ∀ d ∈ c :: digits, d.isDigit = true) {sign : List Char}
    (isSign : sign ∈ [[], ['+'], ['-']]) (n : Nat) :
    IsMagnitude ((c :: digits).take 1 ++
      (if (c :: digits).length ≤ 1 then [] else '.' :: (c :: digits).drop 1) ++
        'e' :: (sign ++ decimalDigits n)) := by
  have isWhole : IsWhole [c] := .positive (areDigits c List.mem_cons_self) notZero nofun
  have isFraction : IsFraction
      (if (c :: digits).length ≤ 1 then [] else '.' :: (c :: digits).drop 1) := by
    split
    · exact .none
    · next several =>
      refine .some (fun empty => several ?_) fun d mem => areDigits d (List.mem_of_mem_drop mem)
      exact List.drop_eq_nil_iff.mp empty
  have isExponent : IsExponent ('e' :: (sign ++ decimalDigits n)) :=
    .some (by decide) isSign Nat.toDigits_ne_nil fun d mem => isDigit_of_mem_decimalDigits mem
  rw [List.append_assoc]
  exact isMagnitude_of_parts isWhole isFraction isExponent

theorem isMagnitude_zero : IsMagnitude ['0', '.', '0'] :=
  isMagnitude_of_parts .zero (.some (List.cons_ne_nil '0' []) (List.forall_mem_singleton.mpr rfl)) .none

/-- The text of a double is a number, in every format. -/
theorem isNumber_text (x : FiniteDouble) (format : DoubleFormat) :
    IsNumber (x.text format).toList := by
  have signed : ∀ {text : List Char}, IsMagnitude text →
      IsNumber (if x.negative = true then '-' :: text else text) := by
    intro text isMagnitude
    split
    · exact isMagnitude ['-'] (by decide)
    · exact isMagnitude [] (by decide)
  unfold text
  dsimp only
  rw [String.toList_ofList]
  refine signed ?_
  cases zero : x.isZero with
  | true => exact isMagnitude_zero
  | false =>
    have positive := significand_shortest_pos (place_pos zero) format.tiesUp
    generalize x.shortest format.tiesUp = decimal at positive
    obtain ⟨c, digits, written, notZero⟩ := exists_decimalDigits_eq_cons _ positive
    obtain ⟨kept, stripped, among⟩ := @rdropWhile_zero_eq_cons c digits notZero
    have areDigits : ∀ d ∈ c :: kept, d.isDigit = true := by
      intro d mem
      have inWritten : d ∈ c :: digits := by
        rcases List.mem_cons.mp mem with rfl | mem
        · exact List.mem_cons_self
        · exact List.mem_cons_of_mem c (among d mem)
      exact isDigit_of_mem_decimalDigits (written ▸ inWritten)
    rw [List.rdropWhile] at stripped
    rw [written, stripped]
    split
    · contradiction
    split
    · exact isMagnitude_withPoint notZero areDigits _
    split
    · exact isMagnitude_below_one (List.cons_ne_nil c kept) areDigits _
    · refine isMagnitude_withExponent notZero areDigits ?_ _
      split
      · decide
      · split <;> decide

end FiniteDouble

/-! ## Numbers -/

namespace Json

/-- The text of an integer: its sign, if it is negative, and its digits. -/
theorem toList_toString (i : Int) :
    (toString i).toList = (if i < 0 then ['-'] else []) ++ decimalDigits i.natAbs := by
  cases i with
  | ofNat n => exact Nat.toList_repr
  | negSucc n =>
    rw [show toString (Int.negSucc n) = "-" ++ (n + 1).repr from rfl, String.toList_append,
      Nat.toList_repr, if_pos (Int.negSucc_lt_zero n)]
    rfl

/-- The text of a number is a number. -/
theorem Number.isNumber_write (n : Number) : IsNumber n.write := by
  cases n with
  | integer i _ =>
    have parts := FiniteDouble.isMagnitude_of_parts (isWhole_decimalDigits i.natAbs) .none .none
    rw [List.append_nil, List.append_nil] at parts
    rw [Number.write, toList_toString]
    split
    · exact parts ['-'] (by decide)
    · exact parts [] (by decide)
  | real x => exact x.isNumber_text doubleFormat

end Json

end SchemaGrammar
