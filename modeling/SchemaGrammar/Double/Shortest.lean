import SchemaGrammar.Double.Basic

/-!
# The shortest decimal text of a double

`FiniteDouble.shortest` is the decimal with the fewest digits that rounds to the number, and of
those with that many digits the one nearest to it. The reals that round to a double reach half way
to its two neighbours, the ends included exactly if its place is even. A decimal grid with a point
in that interval has one at the number's floor or ceiling on the grid, so the search looks at these
two points for one digit, for two, and so on to seventeen, which always suffice.

`FiniteDouble.text` writes that decimal: positionally from `1e-5` up to, but not including, `1e16`,
and with an exponent elsewhere. Whether a positive exponent has its sign is left to the format that
asks.
-/

namespace SchemaGrammar

/-- The decimal number `significand * 10 ^ exponent`. -/
structure Decimal where
  significand : Nat
  exponent : Int
  deriving DecidableEq, Repr, Inhabited

/-- What formats differ in when they write doubles. -/
structure DoubleFormat where
  /-- The least exponent of a first digit that is written positionally. -/
  leastExponent : Int
  /-- Whether a positive exponent has its sign. -/
  plus : Bool
  /-- Which of two decimals that are equally near is taken: the greater one, or the even one. -/
  tiesUp : Bool
  deriving DecidableEq, Repr

/-- The decimal digits of a natural number. -/
def decimalDigits (n : Nat) : List Char := Nat.toDigits 10 n

namespace FiniteDouble

/-- Twice the magnitude, and the two ends of the interval that rounds to it, in half quanta. -/
def roundingInterval (x : FiniteDouble) : Nat × Nat × Nat :=
  let place := x.place.val
  (Double.quantaAt (place - 1) + Double.quantaAt place,
   2 * Double.quantaAt place,
   Double.quantaAt place + Double.quantaAt (place + 1))

/-- The exponent of the first digit of a positive magnitude, given in half quanta. -/
def leadingExponent (twice : Nat) : Int :=
  (decimalDigits (twice * tenTo 340 / (2 * Double.quantaPerUnit))).length - 341

/-- The decimal of `count` digits in the number's rounding interval that is nearest to it; midway
between two, the greater or the even one. -/
def decimalOfLength? (x : FiniteDouble) (tiesUp : Bool) (count : Nat) : Option Decimal :=
  let (low, twice, high) := x.roundingInterval
  let exponent := leadingExponent twice - count + 1
  let up := tenTo (-exponent).toNat
  let step := 2 * Double.quantaPerUnit * tenTo exponent.toNat
  let below := twice * up / step
  let inside (c : Nat) : Bool :=
    if x.place.val % 2 == 0 then low * up ≤ c * step && c * step ≤ high * up
    else low * up < c * step && c * step < high * up
  let fromBelow := twice * up - below * step
  let fromAbove := (below + 1) * step - twice * up
  match inside below, inside (below + 1) with
  | false, false => none
  | true, false => some ⟨below, exponent⟩
  | false, true => some ⟨below + 1, exponent⟩
  | true, true =>
    if fromBelow < fromAbove || (fromBelow == fromAbove && !tiesUp && below % 2 == 0) then
      some ⟨below, exponent⟩
    else some ⟨below + 1, exponent⟩

/-- The shortest decimal that rounds to the number's magnitude. -/
def shortest (x : FiniteDouble) (tiesUp : Bool) : Decimal :=
  if x.isZero then ⟨0, 0⟩
  else ((List.range 17).findSome? fun i => x.decimalOfLength? tiesUp (i + 1)).getD ⟨0, 0⟩

/-- Digits with a point after the first `count` of them, and a zero where one side is empty. -/
def withPoint (digits : List Char) (count : Nat) : List Char :=
  let whole := digits.take count ++ List.replicate (count - digits.length) '0'
  let part := digits.drop count
  whole ++ '.' :: (if part.isEmpty then ['0'] else part)

/-- The number's text in a format. -/
def text (x : FiniteDouble) (format : DoubleFormat) : String :=
  let decimal := x.shortest format.tiesUp
  let written := decimalDigits decimal.significand
  let lead : Int := decimal.exponent + written.length - 1
  let digits := (written.reverse.dropWhile (· == '0')).reverse
  let magnitude : List Char :=
    if x.isZero then "0.0".toList
    else if 0 ≤ lead && lead ≤ 15 then withPoint digits (lead.toNat + 1)
    else if format.leastExponent ≤ lead && lead < 0 then
      '0' :: '.' :: (List.replicate (-lead - 1).toNat '0' ++ digits)
    else
      digits.take 1 ++ (if digits.length ≤ 1 then [] else '.' :: digits.drop 1) ++
        'e' :: ((if lead < 0 then ['-'] else if format.plus then ['+'] else []) ++
          decimalDigits lead.natAbs)
  String.ofList (if x.negative then '-' :: magnitude else magnitude)

end FiniteDouble

end SchemaGrammar
