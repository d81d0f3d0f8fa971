/-!
# Doubles

A binary64 number is held by its *place*: the non-negative finite doubles in ascending order are
numbered from zero, and a finite double is such a number with a sign. The place is at once the
pattern of the number's low 63 bits and the key of its order, and its value is a whole number of
quanta, one quantum being the least positive double, `2 ^ -1074`. So every question about a finite
double is one about natural numbers.

`Double.sortKey` is the order used for ranks: negative infinity first, the two zeros together,
infinity next to last, and all not-a-numbers together at the end.
-/

namespace SchemaGrammar

/-- The powers of two, by their exponents. -/
def twoTo (exponent : Nat) : Nat := 1 <<< exponent

/-- The powers of ten, by their exponents. -/
def tenTo (exponent : Nat) : Nat := Nat.pow 10 exponent

/-- How many finite doubles are not negative. -/
def Double.placeCount : Nat := 2047 * twoTo 52

/-- A finite double: its sign and the place of its magnitude. -/
structure FiniteDouble where
  negative : Bool
  place : Fin Double.placeCount
  deriving DecidableEq, Repr

/-- A binary64 number. Not-a-numbers are not told apart. -/
inductive Double
  | finite (x : FiniteDouble)
  | infinite (negative : Bool)
  | nan
  deriving DecidableEq, Repr

namespace FiniteDouble

theorem place_zero_lt : 0 < Double.placeCount := by decide

/-- The zero with a sign. -/
def zeroOf (negative : Bool) : FiniteDouble := ⟨negative, 0, place_zero_lt⟩

/-- Positive zero. -/
def zero : FiniteDouble := zeroOf false

instance : Inhabited FiniteDouble := ⟨zero⟩

/-- The number with the opposite sign. -/
def neg (x : FiniteDouble) : FiniteDouble := { x with negative := !x.negative }

/-- Whether the number is one of the two zeros. -/
def isZero (x : FiniteDouble) : Bool := x.place.val == 0

end FiniteDouble

namespace Double

instance : Inhabited Double := ⟨.finite .zero⟩

/-- The magnitude at a place, in quanta. The formula goes on past the last finite place. -/
def quantaAt (place : Nat) : Nat :=
  let octave := place / twoTo 52
  if octave = 0 then place else (place % twoTo 52 + twoTo 52) * twoTo (octave - 1)

/-- How many quanta make one. -/
def quantaPerUnit : Nat := twoTo 1074

/-- The bit pattern; a not-a-number has the quiet one. -/
def toBits : Double → UInt64
  | .finite x => UInt64.ofNat ((if x.negative then twoTo 63 else 0) + x.place)
  | .infinite negative => UInt64.ofNat ((if negative then twoTo 63 else 0) + placeCount)
  | .nan => 0x7ff8000000000000

/-- The key by which ranks are ordered. -/
def sortKey : Double → Int
  | .finite x => if x.negative then -x.place.val else x.place.val
  | .infinite negative => if negative then -placeCount else placeCount
  | .nan => placeCount + 1

/-- The number with the opposite sign. -/
def neg : Double → Double
  | .finite x => .finite x.neg
  | .infinite negative => .infinite (!negative)
  | .nan => .nan

/-- The number without its sign. -/
def abs : Double → Double
  | .finite x => .finite { x with negative := false }
  | .infinite _ => .infinite false
  | .nan => .nan

/-- Whether the number is not-a-number. -/
def isNaN : Double → Bool
  | .nan => true
  | _ => false

/-- Positive infinity. -/
def infinity : Double := .infinite false

end Double

namespace FiniteDouble

/-- The magnitude in quanta. -/
def quanta (x : FiniteDouble) : Nat := Double.quantaAt x.place

/-- The value in quanta, with its sign. -/
def signedQuanta (x : FiniteDouble) : Int := if x.negative then -x.quanta else x.quanta

end FiniteDouble

end SchemaGrammar
