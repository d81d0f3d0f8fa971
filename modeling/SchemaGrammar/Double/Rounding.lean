import SchemaGrammar.Double.Basic

/-!
# Rounding to doubles and arithmetic

`Double.nearest` takes a ratio of two natural numbers, in quanta, to the double next to it; a ratio
midway between two goes to the one with the even place. Past the last finite place lies infinity.

Arithmetic is exact arithmetic on quanta followed by one such rounding, so every operation here is
the correctly rounded one.
-/

namespace SchemaGrammar

/-- The natural number nearest to a ratio; midway, the even one. -/
def roundHalfEven (num den : Nat) : Nat :=
  let q := num / den
  let r := num % den
  if 2 * r < den then q
  else if 2 * r = den then q + q % 2
  else q + 1

namespace Double

/-- The place nearest to `num / den` quanta. It may lie past the last finite one. -/
def nearestPlace (num den : Nat) : Nat :=
  let shift := (num / den).log2 - 52
  shift * twoTo 52 + roundHalfEven num (den * twoTo shift)

/-- The double at a place; past the last finite place it is infinite. -/
def atPlace (negative : Bool) (place : Nat) : Double :=
  if h : place < placeCount then .finite ⟨negative, place, h⟩ else .infinite negative

/-- The double nearest to `num / den` quanta, with a sign. -/
def nearest (negative : Bool) (num den : Nat) : Double :=
  atPlace negative (nearestPlace num den)

/-- The double nearest to a ratio of natural numbers, with a sign. -/
def ofRatio (negative : Bool) (num den : Nat) : Double :=
  nearest negative (num * quantaPerUnit) den

/-- The double nearest to a natural number. -/
def ofNat (n : Nat) : Double := ofRatio false n 1

/-- The double nearest to an integer. -/
def ofInt (i : Int) : Double := ofRatio (i < 0) i.natAbs 1

/-- The double nearest to a power of ten. -/
def powerOfTen (e : Nat) : Double := ofRatio false (tenTo e) 1

/-- The sum. Two numbers that cancel give positive zero. -/
def add : Double → Double → Double
  | .nan, _ | _, .nan => .nan
  | .infinite s, .infinite t => if s == t then .infinite s else .nan
  | .infinite s, .finite _ | .finite _, .infinite s => .infinite s
  | .finite x, .finite y =>
    let sum := x.signedQuanta + y.signedQuanta
    let negative := if sum = 0 then x.negative && y.negative else sum < 0
    nearest negative sum.natAbs 1

/-- The difference. -/
def sub (x y : Double) : Double := x.add y.neg

/-- The product. -/
def mul : Double → Double → Double
  | .nan, _ | _, .nan => .nan
  | .infinite s, .infinite t => .infinite (s != t)
  | .infinite s, .finite y | .finite y, .infinite s =>
    if y.isZero then .nan else .infinite (s != y.negative)
  | .finite x, .finite y =>
    nearest (x.negative != y.negative) (x.quanta * y.quanta) quantaPerUnit

/-- The quotient. -/
def div : Double → Double → Double
  | .nan, _ | _, .nan => .nan
  | .infinite _, .infinite _ => .nan
  | .infinite s, .finite y => .infinite (s != y.negative)
  | .finite x, .infinite s => .finite (.zeroOf (x.negative != s))
  | .finite x, .finite y =>
    if y.isZero then if x.isZero then .nan else .infinite (x.negative != y.negative)
    else ofRatio (x.negative != y.negative) x.quanta y.quanta

/-- The remainder of a division whose quotient is cut toward zero; it has the sign of the
dividend. -/
def rem : Double → Double → Double
  | .nan, _ | _, .nan => .nan
  | .infinite _, _ => .nan
  | .finite x, .infinite _ => .finite x
  | .finite x, .finite y =>
    if y.isZero then .nan else nearest x.negative (x.quanta % y.quanta) 1

/-- Whether two numbers are equal; not-a-number equals nothing. -/
def eq : Double → Double → Bool
  | .nan, _ | _, .nan => false
  | x, y => x.sortKey == y.sortKey

end Double

end SchemaGrammar
