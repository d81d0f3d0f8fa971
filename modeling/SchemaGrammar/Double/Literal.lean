import SchemaGrammar.Double.Rounding

/-!
# Reading a double from its literal

A literal is an optional sign and then a word for infinity or for not-a-number, in any case, or
digits with an optional point and an optional exponent. A point needs a digit on one of its sides.
The result is the double nearest to the number that is written, infinity if that is too large.
-/

namespace SchemaGrammar

/-- The natural number that digits write. -/
def digitsValue (digits : List Char) : Nat :=
  digits.foldl (fun n c => n * 10 + (c.toNat - '0'.toNat)) 0

namespace Double

/-- The double nearest to `significand * 10 ^ exponent`. Exponents far outside the range of doubles
are answered without computing the power. -/
def ofDecimal (negative : Bool) (significand : Nat) (exponent : Int) : Double :=
  let lead := exponent + (Nat.toDigits 10 significand).length
  if significand = 0 || lead < -400 then ofRatio negative 0 1
  else if lead > 400 then .infinite negative
  else if exponent < 0 then ofRatio negative significand (tenTo exponent.natAbs)
  else ofRatio negative (significand * tenTo exponent.natAbs) 1

/-- The sign in front of a literal, if any, and what follows it. -/
def splitSign : List Char → Bool × List Char
  | '-' :: rest => (true, rest)
  | '+' :: rest => (false, rest)
  | rest => (false, rest)

/-- The exponent at the end of a literal: none at all, or `e`, an optional sign and digits. -/
def readExponent? : List Char → Option Int
  | [] => some 0
  | c :: rest =>
    let (negative, digits) := splitSign rest
    if (c == 'e' || c == 'E') && !digits.isEmpty && digits.all Char.isDigit then
      some (if negative then -(digitsValue digits : Int) else digitsValue digits)
    else none

/-- The number that an unsigned literal of digits writes. -/
def readDigits? (negative : Bool) (text : List Char) : Option Double :=
  let whole := text.takeWhile Char.isDigit
  let (part, rest) := match text.dropWhile Char.isDigit with
    | '.' :: more => (more.takeWhile Char.isDigit, more.dropWhile Char.isDigit)
    | more => ([], more)
  if whole.isEmpty && part.isEmpty then none
  else (readExponent? rest).map fun exponent =>
    ofDecimal negative (digitsValue (whole ++ part)) (exponent - part.length)

/-- The double that a literal writes. -/
def ofLiteral? (text : List Char) : Option Double :=
  let (negative, body) := splitSign text
  let word := String.ofList (body.map Char.toLower)
  if word == "inf" || word == "infinity" then some (.infinite negative)
  else if word == "nan" then some .nan
  else readDigits? negative body

end Double

end SchemaGrammar
