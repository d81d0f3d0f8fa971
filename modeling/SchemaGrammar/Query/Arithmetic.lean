import SchemaGrammar.Query.Outputs

/-!
# Operators

Operators work on numbers, and some of them on other data: addition appends strings and arrays and
merges objects, with null as a neutral element; subtraction removes items; multiplication repeats
strings and merges objects at all depths; division splits strings.

Integers stay integers, and go on at the other end of their range when they leave it, except that
division always gives a double. Where an operator does not apply, the failure shows literals as the
doubles that they are.
-/

namespace SchemaGrammar.Query

namespace Datum

/-- Splits a text at every place where a nonempty separator stands; `current` holds the piece read
so far, its last character first. -/
def splitPieces (separator : List Char) (current : List Char) (skip : Nat) :
    List Char → List (List Char)
  | [] => [current.reverse]
  | c :: rest =>
    if 0 < skip then splitPieces separator current (skip - 1) rest
    else if separator.isPrefixOf (c :: rest) then
      current.reverse :: splitPieces separator [] (separator.length - 1) rest
    else splitPieces separator (c :: current) 0 rest

/-- The pieces of a string between separators; without a separator, its characters. -/
def splitString (s separator : String) : List Datum :=
  if s.isEmpty then []
  else if separator.isEmpty then s.toList.map fun c => string (String.singleton c)
  else (splitPieces separator.toList [] 0 s.toList).map fun piece => string (String.ofList piece)

mutual
/-- Merges one entry into an object: two objects are merged, anything else is replaced. -/
def mergeEntry (entries : Keyed Datum) (key : String) : Datum → Keyed Datum
  | object more =>
    match entries.lookup key with
    | some (object held) => Keyed.set entries key (object (mergeEntries held more))
    | _ => Keyed.set entries key (object more)
  | d => Keyed.set entries key d
termination_by structural d => d
/-- Merges entries into an object, at all depths. -/
def mergeEntries (entries : Keyed Datum) : List (String × Datum) → Keyed Datum
  | [] => entries
  | (k, d) :: rest => mergeEntries (mergeEntry entries k d) rest
termination_by structural more => more
end

/-- An operation on two numbers, which is one on integers if `whole` says how. -/
def onNumbers (whole : Option (Int → Int → Int)) (rounded : Double → Double → Double)
    (x y : Numeric) : Datum :=
  match whole, x, y with
  | some f, .int i, .int j => ofInt (f i j)
  | _, x, y => double (rounded x.toDouble y.toDouble)

/-- The failure of an operator that does not apply. -/
def cannotCalculate (a : Datum) (operator : Operator) (b : Datum) : Output :=
  .error (.cannotCalculate a.settled operator b.settled)

/-- The sum of two data. -/
def add (a b : Datum) : Output :=
  match a, b with
  | null, d => .ok d
  | d, null => .ok d
  | string s, string t => .ok (string (s ++ t))
  | array xs, array ys => .ok (array (xs ++ ys))
  | object xs, object ys => .ok (object (Keyed.extend xs ys))
  | a, b =>
    match a.numeric?, b.numeric? with
    | some x, some y => .ok (onNumbers (some (· + ·)) .add x y)
    | _, _ => cannotCalculate a .add b

/-- The difference of two data. -/
def sub (a b : Datum) : Output :=
  match a, b with
  | array xs, array ys => .ok (array (xs.filter fun x => !ys.any (x.same ·)))
  | a, b =>
    match a.numeric?, b.numeric? with
    | some x, some y => .ok (onNumbers (some (· - ·)) .sub x y)
    | _, _ => cannotCalculate a .sub b

/-- A string repeated; as often as not at all it is null. -/
def repeatString (s : String) (count : Int) : Datum :=
  if count ≤ 0 then null
  else if s.isEmpty then string s
  else string (String.join (List.replicate count.toNat s))

/-- The product of two data. -/
def mul (a b : Datum) : Output :=
  match a, b with
  | string s, int i => .ok (repeatString s i)
  | int i, string s => .ok (repeatString s i)
  | object xs, object ys => .ok (object (mergeEntries xs ys))
  | a, b =>
    match a.numeric?, b.numeric? with
    | some x, some y => .ok (onNumbers (some (· * ·)) .mul x y)
    | _, _ => cannotCalculate a .mul b

/-- The quotient of two data. -/
def div (a b : Datum) : Output :=
  match a, b with
  | string s, string t => .ok (array (splitString s t))
  | a, b =>
    match a.numeric?, b.numeric? with
    | some x, some y => .ok (onNumbers none .div x y)
    | _, _ => cannotCalculate a .div b

/-- The remainder of two numbers, with the sign of the first. -/
def rem (a b : Datum) : Output :=
  match a.numeric?, b.numeric? with
  | some (.int i), some (.int j) =>
    if j = 0 then cannotCalculate a .rem b else .ok (int (i.tmod j))
  | some x, some y => .ok (onNumbers none .rem x y)
  | _, _ => cannotCalculate a .rem b

/-- What an operator makes of two data. -/
def calculate (operator : Operator) (a b : Datum) : Output :=
  match operator with
  | .add => a.add b
  | .sub => a.sub b
  | .mul => a.mul b
  | .div => a.div b
  | .rem => a.rem b

/-- The number with the opposite sign. -/
def negate (d : Datum) : Output :=
  match d.numeric? with
  | some (.int i) => .ok (ofInt (-i))
  | some (.double x) => .ok (double x.neg)
  | none => .error (.wrongType d "number")

end Datum

end SchemaGrammar.Query
