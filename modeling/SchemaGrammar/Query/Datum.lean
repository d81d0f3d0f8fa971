import SchemaGrammar.Json.Writer
import SchemaGrammar.Double.Literal

/-!
# The values a query works on

A query works on JSON values whose numbers come in three forms: integers of 64 bits, doubles, and
numbers of which only the literal is known. A literal stays as it is written until it is computed
with, and then it is the double nearest to it (`Datum.settled`).

All data are ordered: null, the booleans, numbers, strings, arrays, objects. Arrays are compared
item by item, and objects by their keys in order first and by the values under them after that. The
order is not total on numbers: not-a-number is less than every number, itself included.
-/

namespace SchemaGrammar.Query

open Json (Value Number)

/-- A value that a query works on. -/
inductive Datum
  | null
  | bool (b : Bool)
  | int (i : Int)
  | double (x : Double)
  | literal (text : String)
  | string (s : String)
  | array (items : List Datum)
  | object (entries : List (String × Datum))
  deriving Inhabited, Repr

namespace Datum

/-- The least integer that is kept as one. -/
def minInt : Int := -9223372036854775808

/-- The greatest integer that is kept as one. -/
def maxInt : Int := 9223372036854775807

/-- Whether an integer is kept as one. -/
def fitsInt (i : Int) : Bool := minInt ≤ i && i ≤ maxInt

/-- The result of an operation on integers, which goes on at the other end of their range. -/
def ofInt (i : Int) : Datum := int (i.bmod (twoTo 64))

/-- The number that a literal in decimal writes. -/
def ofLiteral (text : String) : Datum :=
  match text.toList with
  | '-' :: digits =>
    if !digits.isEmpty && digits.all Char.isDigit && fitsInt (-(digitsValue digits : Int)) then
      int (-(digitsValue digits : Int))
    else literal text
  | digits =>
    if !digits.isEmpty && digits.all Char.isDigit && fitsInt (digitsValue digits) then
      int (digitsValue digits)
    else literal text

/-- A number of a document. One that is no integer of 64 bits is kept as its text. -/
def ofNumber (n : Number) : Datum :=
  match n with
  | .integer i _ => if fitsInt i then int i else literal (String.ofList n.write)
  | .real _ => literal (String.ofList n.write)

mutual
/-- The datum for a value. -/
def ofValue : Value → Datum
  | .null => null
  | .bool b => bool b
  | .number n => ofNumber n
  | .string s => string s
  | .array items => array (ofItems items)
  | .object members => object (ofMembers members)
termination_by structural v => v
/-- The data for items. -/
def ofItems : List Value → List Datum
  | [] => []
  | v :: rest => ofValue v :: ofItems rest
termination_by structural items => items
/-- The data for members. -/
def ofMembers : List (String × Value) → List (String × Datum)
  | [] => []
  | (k, v) :: rest => (k, ofValue v) :: ofMembers rest
termination_by structural members => members
end

/-! ## Text -/

/-- How one character of a string is written. -/
def writeChar (c : Char) : List Char :=
  if c == '"' || c == '\\' then ['\\', c]
  else if c == '\n' then ['\\', 'n']
  else if c == '\r' then ['\\', 'r']
  else if c == '\t' then ['\\', 't']
  else if c.toNat < 0x20 then
    ['\\', 'u', '0', '0', Json.hexDigit (c.toNat / 16), Json.hexDigit (c.toNat % 16)]
  else [c]

/-- How a string is written. -/
def writeString (s : String) : List Char := '"' :: (s.toList.flatMap writeChar ++ ['"'])

/-- Doubles are positional from `1e-4` up, a positive exponent has no sign, and of two decimals that
are equally near the greater one is taken. -/
def doubleFormat : DoubleFormat := ⟨-4, false, true⟩

/-- How a double is written. What is not finite becomes null. -/
def writeDouble : Double → List Char
  | .finite x => (x.text doubleFormat).toList
  | _ => "null".toList

mutual
/-- The characters of a datum's text. -/
def write : Datum → List Char
  | null => "null".toList
  | bool b => if b then "true".toList else "false".toList
  | int i => (toString i).toList
  | double x => writeDouble x
  | literal text => text.toList
  | string s => writeString s
  | array [] => ['[', ']']
  | array (d :: rest) => '[' :: (d.write ++ writeMoreItems rest)
  | object [] => ['{', '}']
  | object ((k, d) :: rest) => '{' :: (writeString k ++ ':' :: (d.write ++ writeMoreEntries rest))
termination_by structural d => d
/-- What follows an item of an array. -/
def writeMoreItems : List Datum → List Char
  | [] => [']']
  | d :: rest => ',' :: (d.write ++ writeMoreItems rest)
termination_by structural items => items
/-- What follows an entry of an object. -/
def writeMoreEntries : List (String × Datum) → List Char
  | [] => ['}']
  | (k, d) :: rest => ',' :: (writeString k ++ ':' :: (d.write ++ writeMoreEntries rest))
termination_by structural entries => entries
end

/-- The text of a datum. -/
def text (d : Datum) : String := String.ofList d.write

/-- A string itself, and the text of anything else. -/
def shownText : Datum → String
  | string s => s
  | d => d.text

/-! ## Kinds -/

/-- Whether a datum counts as true: all but null and false do. -/
def isTrue : Datum → Bool
  | null => false
  | bool b => b
  | _ => true

/-- The word for the type of a datum. -/
def typeName : Datum → String
  | null => "null"
  | bool _ => "boolean"
  | int _ | double _ | literal _ => "number"
  | string _ => "string"
  | array _ => "array"
  | object _ => "object"

/-- The double that a literal writes. -/
def literalValue (text : String) : Double := (Double.ofLiteral? text.toList).getD .nan

/-- The datum with its double in the place of a literal. -/
def settled : Datum → Datum
  | literal text => double (literalValue text)
  | d => d

/-- A number, as an integer or as a double. -/
inductive Numeric
  | int (i : Int)
  | double (x : Double)

/-- The double nearest to a number. -/
def Numeric.toDouble : Numeric → Double
  | .int i => .ofInt i
  | .double x => x

/-- The number that a datum is, if it is one. -/
def numeric? : Datum → Option Numeric
  | int i => some (.int i)
  | double x => some (.double x)
  | literal text => some (.double (literalValue text))
  | _ => none

/-! ## Order -/

/-- The order of doubles, in which not-a-number is less than everything. -/
def compareDoubles (x y : Double) : Ordering :=
  if x.isNaN then .lt else if y.isNaN then .gt else compare x.sortKey y.sortKey

/-- The order of numbers. -/
def compareNumbers : Numeric → Numeric → Ordering
  | .int i, .int j => compare i j
  | x, y => compareDoubles x.toDouble y.toDouble

/-- The place of a type in the order. -/
def typeRank : Datum → Nat
  | null => 0
  | bool _ => 1
  | int _ | double _ | literal _ => 2
  | string _ => 3
  | array _ => 4
  | object _ => 5

mutual
/-- The datum with the keys of every object in ascending order. -/
def sortKeys : Datum → Datum
  | array items => array (sortKeysItems items)
  | object entries => object ((sortKeysEntries entries).mergeSort fun p q => p.1 ≤ q.1)
  | null => null
  | bool b => bool b
  | int i => int i
  | double x => double x
  | literal text => literal text
  | string s => string s
termination_by structural d => d
/-- Sorts the keys inside every item. -/
def sortKeysItems : List Datum → List Datum
  | [] => []
  | d :: rest => d.sortKeys :: sortKeysItems rest
termination_by structural items => items
/-- Sorts the keys inside every entry. -/
def sortKeysEntries : List (String × Datum) → List (String × Datum)
  | [] => []
  | (k, d) :: rest => (k, d.sortKeys) :: sortKeysEntries rest
termination_by structural entries => entries
end

/-- The order of lists of keys. -/
def compareKeys : List String → List String → Ordering
  | [], [] => .eq
  | [], _ :: _ => .lt
  | _ :: _, [] => .gt
  | a :: as, b :: bs => (compare a b).then (compareKeys as bs)

mutual
/-- The order of data whose keys are sorted. -/
def compareSorted : Datum → Datum → Ordering
  | bool a, bool b => compare a b
  | string a, string b => compare a b
  | array as, array bs => compareItems as bs
  | object as, object bs =>
    (compareKeys (as.map Prod.fst) (bs.map Prod.fst)).then (compareValues as bs)
  | a, b =>
    match a.numeric?, b.numeric? with
    | some x, some y => compareNumbers x y
    | _, _ => compare a.typeRank b.typeRank
termination_by structural a => a
/-- The order of lists of data. -/
def compareItems : List Datum → List Datum → Ordering
  | [], [] => .eq
  | [], _ :: _ => .lt
  | _ :: _, [] => .gt
  | a :: as, b :: bs => (compareSorted a b).then (compareItems as bs)
termination_by structural as => as
/-- The order of the values of entries. -/
def compareValues : List (String × Datum) → List (String × Datum) → Ordering
  | [], [] => .eq
  | [], _ :: _ => .lt
  | _ :: _, [] => .gt
  | (_, a) :: as, (_, b) :: bs => (compareSorted a b).then (compareValues as bs)
termination_by structural as => as
end

/-- The order of data. -/
def order (a b : Datum) : Ordering := compareSorted a.sortKeys b.sortKeys

/-- Whether two data are equal. Not-a-number is not equal to itself, nor is what holds it. -/
def same (a b : Datum) : Bool := a.order b == .eq

/-! ## Identity -/

mutual
/-- Whether two data are the same in every respect. -/
def identical : Datum → Datum → Bool
  | null, null => true
  | bool a, bool b => a == b
  | int i, int j => i == j
  | double x, double y => x == y
  | literal s, literal t => s == t
  | string s, string t => s == t
  | array as, array bs => identicalItems as bs
  | object as, object bs => identicalEntries as bs
  | _, _ => false
termination_by structural a => a
/-- Whether the items of two lists are the same. -/
def identicalItems : List Datum → List Datum → Bool
  | [], [] => true
  | a :: as, b :: bs => identical a b && identicalItems as bs
  | _, _ => false
termination_by structural as => as
/-- Whether the entries of two objects are the same, and in the same order. -/
def identicalEntries : List (String × Datum) → List (String × Datum) → Bool
  | [], [] => true
  | (k, a) :: as, (l, b) :: bs => k == l && identical a b && identicalEntries as bs
  | _, _ => false
termination_by structural as => as
end

/-- Whether something is one and the same array or object, seen twice. -/
def isOne (a b : Datum) : Bool :=
  match a with
  | array _ | object _ => identical a b
  | _ => false

end Datum

end SchemaGrammar.Query
