import SchemaGrammar.Double.Rounding
import SchemaGrammar.Keyed

/-!
# JSON values

A value is a tree whose objects keep their members in the order in which they were written. A
number is an integer of 64 bits, signed or unsigned, or a finite double.

A tree may name a key twice in one object. `Value.merged` gives the tree in which every key stands
once, at its first place and with its last value. Functions that recurse through a value come as
one function on values with one helper for a list of items and one for a list of members.
-/

namespace SchemaGrammar.Json

/-- The least integer that is kept as one. -/
def minInteger : Int := -9223372036854775808

/-- The greatest integer that is kept as one. -/
def maxInteger : Int := 18446744073709551615

/-- A number: an integer in range or a finite double. -/
inductive Number
  | integer (i : Int) (fits : minInteger ≤ i ∧ i ≤ maxInteger)
  | real (x : FiniteDouble)
  deriving DecidableEq, Repr

namespace Number

instance : Inhabited Number := ⟨.integer 0 (by decide)⟩

/-- The integer as a number, if it is in range. -/
def ofInt? (i : Int) : Option Number :=
  if fits : minInteger ≤ i ∧ i ≤ maxInteger then some (.integer i fits) else none

/-- The double nearest to the number. -/
def toDouble : Number → Double
  | .integer i _ => .ofInt i
  | .real x => .finite x

end Number

/-- A JSON value. -/
inductive Value
  | null
  | bool (b : Bool)
  | number (n : Number)
  | string (s : String)
  | array (items : List Value)
  | object (members : List (String × Value))
  deriving Repr, Inhabited

/-- A key of an object with its value. -/
abbrev Member := String × Value

namespace Value

/-- The member of an object under a key. -/
def get? (key : String) : Value → Option Value
  | .object members => members.lookup key
  | _ => none

/-- The text of a string value. -/
def asString? : Value → Option String
  | .string s => some s
  | _ => none

/-- The items of an array value. -/
def asArray? : Value → Option (List Value)
  | .array items => some items
  | _ => none

/-- The members of an object value. -/
def asObject? : Value → Option (List Member)
  | .object members => some members
  | _ => none

/-- The word for the kind of a value. -/
def kind : Value → String
  | .null => "null"
  | .bool _ => "boolean"
  | .number _ => "number"
  | .string _ => "string"
  | .array _ => "array"
  | .object _ => "object"

mutual
/-- The value with repeated keys merged in every object. -/
def merged : Value → Value
  | .array items => .array (mergedItems items)
  | .object members => .object (Keyed.extend [] (mergedMembers members))
  | .null => .null
  | .bool b => .bool b
  | .number n => .number n
  | .string s => .string s
termination_by structural v => v
/-- Merges repeated keys inside every item. -/
def mergedItems : List Value → List Value
  | [] => []
  | v :: rest => v.merged :: mergedItems rest
termination_by structural items => items
/-- Merges repeated keys inside every member's value. -/
def mergedMembers : List Member → List Member
  | [] => []
  | (k, v) :: rest => (k, v.merged) :: mergedMembers rest
termination_by structural members => members
end

end Value

end SchemaGrammar.Json
