import SchemaGrammar.Json.Value
import SchemaGrammar.Double.Shortest

/-!
# Writing JSON

The compact form has no blank at all. The pretty form puts each item and each member on a line of
its own, indented by two blanks a level, and writes an empty array or object as two brackets.

In a string the quote, the backslash and the characters below the blank are escaped, those with a
letter of their own by it and the others by four hexadecimal digits. Everything else stands for
itself.
-/

namespace SchemaGrammar.Json

/-- The hexadecimal digit of a number below sixteen, in lower case. -/
def hexDigit (n : Nat) : Char := (Nat.toDigits 16 n).headD '0'

/-- The written form of one character inside a string. -/
def escapeChar (c : Char) : List Char :=
  if c == '"' then ['\\', '"']
  else if c == '\\' then ['\\', '\\']
  else if c == '\n' then ['\\', 'n']
  else if c == '\r' then ['\\', 'r']
  else if c == '\t' then ['\\', 't']
  else if c == '\x08' then ['\\', 'b']
  else if c == '\x0c' then ['\\', 'f']
  else if c.toNat < 0x20 then
    ['\\', 'u', '0', '0', hexDigit (c.toNat / 16), hexDigit (c.toNat % 16)]
  else [c]

/-- A string between its quotes. -/
def writeString (s : String) : List Char :=
  '"' :: (s.toList.flatMap escapeChar ++ ['"'])

/-- Doubles are positional from `1e-5` up, a positive exponent has its sign, and of two decimals that
are equally near the even one is taken. -/
def doubleFormat : DoubleFormat := ⟨-5, true, false⟩

/-- A number: an integer in decimal, a double by its shortest text. -/
def Number.write : Number → List Char
  | .integer i _ => (toString i).toList
  | .real x => (x.text doubleFormat).toList

namespace Value

mutual
/-- The characters of the compact form. -/
def write : Value → List Char
  | .null => "null".toList
  | .bool b => if b then "true".toList else "false".toList
  | .number n => n.write
  | .string s => writeString s
  | .array [] => ['[', ']']
  | .array (v :: rest) => '[' :: (v.write ++ writeMoreItems rest)
  | .object [] => ['{', '}']
  | .object ((k, v) :: rest) => '{' :: (writeString k ++ ':' :: (v.write ++ writeMoreMembers rest))
termination_by structural v => v
/-- What follows an item of an array: the items after it and the closing bracket. -/
def writeMoreItems : List Value → List Char
  | [] => [']']
  | v :: rest => ',' :: (v.write ++ writeMoreItems rest)
termination_by structural items => items
/-- What follows a member of an object: the members after it and the closing bracket. -/
def writeMoreMembers : List Member → List Char
  | [] => ['}']
  | (k, v) :: rest => ',' :: (writeString k ++ ':' :: (v.write ++ writeMoreMembers rest))
termination_by structural members => members
end

/-- The compact form. -/
def compact (v : Value) : String := String.ofList v.write

/-- A line break and the blanks of a level. -/
def lineBreak (level : Nat) : List Char := '\n' :: List.replicate (2 * level) ' '

mutual
/-- The characters of the pretty form of a value whose first line stands at a level. -/
def writePretty (level : Nat) : Value → List Char
  | .null => "null".toList
  | .bool b => if b then "true".toList else "false".toList
  | .number n => n.write
  | .string s => writeString s
  | .array [] => ['[', ']']
  | .array (v :: rest) =>
    '[' :: (lineBreak (level + 1) ++ writePretty (level + 1) v ++ prettyMoreItems level rest)
  | .object [] => ['{', '}']
  | .object ((k, v) :: rest) =>
    '{' :: (lineBreak (level + 1) ++ writeString k ++ ':' :: ' ' ::
      (writePretty (level + 1) v ++ prettyMoreMembers level rest))
termination_by structural v => v
/-- What follows an item, each further item on a line of its own. -/
def prettyMoreItems (level : Nat) : List Value → List Char
  | [] => lineBreak level ++ [']']
  | v :: rest =>
    ',' :: (lineBreak (level + 1) ++ writePretty (level + 1) v ++ prettyMoreItems level rest)
termination_by structural items => items
/-- What follows a member, each further member on a line of its own. -/
def prettyMoreMembers (level : Nat) : List Member → List Char
  | [] => lineBreak level ++ ['}']
  | (k, v) :: rest =>
    ',' :: (lineBreak (level + 1) ++ writeString k ++ ':' :: ' ' ::
      (writePretty (level + 1) v ++ prettyMoreMembers level rest))
termination_by structural members => members
end

/-- The pretty form. -/
def pretty (v : Value) : String := String.ofList (v.writePretty 0)

end Value

end SchemaGrammar.Json
