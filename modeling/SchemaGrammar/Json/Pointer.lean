import SchemaGrammar.Json.Value
import SchemaGrammar.Double.Literal
import SchemaGrammar.Text.Split

/-!
# JSON pointers

A pointer is empty, for the whole value, or a list of tokens each behind a slash. A token names a
key, or an item by its index in decimal without a sign and without leading zeros. In a token `~1`
stands for a slash and `~0` for a tilde; the first is resolved before the second, and any other
tilde stands for itself.
-/

namespace SchemaGrammar.Json.Pointer

/-- Puts `sign` in place of a tilde followed by `digit`. -/
def resolve (digit sign : Char) : List Char → List Char
  | '~' :: c :: rest =>
    if c == digit then sign :: resolve digit sign rest else '~' :: resolve digit sign (c :: rest)
  | c :: rest => c :: resolve digit sign rest
  | [] => []

/-- The text that a token stands for. -/
def unescape (token : List Char) : List Char := resolve '0' '~' (resolve '1' '/' token)

/-- The tokens of a pointer. -/
def tokens? : List Char → Option (List String)
  | [] => some []
  | '/' :: rest => some ((Text.split '/' rest).map fun token => String.ofList (unescape token))
  | _ => none

/-- The index that a token writes. -/
def index? (token : String) : Option Nat :=
  match token.toList with
  | [] => none
  | '0' :: _ :: _ => none
  | digits => if digits.all Char.isDigit then some (digitsValue digits) else none

/-- The value that one token selects. -/
def select? (v : Value) (token : String) : Option Value :=
  match v with
  | .object members => members.lookup token
  | .array items => (index? token).bind (items[·]?)
  | _ => none

end Pointer

/-- The value that a pointer selects. -/
def Value.pointer? (v : Value) (pointer : String) : Option Value :=
  (Pointer.tokens? pointer.toList).bind fun tokens => tokens.foldlM Pointer.select? v

end SchemaGrammar.Json
