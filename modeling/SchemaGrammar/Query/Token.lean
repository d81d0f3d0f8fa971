import SchemaGrammar.Json.Scalar
import SchemaGrammar.Text.Blank

/-!
# Tokens of a query

A query is cut into words, variables, formats, numbers, fields (a point and a name), symbols and
brackets. A run of operator characters is one symbol, but a minus sign only begins one. A string
comes as its characters between two marks, and a filter that is interpolated in it as its tokens
between two marks of their own.

Cutting keeps the open brackets and strings on a stack, so it fails on any that do not match.
-/

namespace SchemaGrammar.Query

/-- A token. -/
inductive Token
  | word (name : String)
  | dollar (name : String)
  | format (name : String)
  | number (text : String)
  | field (name : String)
  | symbol (text : String)
  | opening (bracket : Char)
  | closing (bracket : Char)
  | stringStart
  | stringChar (c : Char)
  | stringEnd
  | interpolationStart
  | interpolationEnd
  deriving DecidableEq, Repr

/-- What is open at some place in a query. -/
inductive Frame
  | bracket (closing : Char)
  | string
  | interpolation
  deriving DecidableEq, Repr

namespace Token

/-- Whether a name may begin with a character. -/
def isNameStart (c : Char) : Bool := c.isAlpha || c == '_'

/-- Whether a name may go on with a character. -/
def isNameChar (c : Char) : Bool := c.isAlphanum || c == '_'

/-- Whether an operator may go on with a character. -/
def isOperatorChar (c : Char) : Bool := "|=!<>+*/%".toList.contains c

/-- What follows a comment: the next line that does not continue it. A line is continued if it ends
with an odd number of backslashes, where one carriage return behind them does not matter. `odd` says
that the line ends with such a number so far, and `held` that it does before its last character, a
carriage return. -/
def skipComment (odd held : Bool) : List Char → List Char
  | [] => []
  | c :: rest =>
    if c == '\n' then if odd || held then skipComment false false rest else rest
    else if c == '\r' then skipComment false odd rest
    else skipComment (c == '\\' && !odd) false rest

/-- The name at the start of a text, and what follows it. -/
def spanName (text : List Char) : String × List Char :=
  (String.ofList (text.takeWhile isNameChar), text.dropWhile isNameChar)

/-- The exponent at the start of a text, if there is one, and what follows it. -/
def spanExponent? (text : List Char) : Option (List Char × List Char) :=
  match text with
  | c :: rest =>
    if c == 'e' || c == 'E' then
      let sign := match rest with
        | '+' :: _ => ['+']
        | '-' :: _ => ['-']
        | _ => []
      let (digits, more) := Json.spanDigits (Json.skipSign rest)
      if digits.isEmpty then none else some (c :: sign ++ digits, more)
    else some ([], text)
  | [] => some ([], [])

/-- The fraction at the start of a text, if there is one, and what follows it. -/
def spanFraction? (text : List Char) : Option (List Char × List Char) :=
  match text with
  | '.' :: rest =>
    let (digits, more) := Json.spanDigits rest
    if digits.isEmpty then none else some ('.' :: digits, more)
  | text => some ([], text)

/-- The number at the start of a text that begins with a digit, and what follows it. A point and the
mark of an exponent need a digit behind them. -/
def spanNumber? (text : List Char) : Option (String × List Char) := do
  let (whole, rest) := Json.spanDigits text
  let (part, rest) ← spanFraction? rest
  let (exponent, rest) ← spanExponent? rest
  some (String.ofList (whole ++ part ++ exponent), rest)

/-- The character for an escape in a string, and what follows it. -/
def readEscape? (text : List Char) : Option (Char × List Char) :=
  match text with
  | 'u' :: rest =>
    match Json.readHex rest with
    | .ok (unit, more) =>
      if Json.isLeading unit || Json.isTrailing unit then none else some (Char.ofNat unit, more)
    | .error _ => none
  | text => (Json.readEscape text).toOption

/-- The bracket that closes an opening one. -/
def closingOf? (c : Char) : Option Char :=
  if c == '(' then some ')' else if c == '[' then some ']' else if c == '{' then some '}' else none

/-- Cuts one token off a text outside of strings: the token, if it is not blank, what is open then,
and what follows. -/
def next? (stack : List Frame) (c : Char) (rest : List Char) :
    Option (Option Token × List Frame × List Char) :=
  if Text.isBlank c then some (none, stack, rest)
  else if c == '#' then some (none, stack, skipComment false false rest)
  else if isNameStart c then
    let (name, more) := spanName rest
    some (some (word (String.singleton c ++ name)), stack, more)
  else if c == '$' || c == '@' then
    let (name, more) := spanName rest
    if (rest.head?.map isNameStart).getD false then
      let name := String.singleton c ++ name
      some (some (if c == '$' then dollar name else format name), stack, more)
    else none
  else if c.isDigit then
    (spanNumber? (c :: rest)).map fun (text, more) => (some (number text), stack, more)
  else if isOperatorChar c || c == '-' then
    let text := String.ofList (c :: rest.takeWhile isOperatorChar)
    some (some (symbol text), stack, rest.dropWhile isOperatorChar)
  else if c == '.' then
    match rest with
    | '.' :: more => some (some (symbol ".."), stack, more)
    | d :: _ =>
      if isNameStart d then
        let (name, more) := spanName rest
        some (some (field name), stack, more)
      else some (some (symbol "."), stack, rest)
    | [] => some (some (symbol "."), stack, [])
  else if c ∈ [',', ':', ';', '?'] then some (some (symbol (String.singleton c)), stack, rest)
  else if c == '"' then some (some stringStart, .string :: stack, rest)
  else
    match closingOf? c, stack with
    | some closer, _ => some (some (opening c), .bracket closer :: stack, rest)
    | none, .bracket closer :: below =>
      if c == closer then some (some (closing c), below, rest) else none
    | none, .interpolation :: below =>
      if c == ')' then some (some interpolationEnd, below, rest) else none
    | none, _ => none

/-- Cuts one token off a text inside of a string. -/
def nextInString? (below : List Frame) (c : Char) (rest : List Char) :
    Option (Option Token × List Frame × List Char) :=
  if c == '"' then some (some stringEnd, below, rest)
  else if c == '\\' then
    match rest with
    | '(' :: more => some (some interpolationStart, .interpolation :: .string :: below, more)
    | rest => (readEscape? rest).map fun (c, more) => (some (stringChar c), .string :: below, more)
  else some (some (stringChar c), .string :: below, rest)

/-- Cuts a text into tokens; `limit` bounds their number. -/
def cut (limit : Nat) (stack : List Frame) (text : List Char) : Option (List Token) :=
  match limit, text with
  | _, [] => if stack.isEmpty then some [] else none
  | 0, _ :: _ => none
  | limit + 1, c :: rest => do
    let (token?, stack, rest) ←
      match stack with
      | .string :: below => nextInString? below c rest
      | stack => next? stack c rest
    let tokens ← cut limit stack rest
    some (token?.toList ++ tokens)

/-- The tokens of a query. Every token takes at least one character. -/
def ofText? (text : String) : Option (List Token) := cut text.length [] text.toList

end Token

end SchemaGrammar.Query
