/-!
# Why and where a JSON text does not read

A failure has a cause and a place. The place is given by how many bytes of the text are still
unread there, so a reader that works on what is left of a text needs no counter: it stands either
behind what it has taken (`Failure.behind`) or on the byte it stumbles over, which then counts as
read (`Failure.facing`). A line and a column are worked out of that number for messages only;
columns count the bytes since the last line feed.
-/

namespace SchemaGrammar.Json

/-- How many bytes a text has in UTF-8. -/
def byteCount : List Char → Nat
  | [] => 0
  | c :: rest => c.utf8Size + byteCount rest

/-- What is wrong with a text. -/
inductive Cause
  | endInValue
  | endInArray
  | endInObject
  | endInString
  | noValue
  | badWord
  | noColon
  | noItemComma
  | noMemberComma
  | noKey
  | danglingComma
  | extraText
  | badNumber
  | numberOutOfRange
  | badEscape
  | loneSurrogate
  | brokenPair
  | controlCharacter
  | tooDeep
  deriving DecidableEq, Repr

/-- The words for a cause. -/
def Cause.message : Cause → String
  | endInValue => "EOF while parsing a value"
  | endInArray => "EOF while parsing a list"
  | endInObject => "EOF while parsing an object"
  | endInString => "EOF while parsing a string"
  | noValue => "expected value"
  | badWord => "expected ident"
  | noColon => "expected `:`"
  | noItemComma => "expected `,` or `]`"
  | noMemberComma => "expected `,` or `\x7d`"
  | noKey => "key must be a string"
  | danglingComma => "trailing comma"
  | extraText => "trailing characters"
  | badNumber => "invalid number"
  | numberOutOfRange => "number out of range"
  | badEscape => "invalid escape"
  | loneSurrogate => "lone leading surrogate in hex escape"
  | brokenPair => "unexpected end of hex escape"
  | controlCharacter => "control character (\\u0000-\\u001F) found while parsing a string"
  | tooDeep => "recursion limit exceeded"

/-- A cause and how many bytes are unread where it shows. -/
structure Failure where
  cause : Cause
  unread : Nat
  deriving DecidableEq, Repr

namespace Failure

/-- A failure that shows behind what has been read. -/
def behind (cause : Cause) (rest : List Char) : Failure := ⟨cause, byteCount rest⟩

/-- A failure that shows on the next byte, which counts as read; at the end of the text there is
none. -/
def facing (cause : Cause) (rest : List Char) : Failure := ⟨cause, byteCount rest - 1⟩

end Failure

/-- A place in a text: the number of its line and the bytes before it on that line. -/
structure Place where
  line : Nat
  column : Nat
  deriving DecidableEq, Repr

namespace Place

/-- The place reached from another one by reading so many bytes. -/
def advance (place : Place) (bytes : Nat) : List Char → Place
  | [] => place
  | c :: rest =>
    if bytes = 0 then place
    else if c == '\n' then advance ⟨place.line + 1, 0⟩ (bytes - 1) rest
    else if c.utf8Size ≤ bytes then
      advance ⟨place.line, place.column + c.utf8Size⟩ (bytes - c.utf8Size) rest
    else ⟨place.line, place.column + bytes⟩

/-- The place in a text behind which so many bytes are unread. -/
def ofUnread (text : List Char) (unread : Nat) : Place :=
  advance ⟨1, 0⟩ (byteCount text - unread) text

/-- A message with its place. -/
def mark (place : Place) (message : String) : String :=
  s!"{message} at line {place.line} column {place.column}"

end Place

/-- The message for a failure in a text. -/
def Failure.message (failure : Failure) (text : List Char) : String :=
  (Place.ofUnread text failure.unread).mark failure.cause.message

end SchemaGrammar.Json
