import SchemaGrammar.Json.Value

/-!
# Chat messages

A message has an optional role and an optional content. Its content is a text, or a list of parts
each of which may have a text, or something else, which is kept but means nothing. A formatted
message has a role and a text, and nothing optional.

The encoding leaves out what is absent.
-/

namespace SchemaGrammar.Chat

open Json (Value Member)

/-- A part of a message's content. -/
structure Part where
  text : Option String
  deriving DecidableEq, Repr, Inhabited

/-- The content of a message. -/
inductive Content
  | text (s : String)
  | parts (ps : List Part)
  | other (v : Value)
  deriving Repr, Inhabited

/-- A message as it is given. -/
structure Message where
  role : Option String
  content : Option Content
  deriving Repr

/-- A message with all its text in one. -/
structure FormattedMessage where
  role : String
  content : String
  deriving DecidableEq, Repr, Inhabited

instance : Inhabited Message := ⟨⟨none, none⟩⟩

/-- A member that is there only if its value is. -/
def optionalMember (key : String) : Option Value → List Member
  | none => []
  | some v => [(key, v)]

namespace Part

/-- The encoding of a part. -/
def toValue (part : Part) : Value := .object (optionalMember "text" (part.text.map .string))

end Part

namespace Content

/-- The word for the kind of content a message has. -/
def kind : Option Content → String
  | none => "absent"
  | some (.text _) => "text"
  | some (.parts _) => "parts"
  | some (.other _) => "other"

/-- The encoding of a content. -/
def toValue : Content → Value
  | .text s => .string s
  | .parts ps => .array (ps.map Part.toValue)
  | .other v => v

end Content

namespace Message

/-- A message with a role and a text. -/
def ofText (role text : String) : Message := ⟨some role, some (.text text)⟩

/-- A message with a role and parts, each with its text or without one. -/
def ofParts (role : String) (texts : List (Option String)) : Message :=
  ⟨some role, some (.parts (texts.map Part.mk))⟩

/-- The encoding of a message. -/
def toValue (message : Message) : Value :=
  .object (optionalMember "role" (message.role.map .string) ++
    optionalMember "content" (message.content.map Content.toValue))

end Message

/-- The encoding of a formatted message. -/
def FormattedMessage.toValue (message : FormattedMessage) : Value :=
  .object [("role", .string message.role), ("content", .string message.content)]

end SchemaGrammar.Chat
