import SchemaGrammar.Chat.Decoding

/-!
# Flattening chat messages

A message is flattened to one text: its own, or the texts of its parts with a line break between
each two, the parts without a text left out. A role that is absent becomes the empty one. A message
without a content, or with one that is neither a text nor parts, is bad, and the first bad message
of a list is reported by its index.

A list that has to be decoded first is decoded to its end before any message is judged.
-/

namespace SchemaGrammar.Chat

open Json (Value DecodeError)

/-- Why messages cannot be flattened. -/
inductive ChatError
  | missingContent (index : Nat)
  | invalidContent (index : Nat) (found : String)
  | undecodable (e : DecodeError)
  deriving DecidableEq, Repr

/-- The words for an error. -/
def ChatError.message : ChatError → String
  | missingContent index => s!"message {index}: missing 'content'"
  | invalidContent index found =>
    s!"message {index}: invalid 'content' type (expected string or array of parts, found {found})"
  | undecodable e => s!"malformed chat messages: {e.report}"

/-- The words for the kind of a content that is neither a text nor parts. -/
def foundKind : Value → String
  | .array _ => "array with non-text parts"
  | v => v.kind

/-- The texts of parts, each two with a line break between. -/
def joinParts (parts : List Part) : String := "\n".intercalate (parts.filterMap Part.text)

/-- Flattens the message with a given index. -/
def Message.flatten (index : Nat) (message : Message) : Except ChatError FormattedMessage :=
  let role := message.role.getD ""
  match message.content with
  | none => .error (.missingContent index)
  | some (.text s) => .ok ⟨role, s⟩
  | some (.parts ps) => .ok ⟨role, joinParts ps⟩
  | some (.other v) => .error (.invalidContent index (foundKind v))

/-- Flattens messages, of which the first one has the index `i`. -/
def normalizeFrom (i : Nat) : List Message → Except ChatError (List FormattedMessage)
  | [] => .ok []
  | m :: rest =>
    match m.flatten i with
    | .error e => .error e
    | .ok formatted => (normalizeFrom (i + 1) rest).map (formatted :: ·)

/-- Flattens a list of messages. -/
def normalize (messages : List Message) : Except ChatError (List FormattedMessage) :=
  normalizeFrom 0 messages

/-- Decodes a list of messages from a value and flattens it. -/
def normalizeValue (v : Value) : Except ChatError (List FormattedMessage) :=
  match messagesOfValue v with
  | .error e => .error (.undecodable e)
  | .ok messages => normalize messages

/-- Decodes the list of messages at the start of a text and flattens it. -/
def normalizeText (text : String) : Except ChatError (List FormattedMessage) :=
  match messagesOfText text with
  | .error e => .error (.undecodable e)
  | .ok messages => normalize messages

end SchemaGrammar.Chat
