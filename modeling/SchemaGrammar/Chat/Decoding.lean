import SchemaGrammar.Chat.Message
import SchemaGrammar.Json.Decoding

/-!
# Decoding chat messages

A message is an object with the fields `role` and `content`, or a list of the two in this order.
Fields of other names are passed over. The content may be any value: a string is a text, a list
that holds parts only is one of parts, and anything else is kept as it is. A part, likewise, is an
object with the field `text` or a list of at most that.

In a text no field may be given twice. In a value that cannot happen, since its keys are merged;
a part is judged before they are, so one that gives its text twice is no part.
-/

namespace SchemaGrammar.Chat

open Json

/-! ## Contents -/

/-- The text of a part from the value of its field. -/
def Part.ofField? : Value → Option Part
  | .null => some ⟨none⟩
  | .string s => some ⟨some s⟩
  | _ => none

/-- The part that a value is, if it is one. -/
def Part.ofValue? : Value → Option Part
  | .object members =>
    match members.filter (·.1 == "text") with
    | [] => some ⟨none⟩
    | [(_, v)] => ofField? v
    | _ => none
  | .array [] => some ⟨none⟩
  | .array [v] => ofField? v
  | _ => none

/-- The content that a value is. -/
def Content.ofValue (v : Value) : Content :=
  match v with
  | .string s => .text s
  | .array items =>
    match items.mapM Part.ofValue? with
    | some ps => .parts ps
    | none => .other v.merged
  | _ => .other v.merged

/-! ## The two fields -/

/-- What has been gathered of a message. -/
structure Fields (α β : Type) where
  role : Option α
  content : Option β

/-- Nothing gathered yet. -/
def Fields.empty : Fields α β := ⟨none, none⟩

/-- Whether a field has been gathered already. -/
def Fields.has (fields : Fields α β) (name : String) : Bool :=
  (name == "role" && fields.role.isSome) || (name == "content" && fields.content.isSome)

/-- Gathers the fields of an object. -/
def fieldsOfMembers (role : Value → Except ValueMisfit α) (content : Value → Except ValueMisfit β)
    (members : List Member) : Except ValueMisfit (Fields α β) :=
  Value.walkMembers (fun fields name v =>
    if fields.has name then .error ⟨[], .duplicateField name, ()⟩
    else if name == "role" then
      match role v with
      | .error e => .error (e.under (.key name))
      | .ok a => .ok { fields with role := some a }
    else if name == "content" then
      match content v with
      | .error e => .error (e.under (.key name))
      | .ok b => .ok { fields with content := some b }
    else .ok fields) .empty members

/-- Gathers the fields of a list. -/
def fieldsOfItems (role : Value → Except ValueMisfit α) (content : Value → Except ValueMisfit β)
    (items : List Value) : Except ValueMisfit (Fields α β) :=
  match items with
  | [] => .ok .empty
  | v :: rest =>
    match role v with
    | .error e => .error (e.under (.index 0))
    | .ok a =>
      match rest with
      | [] => .ok ⟨some a, none⟩
      | w :: more =>
        match content w with
        | .error e => .error (e.under (.index 1))
        | .ok b =>
          if more.isEmpty then .ok ⟨some a, some b⟩
          else .error ⟨[], .tooManyItems items.length, ()⟩

/-- What is left of a text behind an object, if its closing bracket is next. -/
def behindBracket (text : List Char) : List Char :=
  match skipBlanks text with
  | '}' :: rest => rest
  | rest => rest

/-- Gathers the fields of an outlined object, and gives what follows it. -/
def fieldsOfOutlinedMembers (role : Outline → Except TextMisfit α)
    (content : Outline → Except TextMisfit β) (members : Members) :
    Except TextMisfit (Fields α β × List Char) :=
  members.walk
    (fun fields name afterKey =>
      if fields.has name then
        .error ⟨[], .duplicateField name, byteCount (behindBracket afterKey)⟩
      else .ok ())
    (fun fields name v =>
      if name == "role" then
        match role v with
        | .error e => .error (e.under (.key name))
        | .ok a => .ok { fields with role := some a }
      else if name == "content" then
        match content v with
        | .error e => .error (e.under (.key name))
        | .ok b => .ok { fields with content := some b }
      else
        match v.skip with
        | .error failure => .error ((Misfit.ofFailure failure).under (.key name))
        | .ok _ => .ok fields)
    .empty

/-- What comes next in a list: an item and what follows it, or its end and what follows that. -/
def nextItem : Items → Except TextMisfit (Outline × Items ⊕ List Char)
  | .closed rest => .ok (.inr rest)
  | .item value next => .ok (.inl (value, next))
  | .dangling text => .error (.ofFailure (unexpected .endInValue .danglingComma text))
  | .stopped text => .error (.ofFailure (unexpected .endInArray .noItemComma text))
  | .lost => .error (.ofFailure (.behind .endInArray []))

/-- Asks that a list ends here, and gives what follows it. -/
def endOfItems : Items → Except TextMisfit (List Char)
  | .closed rest => .ok rest
  | .item value _ => .error (.ofFailure (.facing .extraText value.start))
  | .dangling text => .error (.ofFailure (unexpected .extraText .danglingComma text))
  | .stopped text => .error (.ofFailure (unexpected .endInArray .extraText text))
  | .lost => .error (.ofFailure (.behind .endInArray []))

/-- Gathers the fields of an outlined list, and gives what follows it. -/
def fieldsOfOutlinedItems (role : Outline → Except TextMisfit α)
    (content : Outline → Except TextMisfit β) (items : Items) :
    Except TextMisfit (Fields α β × List Char) :=
  match nextItem items with
  | .error e => .error e
  | .ok (.inr rest) => .ok (.empty, rest)
  | .ok (.inl (v, items)) =>
    match role v with
    | .error e => .error (e.under (.index 0))
    | .ok a =>
      match nextItem items with
      | .error e => .error e
      | .ok (.inr rest) => .ok (⟨some a, none⟩, rest)
      | .ok (.inl (w, items)) =>
        match content w with
        | .error e => .error (e.under (.index 1))
        | .ok b => (endOfItems items).map fun rest => (⟨some a, some b⟩, rest)

/-! ## Messages -/

/-- The message with these fields. -/
def Message.ofFields (fields : Fields (Option String) Content) : Message :=
  ⟨fields.role.join, fields.content⟩

/-- Decodes a message from a value. -/
def Message.ofValue (v : Value) : Except ValueMisfit Message :=
  match v with
  | .object members =>
    (fieldsOfMembers Value.decodeOptional (fun w => .ok (.ofValue w)) members).map ofFields
  | .array items =>
    (fieldsOfItems Value.decodeOptional (fun w => .ok (.ofValue w)) items).map ofFields
  | v => .error (v.misfit "struct ChatMessage")

/-- How deep the content of a message in a list may be nested. -/
def contentDepth : Nat := nestingLimit - 2

/-- Decodes a content from the outline of a text. -/
def Content.ofOutline (outline : Outline) : Except TextMisfit Content :=
  match outline.read contentDepth with
  | .error located => .error (.ofLocated located)
  | .ok v => .ok (ofValue v)

/-- Decodes a message from the outline of a text. -/
def Message.ofOutline (outline : Outline) : Except TextMisfit Message :=
  match outline with
  | .object _ members =>
    (fieldsOfOutlinedMembers Outline.decodeOptional Content.ofOutline members).map
      fun p => ofFields p.1
  | .array _ items =>
    (fieldsOfOutlinedItems Outline.decodeOptional Content.ofOutline items).map
      fun p => ofFields p.1
  | .scalar _ => outline.decodeAs "struct ChatMessage" fun _ => none

/-- Decodes a list of messages from a value. -/
def messagesOfValue (v : Value) : Except DecodeError (List Message) :=
  (v.decodeList Message.ofValue).mapError .unplaced

/-- Decodes the list of messages at the start of a text. -/
def messagesOfText (text : String) : Except DecodeError (List Message) :=
  ((Outline.ofText text.toList).decodeList Message.ofOutline).mapError (.placed text.toList)

/-! ## Formatted messages -/

/-- The formatted message with these fields, or the field that is missing. -/
def FormattedMessage.ofFields (fields : Fields String String) :
    Except DecodeCause FormattedMessage :=
  match fields.role, fields.content with
  | some role, some content => .ok ⟨role, content⟩
  | some _, none => .error (.missingField "content")
  | none, _ => .error (.missingField "role")

/-- The formatted message with the fields of a list, both of which have to be there. -/
def FormattedMessage.ofListFields (fields : Fields String String) :
    Except DecodeCause FormattedMessage :=
  let short (count : Nat) : DecodeCause :=
    .tooFewItems count "struct FormattedChatMessage with 2 elements"
  match fields.role, fields.content with
  | some role, some content => .ok ⟨role, content⟩
  | some _, none => .error (short 1)
  | none, _ => .error (short 0)

/-- Decodes a formatted message from a value. -/
def FormattedMessage.ofValue (v : Value) : Except ValueMisfit FormattedMessage :=
  match v with
  | .object members =>
    match fieldsOfMembers Value.decodeString Value.decodeString members with
    | .error e => .error e
    | .ok fields => (ofFields fields).mapError (⟨[], ·, ()⟩)
  | .array items =>
    match fieldsOfItems Value.decodeString Value.decodeString items with
    | .error e => .error e
    | .ok fields => (ofListFields fields).mapError (⟨[], ·, ()⟩)
  | v => .error (v.misfit "struct FormattedChatMessage")

/-- Decodes a formatted message from the outline of a text. -/
def FormattedMessage.ofOutline (outline : Outline) : Except TextMisfit FormattedMessage :=
  match outline with
  | .object _ members =>
    match fieldsOfOutlinedMembers Outline.decodeString Outline.decodeString members with
    | .error e => .error e
    | .ok (fields, rest) => (ofFields fields).mapError (⟨[], ·, byteCount rest⟩)
  | .array _ items =>
    match fieldsOfOutlinedItems Outline.decodeString Outline.decodeString items with
    | .error e => .error e
    | .ok (fields, rest) => (ofListFields fields).mapError (⟨[], ·, byteCount rest⟩)
  | .scalar _ => outline.decodeAs "struct FormattedChatMessage" fun _ => none

end SchemaGrammar.Chat
