import SchemaGrammar.Json.Document
import SchemaGrammar.Json.Writer
import SchemaGrammar.Text.Shown

/-!
# Decoding values of a known shape

A decoder asks for a shape: a string, a list of some things, an object with some fields. It works
either on a value or on the outline of a text. On an outline it stops at the first thing that is
wrong, be it the text or the shape, and knows where in the text that is; what follows the decoded
value is not looked at.

The functions here decode scalars, and walk through the items of a list or the members of an
object on behalf of decoders that say what to do with each of them.
-/

namespace SchemaGrammar.Json

/-- Why something cannot be decoded. -/
inductive DecodeCause
  | malformed (cause : Cause)
  | wrongType (found expected : String)
  | missingField (name : String)
  | duplicateField (name : String)
  | tooFewItems (count : Nat) (expected : String)
  | tooManyItems (count : Nat)
  deriving DecidableEq, Repr

/-- The words for a cause. -/
def DecodeCause.message : DecodeCause → String
  | malformed cause => cause.message
  | wrongType found expected => s!"invalid type: {found}, expected {expected}"
  | missingField name => s!"missing field `{name}`"
  | duplicateField name => s!"duplicate field `{name}`"
  | tooFewItems count expected => s!"invalid length {count}, expected {expected}"
  | tooManyItems count => s!"invalid length {count}, expected fewer elements in array"

/-- A cause with the path where it shows, and with a position of some sort. -/
structure Misfit (Position : Type) where
  path : Path
  cause : DecodeCause
  position : Position
  deriving DecidableEq, Repr

/-- A misfit in a text by how much is unread there. -/
abbrev TextMisfit := Misfit Nat

/-- A misfit in a value, where only the path says where it is. -/
abbrev ValueMisfit := Misfit Unit

/-- A misfit as it is reported, with its place if it is one in a text. -/
abbrev DecodeError := Misfit (Option Place)

namespace Misfit

/-- The same misfit, seen from one step above. -/
def under (step : Step) (misfit : Misfit α) : Misfit α :=
  { misfit with path := step :: misfit.path }

/-- A failure of the text as a misfit. -/
def ofLocated (located : Located) : TextMisfit :=
  ⟨located.path, .malformed located.failure.cause, located.failure.unread⟩

/-- A failure of the text right here. -/
def ofFailure (failure : Failure) : TextMisfit := ofLocated (.here failure)

/-- A misfit in a text with its place. -/
def placed (text : List Char) (misfit : TextMisfit) : DecodeError :=
  { misfit with position := some (Place.ofUnread text misfit.position) }

/-- A misfit in a value as it is reported. -/
def unplaced (misfit : ValueMisfit) : DecodeError := { misfit with position := none }

/-- The words for the misfit, with its place. -/
def message (e : DecodeError) : String :=
  match e.position with
  | none => e.cause.message
  | some place => place.mark e.cause.message

/-- The words for the misfit, with its path and its place. -/
def report (e : DecodeError) : String := s!"at JSON path {e.path.text} → {e.message}"

end Misfit

/-- How a message names what it found in place of something else. -/
def Value.described : Value → String
  | .null => "null"
  | .bool b => s!"boolean `{b}`"
  | .number (.integer i _) => s!"integer `{i}`"
  | .number (.real x) => s!"floating point `{x.text doubleFormat}`"
  | .string s => s!"string {Text.shown s}"
  | .array _ => "sequence"
  | .object _ => "map"

/-! ## From a value -/

namespace Value

/-- A value of another type than the one asked for. -/
def misfit (expected : String) (v : Value) : ValueMisfit :=
  ⟨[], .wrongType v.described expected, ()⟩

/-- Decodes a string. -/
def decodeString : Value → Except ValueMisfit String
  | .string s => .ok s
  | v => .error (v.misfit "a string")

/-- Decodes a string or null. -/
def decodeOptional : Value → Except ValueMisfit (Option String)
  | .null => .ok none
  | .string s => .ok (some s)
  | v => .error (v.misfit "a string")

/-- Decodes a number as a double. -/
def decodeDouble : Value → Except ValueMisfit Double
  | .number n => .ok n.toDouble
  | v => .error (v.misfit "f64")

/-- Decodes every item, from the one with number `i` on. -/
def decodeItems (each : Value → Except ValueMisfit α) (i : Nat) :
    List Value → Except ValueMisfit (List α)
  | [] => .ok []
  | v :: rest =>
    match each v with
    | .error e => .error (e.under (.index i))
    | .ok a => (decodeItems each (i + 1) rest).map (a :: ·)

/-- Decodes a list. -/
def decodeList (each : Value → Except ValueMisfit α) : Value → Except ValueMisfit (List α)
  | .array items => decodeItems each 0 items
  | v => .error (v.misfit "a sequence")

/-- Hands every member to `take`, which adds it to what has been gathered. -/
def walkMembers (take : σ → String → Value → Except ValueMisfit σ) (gathered : σ) :
    List Member → Except ValueMisfit σ
  | [] => .ok gathered
  | (name, v) :: rest =>
    match take gathered name v with
    | .error e => .error e
    | .ok gathered => walkMembers take gathered rest

end Value

/-! ## From an outline -/

/-- The scalar at the start of a text, if it is of the type asked for. -/
def decodeScalar (expected : String) (convert : Value → Option α) (text : List Char) :
    Except TextMisfit α :=
  match readScalar text with
  | .error failure => .error (.ofFailure failure)
  | .ok (v, rest) =>
    match convert v with
    | some a => .ok a
    | none => .error ⟨[], .wrongType v.described expected, byteCount rest⟩

namespace Outline

/-- An array or object where something else was asked for. -/
def wrongBracket (found expected : String) (text : List Char) : TextMisfit :=
  ⟨[], .wrongType found expected, byteCount text⟩

/-- Decodes what is outlined as a scalar of the type asked for. -/
def decodeAs (expected : String) (convert : Value → Option α) : Outline → Except TextMisfit α
  | .scalar text => decodeScalar expected convert text
  | .array text _ => .error (wrongBracket "sequence" expected text)
  | .object text _ => .error (wrongBracket "map" expected text)

/-- Decodes a string. -/
def decodeString (outline : Outline) : Except TextMisfit String :=
  outline.decodeAs "a string" Value.asString?

/-- Decodes a string or null. -/
def decodeOptional (outline : Outline) : Except TextMisfit (Option String) :=
  outline.decodeAs "a string" fun
    | .null => some none
    | .string s => some (some s)
    | _ => none

/-- Decodes a number as a double. -/
def decodeDouble (outline : Outline) : Except TextMisfit Double :=
  outline.decodeAs "f64" fun
    | .number n => some n.toDouble
    | _ => none

end Outline

/-- Decodes every item, from the one with number `i` on. -/
def Items.decodeItems (each : Outline → Except TextMisfit α) (i : Nat) :
    Items → Except TextMisfit (List α)
  | .closed _ => .ok []
  | .item value next =>
    match each value with
    | .error e => .error (e.under (.index i))
    | .ok a => (next.decodeItems each (i + 1)).map (a :: ·)
  | .dangling text => .error (.ofFailure (unexpected .endInValue .danglingComma text))
  | .stopped text => .error (.ofFailure (unexpected .endInArray .noItemComma text))
  | .lost => .error (.ofFailure (.behind .endInArray []))

/-- Decodes a list. -/
def Outline.decodeList (each : Outline → Except TextMisfit α) :
    Outline → Except TextMisfit (List α)
  | .array _ items => items.decodeItems each 0
  | outline => outline.decodeAs "a sequence" fun _ => none

/-- Hands every member to `take`, which adds it to what has been gathered, and gives what follows
the object. `permit` sees each key, and what follows it, before the colon is looked for. -/
def Members.walk (permit : σ → String → List Char → Except TextMisfit Unit)
    (take : σ → String → Outline → Except TextMisfit σ) (gathered : σ) :
    Members → Except TextMisfit (σ × List Char)
  | .closed rest => .ok (gathered, rest)
  | .member key afterKey value next =>
    match readKey key with
    | .error e => .error (.ofLocated e)
    | .ok (name, _) =>
      match permit gathered name afterKey with
      | .error e => .error e
      | .ok _ =>
        match take gathered name value with
        | .error e => .error e
        | .ok gathered => next.walk permit take gathered
  | .noColon key afterKey =>
    match readKey key with
    | .error e => .error (.ofLocated e)
    | .ok (name, _) =>
      match permit gathered name afterKey with
      | .error e => .error e
      | .ok _ => .error (.ofFailure (unexpected .endInObject .noColon (skipBlanks afterKey)))
  | .noKey true text => .error (.ofLocated (keyFailure .endInObject .noKey text))
  | .noKey false text => .error (.ofLocated (keyAfterComma text))
  | .stopped text => .error (.ofLocated (keyFailure .endInObject .noMemberComma text))
  | .openKey key =>
    match readKey key with
    | .error e => .error (.ofLocated e)
    | .ok _ => .error (.ofLocated (keyFailure .endInString .endInString key))
  | .lost => .error (.ofFailure (.behind .endInObject []))

end SchemaGrammar.Json
