import SchemaGrammar.Json.Outline
import SchemaGrammar.Json.Path

/-!
# Building values and skipping them

`Outline.read` builds the value that is outlined, keeping every member that is written. Arrays and
objects may be nested up to a limit. `Outline.skip` only asks whether the outlined text could be
passed over: it has no limit, and takes scalars that have no value, but words some failures in
another way, since it does not look behind a comma.

A document is a text with one value and only blanks around it. Its value has each key once.
-/

namespace SchemaGrammar.Json

/-- How many arrays and objects may be nested in each other. -/
def nestingLimit : Nat := 127

/-- A failure with the path at which it shows. -/
structure Located where
  path : Path
  failure : Failure
  deriving DecidableEq, Repr

namespace Located

/-- A failure right here. -/
def here (failure : Failure) : Located := ⟨[], failure⟩

/-- The same failure, seen from one step above. -/
def under (step : Step) (located : Located) : Located :=
  { located with path := step :: located.path }

end Located

/-- What comes of reading below a step. -/
def below (step : Step) (result : Except Located α) : Except Located α :=
  result.mapError (·.under step)

/-- Reads the key that opens before `text`. A key that does not read leaves the step unknown. -/
def readKey (text : List Char) : Except Located (String × List Char) :=
  (readString text).mapError fun failure => ⟨[.unknown], failure⟩

/-- The failure where a key, a comma or the closing bracket of an object is due. -/
def keyFailure (atEnd otherwise : Cause) (text : List Char) : Located :=
  ⟨[.unknown], unexpected atEnd otherwise text⟩

/-- The failure where a key is due behind a comma. -/
def keyAfterComma (text : List Char) : Located :=
  keyFailure .endInValue (if text.head? == some '}' then .danglingComma else .noKey) text

/-- The failure of a value that is nested too deeply. -/
def tooDeep (text : List Char) : Located := .here (.facing .tooDeep text)

mutual
/-- Builds the outlined value, in which `depth` more levels may be nested. -/
def Outline.read (depth : Nat) : Outline → Except Located Value
  | .scalar text => ((readScalar text).map Prod.fst).mapError .here
  | .array text items =>
    match depth with
    | 0 => .error (tooDeep text)
    | depth + 1 => (items.read depth 0).map .array
  | .object text members =>
    match depth with
    | 0 => .error (tooDeep text)
    | depth + 1 => (members.read depth).map .object
termination_by structural v => v
/-- Builds the items from the one with number `i` on. -/
def Items.read (depth i : Nat) : Items → Except Located (List Value)
  | .closed _ => .ok []
  | .item value next =>
    match below (.index i) (value.read depth) with
    | .error e => .error e
    | .ok v => (next.read depth (i + 1)).map (v :: ·)
  | .dangling text => .error (.here (unexpected .endInValue .danglingComma text))
  | .stopped text => .error (.here (unexpected .endInArray .noItemComma text))
  | .lost => .error (.here (.behind .endInArray []))
termination_by structural items => items
/-- Builds the members. -/
def Members.read (depth : Nat) : Members → Except Located (List Member)
  | .closed _ => .ok []
  | .member key _ value next =>
    match readKey key with
    | .error e => .error e
    | .ok (name, _) =>
      match below (.key name) (value.read depth) with
      | .error e => .error e
      | .ok v => (next.read depth).map ((name, v) :: ·)
  | .noColon key afterKey =>
    match readKey key with
    | .error e => .error e
    | .ok _ => .error (.here (unexpected .endInObject .noColon (skipBlanks afterKey)))
  | .noKey true text => .error (keyFailure .endInObject .noKey text)
  | .noKey false text => .error (keyAfterComma text)
  | .stopped text => .error (keyFailure .endInObject .noMemberComma text)
  | .openKey key =>
    match readKey key with
    | .error e => .error e
    | .ok _ => .error (keyFailure .endInString .endInString key)
  | .lost => .error (.here (.behind .endInObject []))
termination_by structural members => members
end

mutual
/-- Passes over the outlined value. -/
def Outline.skip : Outline → Except Failure Unit
  | .scalar text => (skipScalar text).map fun _ => ()
  | .array _ items => items.skip
  | .object _ members => members.skip
termination_by structural v => v
/-- Passes over items. -/
def Items.skip : Items → Except Failure Unit
  | .closed _ => .ok ()
  | .item value next =>
    match value.skip with
    | .error e => .error e
    | .ok _ => next.skip
  | .dangling text => .error (unexpected .endInValue .noValue text)
  | .stopped text => .error (unexpected .endInArray .noItemComma text)
  | .lost => .error (.behind .endInArray [])
termination_by structural items => items
/-- Passes over members. -/
def Members.skip : Members → Except Failure Unit
  | .closed _ => .ok ()
  | .member _ _ value next =>
    match value.skip with
    | .error e => .error e
    | .ok _ => next.skip
  | .noColon _ afterKey => .error (unexpected .endInObject .noColon (skipBlanks afterKey))
  | .noKey _ text => .error (unexpected .endInObject .noKey text)
  | .stopped text => .error (unexpected .endInObject .noMemberComma text)
  | .openKey key =>
    match skipQuoted key with
    | .error e => .error e
    | .ok _ => .error (.behind .endInString [])
  | .lost => .error (.behind .endInObject [])
termination_by structural members => members
end

/-- The value of a document. -/
def Value.ofChars (text : List Char) : Except Failure Value :=
  match (Outline.ofText text).read nestingLimit with
  | .error located => .error located.failure
  | .ok v =>
    match skipBlanks ((Outline.restOfText text).getD []) with
    | [] => .ok v.merged
    | rest => .error (.facing .extraText rest)

/-- The value of a document. -/
def Value.parse (text : String) : Except Failure Value := ofChars text.toList

end SchemaGrammar.Json
