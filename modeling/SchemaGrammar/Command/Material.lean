import SchemaGrammar.Command.Failure
import SchemaGrammar.Command.Request
import SchemaGrammar.Json.Pointer

/-!
# What a request works on

Before a request is carried out, everything that it reads is gathered: the text of the order file
and the texts of the sources that its inputs stand for. What could not be read is gathered with its
error, which counts only if nothing fails before. Then the documents are selected from the sources,
each under the path of its source as its label; a query may give any number of them.
-/

namespace SchemaGrammar.Command

open Files (FileError InputError Reader)

/-- A source: its path, and its text if it can be read. -/
structure Source where
  label : String
  text : Except FileError String

/-- A selected document under the path of its source. -/
structure Document where
  label : String
  value : Json.Value
  deriving Repr

/-- Everything that a request reads. -/
structure Material where
  orderFile : Option (String × Except FileError String)
  sources : Except InputError (List Source)

/-! ## Gathering -/

section Gathering

variable {m : Type → Type} [Monad m] (reader : Reader m)

/-- Reads the source at a path. -/
def readSource (path : String) : m Source := return ⟨path, ← reader.read path⟩

/-- Reads the sources that inputs stand for. -/
def gatherSources (inputs : List String) : m (Except InputError (List Source)) := do
  match ← reader.resolve inputs with
  | .error e => return .error e
  | .ok paths => return .ok (← paths.mapM (readSource reader))

/-- Reads the order file, if there is one. -/
def gatherOrder : Option String → m (Option (String × Except FileError String))
  | none => return none
  | some path => return some (path, ← reader.read path)

/-- Reads everything that is asked for. -/
def gather (orderFile : Option String) (inputs : List String) : m Material :=
  return ⟨← gatherOrder reader orderFile, ← gatherSources reader inputs⟩

end Gathering

/-! ## Selecting -/

section Selecting

variable (engine : Query.Engine)

/-- The part of a document that a selection's pointer selects. -/
def Selection.point (selection : Selection) (document : Document) : Except Failure Document :=
  match selection.pointer with
  | none => .ok document
  | some pointer =>
    match document.value.pointer? pointer with
    | none => .error (.nothingSelected document.label pointer)
    | some value => .ok { document with value }

/-- What a selection's query makes of a document. -/
def Selection.ask (selection : Selection) (document : Document) :
    Except Failure (List Document) :=
  match selection.query with
  | none => .ok [document]
  | some query =>
    match engine.run query document.value with
    | .error e => .error (.queryFailed document.label query e)
    | .ok values => .ok (values.map fun value => { document with value })

/-- The document that a source holds. -/
def Source.document (source : Source) : Except Failure Document :=
  match source.text with
  | .error e => .error (.sourceUnread source.label e)
  | .ok text =>
    match Json.Value.parse text with
    | .error e => .error (.sourceNotJson source.label text e)
    | .ok value => .ok ⟨source.label, value⟩

/-- The documents that are selected from one source. -/
def Selection.documentsOf (selection : Selection) (source : Source) :
    Except Failure (List Document) := do
  selection.ask engine (← selection.point (← source.document))

/-- The documents that are selected from all sources. -/
def Selection.documents (selection : Selection) (material : Material) :
    Except Failure (List Document) := do
  let sources ← material.sources.mapError .inputsUnresolved
  return (← sources.mapM (selection.documentsOf engine)).flatten

end Selecting

/-- The order of an order file. -/
def Material.fileOrder (material : Material) : Except Failure (Option PropertyOrder) :=
  match material.orderFile with
  | none => .ok none
  | some (path, .error e) => .error (.orderFileUnread path e)
  | some (path, .ok text) =>
    match PropertyOrder.ofText text with
    | .error e => .error (.orderFileInvalid path e)
    | .ok order => .ok (some order)

/-- The order under which schemas are compiled: that of the order file, with a written order laid
over it. -/
def Material.order (material : Material) (written : Option String) :
    Except Failure (Option PropertyOrder) := do
  let fromFile ← material.fileOrder
  match written with
  | none => return fromFile
  | some list =>
    match PropertyOrder.parse list with
    | .error e => .error (.orderInvalid e)
    | .ok order => return some (Keyed.extend (fromFile.getD []) order)

end SchemaGrammar.Command
