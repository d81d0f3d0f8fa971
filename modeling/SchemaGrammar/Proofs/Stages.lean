import SchemaGrammar.Command.Report
import SchemaGrammar.Proofs.ReadFile

/-!
# The stages of a run

Before a request makes its report, it goes through these stages: the order file, the written order,
the paths that all inputs stand for, the documents of each source in turn, which is read, parsed,
pointed into and asked, and the results for the documents. Each stage that reads is described by
what it gives and by how it fails, and it fails only where the stages before it give something. What
a query loads to and what it answers is up to the engine, which may be any.

Everything is gathered from the tree at once (`run_gather`). The order and the documents that come
out of it are those of the stages (`order_eq_ok_iff`, `documents_eq_ok_iff`), and so are the
failures (`order_eq_error_iff`, `documents_eq_error_iff`).
-/

namespace SchemaGrammar.Command

open Files (InputError Pattern Reader Tree isPattern)
open Gbnf (Grammar)
open Json (Value)
open Query (Engine QueryError)

/-! ## Orders -/

/-- The order that an order file gives. -/
inductive HasFileOrder (tree : Tree) : Option String → Option PropertyOrder → Prop
  | none : HasFileOrder tree none none
  | given {path text : String} {order : PropertyOrder} (read : tree.Reads path (.ok text))
      (valid : PropertyOrder.ofText text = .ok order) : HasFileOrder tree (some path) (some order)

/-- The order that an order file and a written order give, which is laid over that of the file. -/
inductive HasOrder (tree : Tree) (file : Option String) :
    Option String → Option PropertyOrder → Prop
  | fromFile {order : Option PropertyOrder} (fromFile : HasFileOrder tree file order) :
      HasOrder tree file none order
  | written {order : Option PropertyOrder} {list : String} {ranks : PropertyOrder}
      (fromFile : HasFileOrder tree file order) (parsed : PropertyOrder.parse list = .ok ranks) :
      HasOrder tree file (some list) (some (Keyed.extend (order.getD []) ranks))

/-- How an order file or a written order fails. -/
inductive OrderFails (tree : Tree) : Option String → Option String → Failure → Prop
  | fileUnread {path : String} {list : Option String} {e : Files.FileError}
      (unread : tree.Reads path (.error e)) :
      OrderFails tree (some path) list (.orderFileUnread path e)
  | fileInvalid {path text : String} {list : Option String} {e : Json.DecodeError}
      (read : tree.Reads path (.ok text)) (invalid : PropertyOrder.ofText text = .error e) :
      OrderFails tree (some path) list (.orderFileInvalid path e)
  | listInvalid {file : Option String} {order : Option PropertyOrder} {list : String}
      {e : OrderError} (fromFile : HasFileOrder tree file order)
      (invalid : PropertyOrder.parse list = .error e) :
      OrderFails tree file (some list) (.orderInvalid e)

/-! ## Inputs -/

/-- The paths that an input stands for. -/
inductive InputGives (tree : Tree) (input : String) : List String → Prop
  | path (plain : isPattern input = false) : InputGives tree input [input]
  | found {pattern : Pattern} (isAPattern : isPattern input = true)
      (parsed : Pattern.parse input = .ok pattern) (some : tree.reader.search pattern ≠ []) :
      InputGives tree input (tree.reader.search pattern)

/-- How an input fails to stand for paths. -/
inductive InputFails (tree : Tree) (input : String) : InputError → Prop
  | badPattern {e : Files.PatternError} (isAPattern : isPattern input = true)
      (bad : Pattern.parse input = .error e) : InputFails tree input (.badPattern e)
  | noMatch {pattern : Pattern} (isAPattern : isPattern input = true)
      (parsed : Pattern.parse input = .ok pattern) (none : tree.reader.search pattern = []) :
      InputFails tree input (.noMatch input)

/-! ## Sources -/

/-- The part of a value that a pointer selects, or the whole without one. -/
inductive PointsTo : Option String → Value → Value → Prop
  | whole {value : Value} : PointsTo none value value
  | part {pointer : String} {value part : Value} (selected : value.pointer? pointer = some part) :
      PointsTo (some pointer) value part

/-- An output of a query is read as a value. -/
inductive ReadAs : Except String String → Value → Prop
  | json {text : String} {value : Value} (isJson : Value.parse text = .ok value) :
      ReadAs (.ok text) value

/-- How an output of a query is no value. -/
inductive OutputFails : Except String String → QueryError → Prop
  | failure {fault : String} : OutputFails (.error fault) (.failed fault)
  | notJson {text : String} {e : Json.Failure} (notJson : Value.parse text = .error e) :
      OutputFails (.ok text) (.notJson text e)

/-- The values that a query gives, one for each output of its program, or the value itself without a
query. -/
inductive AnsweredBy (engine : Engine) : Option String → Value → List Value → Prop
  | itself {value : Value} : AnsweredBy engine none value [value]
  | outputs {query : String} {program : Query.Program} {value : Value} {values : List Value}
      (loaded : engine.load query = .ok program)
      (answered : List.Forall₂ ReadAs (program value).toList values) :
      AnsweredBy engine (some query) value values

/-- How a query gives no values: there is no program of it, or an output of its program is the first
that is no value. -/
inductive QueryFails (engine : Engine) (query : String) (value : Value) : QueryError → Prop
  | notLoaded {e : Query.LoadError} (notLoaded : engine.load query = .error e) :
      QueryFails engine query value (.notLoaded e)
  | output {program : Query.Program} {e : QueryError} (loaded : engine.load query = .ok program)
      (failed : FirstFails ReadAs OutputFails (program value).toList e) :
      QueryFails engine query value e

/-- The documents that a source gives, each under its path. -/
inductive SourceGives (engine : Engine) (selection : Selection) (tree : Tree) (path : String) :
    List Document → Prop
  | documents {text : String} {value part : Value} {values : List Value}
      (read : tree.Reads path (.ok text)) (isJson : Value.parse text = .ok value)
      (pointed : PointsTo selection.pointer value part)
      (answered : AnsweredBy engine selection.query part values) :
      SourceGives engine selection tree path (values.map (⟨path, ·⟩))

/-- How a source fails to give documents. -/
inductive SourceFails (engine : Engine) (selection : Selection) (tree : Tree) (path : String) :
    Failure → Prop
  | unread {e : Files.FileError} (unread : tree.Reads path (.error e)) :
      SourceFails engine selection tree path (.sourceUnread path e)
  | notJson {text : String} {e : Json.Failure} (read : tree.Reads path (.ok text))
      (notJson : Value.parse text = .error e) :
      SourceFails engine selection tree path (.sourceNotJson path text e)
  | nothingSelected {text pointer : String} {value : Value} (read : tree.Reads path (.ok text))
      (isJson : Value.parse text = .ok value) (asked : selection.pointer = some pointer)
      (nothing : value.pointer? pointer = none) :
      SourceFails engine selection tree path (.nothingSelected path pointer)
  | queryFailed {text query : String} {value part : Value} {e : QueryError}
      (read : tree.Reads path (.ok text)) (isJson : Value.parse text = .ok value)
      (pointed : PointsTo selection.pointer value part) (asked : selection.query = some query)
      (failed : QueryFails engine query part e) :
      SourceFails engine selection tree path (.queryFailed path query e)

/-! ## Documents -/

/-- The documents of all sources, in the order of the inputs and of the paths that each of these
stands for. -/
inductive Loads (engine : Engine) (selection : Selection) (tree : Tree) : List Document → Prop
  | documents {paths : List (List String)} {documents : List (List Document)}
      (resolved : List.Forall₂ (InputGives tree) selection.inputs paths)
      (loaded : List.Forall₂ (SourceGives engine selection tree) paths.flatten documents) :
      Loads engine selection tree documents.flatten

/-- How the documents fail to load. No source is looked at before all inputs stand for paths. -/
inductive LoadFails (engine : Engine) (selection : Selection) (tree : Tree) : Failure → Prop
  | unresolved {e : InputError}
      (unresolved : FirstFails (InputGives tree) (InputFails tree) selection.inputs e) :
      LoadFails engine selection tree (.inputsUnresolved e)
  | unloaded {paths : List (List String)} {failure : Failure}
      (resolved : List.Forall₂ (InputGives tree) selection.inputs paths)
      (unloaded : FirstFails (SourceGives engine selection tree)
        (SourceFails engine selection tree) paths.flatten failure) :
      LoadFails engine selection tree failure

/-! ## Gathering from a tree -/

section Gathering

variable {tree : Tree} {input : String} {inputs : List String}

theorem resolveInput_eq_ok_iff {paths : List String} :
    (tree.reader.resolveInput input).run = .ok paths ↔ InputGives tree input paths := by
  constructor
  · intro resolved
    unfold Reader.resolveInput at resolved
    split at resolved
    · next isAPattern =>
      split at resolved
      · cases resolved
      · next pattern parsed =>
        simp only [Id.run_bind, Id.run_pure] at resolved
        split at resolved
        · cases resolved
        · next some =>
          obtain rfl := Except.ok.inj resolved
          exact .found isAPattern parsed fun none => some (List.isEmpty_iff.mpr none)
    · next plain =>
      obtain rfl := Except.ok.inj resolved
      exact .path (Bool.not_eq_true _ ▸ plain)
  · rintro (plain | ⟨isAPattern, parsed, some⟩)
    · rw [Reader.resolveInput, plain]
      rfl
    · rw [Reader.resolveInput, if_pos isAPattern, parsed]
      exact if_neg fun none => some (List.isEmpty_iff.mp none)

theorem resolveInput_eq_error_iff {e : InputError} :
    (tree.reader.resolveInput input).run = .error e ↔ InputFails tree input e := by
  constructor
  · intro unresolved
    unfold Reader.resolveInput at unresolved
    split at unresolved
    · next isAPattern =>
      split at unresolved
      · next bad =>
        obtain rfl := Except.error.inj unresolved
        exact .badPattern isAPattern bad
      · next pattern parsed =>
        simp only [Id.run_bind, Id.run_pure] at unresolved
        split at unresolved
        · next none =>
          obtain rfl := Except.error.inj unresolved
          exact .noMatch isAPattern parsed (List.isEmpty_iff.mp none)
        · cases unresolved
    · cases unresolved
  · rintro (⟨isAPattern, bad⟩ | ⟨isAPattern, parsed, none⟩)
    · rw [Reader.resolveInput, if_pos isAPattern, bad]
      rfl
    · rw [Reader.resolveInput, if_pos isAPattern, parsed]
      exact if_pos (List.isEmpty_iff.mpr none)

theorem run_resolve : (tree.reader.resolve inputs).run =
    (inputs.mapM fun input => (tree.reader.resolveInput input).run).map List.flatten := by
  have all : (inputs.mapM tree.reader.resolveInput).run.mapM id =
      inputs.mapM fun input => (tree.reader.resolveInput input).run := by
    rw [List.idRun_mapM, List.mapM_map]
    rfl
  rw [← all]
  rfl

theorem resolve_eq_ok_iff {found : List String} : (tree.reader.resolve inputs).run = .ok found ↔
    ∃ paths, List.Forall₂ (InputGives tree) inputs paths ∧ paths.flatten = found := by
  rw [run_resolve, map_eq_ok_iff]
  simp only [mapM_eq_ok_iff, resolveInput_eq_ok_iff]

theorem resolve_eq_error_iff {e : InputError} : (tree.reader.resolve inputs).run = .error e ↔
    FirstFails (InputGives tree) (InputFails tree) inputs e := by
  rw [run_resolve, map_eq_error_iff, mapM_eq_error_iff]
  simp only [resolveInput_eq_ok_iff, resolveInput_eq_error_iff]

theorem run_gatherSources : (gatherSources tree.reader inputs).run =
    (tree.reader.resolve inputs).run.map (·.map fun path => ⟨path, tree.read path⟩) := by
  rw [gatherSources, Id.run_bind]
  cases (tree.reader.resolve inputs).run with
  | error e => rfl
  | ok paths =>
    refine congrArg Except.ok ?_
    exact List.idRun_mapM

theorem run_gatherOrder (file : Option String) : (gatherOrder tree.reader file).run =
    file.map fun path => (path, tree.read path) := by
  cases file <;> rfl

/-- Everything is read from the tree as it is. -/
theorem run_gather (file : Option String) : (gather tree.reader file inputs).run =
    ⟨file.map fun path => (path, tree.read path),
      (tree.reader.resolve inputs).run.map (·.map fun path => ⟨path, tree.read path⟩)⟩ := by
  rw [← run_gatherOrder, ← run_gatherSources]
  rfl

end Gathering

/-! ## The order stages -/

section Order

variable {tree : Tree} {file written : Option String} {inputs : List String}
  {order : Option PropertyOrder} {failure : Failure}

theorem fileOrder_eq_ok_iff :
    (gather tree.reader file inputs).run.fileOrder = .ok order ↔ HasFileOrder tree file order := by
  rw [run_gather]
  constructor
  · intro ordered
    cases file with
    | none =>
      obtain rfl := Except.ok.inj ordered
      exact .none
    | some path =>
      rw [Option.map_some, Material.fileOrder] at ordered
      split at ordered
      · next absent => cases absent
      · cases ordered
      · next text same =>
        obtain ⟨rfl, read⟩ := Prod.mk.inj (Option.some.inj same)
        split at ordered
        · cases ordered
        · next valid =>
          obtain rfl := Except.ok.inj ordered
          exact .given (Tree.read_eq_iff.mp read) valid
  · rintro (_ | ⟨read, valid⟩)
    · rfl
    · simp only [Material.fileOrder, Option.map_some, Tree.read_eq_iff.mpr read, valid]

theorem fileOrder_eq_error_iff :
    (gather tree.reader file inputs).run.fileOrder = .error failure ↔
      OrderFails tree file none failure := by
  rw [run_gather]
  constructor
  · intro failed
    cases file with
    | none => cases failed
    | some path =>
      rw [Option.map_some, Material.fileOrder] at failed
      split at failed
      · cases failed
      · next same =>
        obtain rfl := Except.error.inj failed
        obtain ⟨rfl, unread⟩ := Prod.mk.inj (Option.some.inj same)
        exact .fileUnread (Tree.read_eq_iff.mp unread)
      · next text same =>
        obtain ⟨rfl, read⟩ := Prod.mk.inj (Option.some.inj same)
        split at failed
        · next invalid =>
          obtain rfl := Except.error.inj failed
          exact .fileInvalid (Tree.read_eq_iff.mp read) invalid
        · cases failed
  · rintro (unread | ⟨read, invalid⟩)
    · simp only [Material.fileOrder, Option.map_some, Tree.read_eq_iff.mpr unread]
    · simp only [Material.fileOrder, Option.map_some, Tree.read_eq_iff.mpr read, invalid]

theorem order_eq_ok_iff :
    (gather tree.reader file inputs).run.order written = .ok order ↔
      HasOrder tree file written order := by
  rw [Material.order, bind_eq_ok_iff]
  simp only [fileOrder_eq_ok_iff]
  constructor
  · rintro ⟨fileOrder, fromFile, ordered⟩
    cases written with
    | none =>
      obtain rfl := Except.ok.inj ordered
      exact .fromFile fromFile
    | some list =>
      dsimp only at ordered
      split at ordered
      · cases ordered
      · next parsed =>
        obtain rfl := Except.ok.inj ordered
        exact .written fromFile parsed
  · rintro (fromFile | ⟨fromFile, parsed⟩)
    · exact ⟨order, fromFile, rfl⟩
    · exact ⟨_, fromFile, by simp only [parsed]; rfl⟩

theorem order_eq_error_iff :
    (gather tree.reader file inputs).run.order written = .error failure ↔
      OrderFails tree file written failure := by
  rw [Material.order, bind_eq_error_iff]
  simp only [fileOrder_eq_ok_iff, fileOrder_eq_error_iff]
  constructor
  · rintro ((unread | ⟨read, invalid⟩) | ⟨fileOrder, fromFile, invalid⟩)
    · exact .fileUnread unread
    · exact .fileInvalid read invalid
    · cases written with
      | none => cases invalid
      | some list =>
        dsimp only at invalid
        split at invalid
        · next bad =>
          obtain rfl := Except.error.inj invalid
          exact .listInvalid fromFile bad
        · cases invalid
  · rintro (unread | ⟨read, invalid⟩ | ⟨fromFile, invalid⟩)
    · exact .inl (.fileUnread unread)
    · exact .inl (.fileInvalid read invalid)
    · exact .inr ⟨_, fromFile, by simp only [invalid]⟩

end Order

/-! ## The document stages -/

section Queries

variable {engine : Engine} {query : String} {value : Value}

theorem readOutput_eq_ok_iff {output : Except String String} :
    Query.readOutput output = .ok value ↔ ReadAs output value := by
  constructor
  · intro reads
    cases output with
    | error fault => cases reads
    | ok text => exact .json (mapError_eq_ok_iff.mp reads)
  · rintro ⟨isJson⟩
    exact mapError_eq_ok_iff.mpr isJson

theorem readOutput_eq_error_iff {output : Except String String} {e : QueryError} :
    Query.readOutput output = .error e ↔ OutputFails output e := by
  constructor
  · intro failed
    cases output with
    | error fault =>
      obtain rfl := Except.error.inj failed
      exact .failure
    | ok text =>
      obtain ⟨cause, notJson, rfl⟩ := mapError_eq_error_iff.mp failed
      exact .notJson notJson
  · rintro (_ | notJson)
    · rfl
    · exact mapError_eq_error_iff.mpr ⟨_, notJson, rfl⟩

/-- The outputs of a program are read one after the other. -/
theorem collect_readOutput (outputs : LazyList (Except String String)) :
    (outputs.map Query.readOutput).collect = outputs.toList.mapM Query.readOutput := by
  rw [LazyList.collect_eq, LazyList.toList_map, List.mapM_map]
  rfl

theorem run_eq_ok_iff {values : List Value} :
    engine.run query value = .ok values ↔ AnsweredBy engine (some query) value values := by
  unfold Engine.run
  cases loaded : engine.load query with
  | error e =>
    refine ⟨nofun, ?_⟩
    rintro (_ | ⟨loaded', -⟩)
    cases loaded.symm.trans loaded'
  | ok program =>
    dsimp only
    rw [collect_readOutput, mapM_eq_ok_iff]
    simp only [readOutput_eq_ok_iff]
    refine ⟨.outputs loaded, ?_⟩
    rintro (_ | ⟨loaded', answered⟩)
    obtain rfl := Except.ok.inj (loaded.symm.trans loaded')
    exact answered

theorem run_eq_error_iff {e : QueryError} :
    engine.run query value = .error e ↔ QueryFails engine query value e := by
  unfold Engine.run
  cases loaded : engine.load query with
  | error cause =>
    constructor
    · intro failed
      obtain rfl := Except.error.inj failed
      exact .notLoaded loaded
    · rintro (notLoaded | ⟨loaded', -⟩)
      · obtain rfl := Except.error.inj (loaded.symm.trans notLoaded)
        rfl
      · cases loaded.symm.trans loaded'
  | ok program =>
    dsimp only
    rw [collect_readOutput, mapM_eq_error_iff]
    simp only [readOutput_eq_ok_iff, readOutput_eq_error_iff]
    refine ⟨.output loaded, ?_⟩
    rintro (notLoaded | ⟨loaded', failed⟩)
    · cases loaded.symm.trans notLoaded
    · obtain rfl := Except.ok.inj (loaded.symm.trans loaded')
      exact failed

end Queries

section Documents

variable {engine : Engine} {selection : Selection} {tree : Tree} {path : String}
  {value part : Value}
  {document : Document} {documents : List Document} {failure : Failure}

theorem document_eq_ok_iff : (Source.mk path (tree.read path)).document = .ok document ↔
    ∃ text value, tree.Reads path (.ok text) ∧ Value.parse text = .ok value ∧
      document = ⟨path, value⟩ := by
  simp only [← Tree.read_eq_iff]
  unfold Source.document
  cases tree.read path with
  | error e => simp
  | ok text =>
    cases parsed : Value.parse text with
    | error e => simp [parsed]
    | ok value => simp [parsed, eq_comm]

theorem document_eq_error_iff : (Source.mk path (tree.read path)).document = .error failure ↔
    (∃ e, tree.Reads path (.error e) ∧ failure = .sourceUnread path e) ∨
      ∃ text e, tree.Reads path (.ok text) ∧ Value.parse text = .error e ∧
        failure = .sourceNotJson path text e := by
  simp only [← Tree.read_eq_iff]
  unfold Source.document
  cases tree.read path with
  | error e => simp [eq_comm]
  | ok text =>
    cases parsed : Value.parse text with
    | error e => simp [parsed, eq_comm]
    | ok value => simp [parsed]

theorem point_eq_ok_iff : selection.point ⟨path, value⟩ = .ok document ↔
    ∃ part, PointsTo selection.pointer value part ∧ document = ⟨path, part⟩ := by
  unfold Selection.point
  constructor
  · intro pointed
    split at pointed
    · next absent =>
      exact ⟨value, absent ▸ .whole, (Except.ok.inj pointed).symm⟩
    · next pointer asked =>
      split at pointed
      · cases pointed
      · next part selected =>
        exact ⟨part, asked ▸ .part selected, (Except.ok.inj pointed).symm⟩
  · rintro ⟨part, pointed, rfl⟩
    cases pointer : selection.pointer with
    | none =>
      rw [pointer] at pointed
      cases pointed
      rfl
    | some pointer =>
      rw [pointer] at pointed
      cases pointed with
      | part selected => simp only [selected]

theorem point_eq_error_iff : selection.point ⟨path, value⟩ = .error failure ↔
    ∃ pointer, selection.pointer = some pointer ∧ value.pointer? pointer = none ∧
      failure = .nothingSelected path pointer := by
  unfold Selection.point
  cases selection.pointer with
  | none => simp
  | some pointer => cases selected : value.pointer? pointer <;> simp [selected, eq_comm]

theorem ask_eq_ok_iff : selection.ask engine ⟨path, part⟩ = .ok documents ↔
    ∃ values, AnsweredBy engine selection.query part values ∧
      documents = values.map (⟨path, ·⟩) := by
  unfold Selection.ask
  cases selection.query with
  | none =>
    constructor
    · intro asked
      exact ⟨[part], .itself, (Except.ok.inj asked).symm⟩
    · rintro ⟨_, ⟨⟩, rfl⟩
      rfl
  | some query =>
    simp only [← run_eq_ok_iff]
    cases engine.run query part <;> simp [eq_comm]

theorem ask_eq_error_iff : selection.ask engine ⟨path, part⟩ = .error failure ↔
    ∃ query e, selection.query = some query ∧ QueryFails engine query part e ∧
      failure = .queryFailed path query e := by
  simp only [← run_eq_error_iff]
  unfold Selection.ask
  cases selection.query with
  | none => simp
  | some query => cases answered : engine.run query part <;> simp [answered, eq_comm]

theorem documentsOf_eq_ok_iff :
    selection.documentsOf engine ⟨path, tree.read path⟩ = .ok documents ↔
      SourceGives engine selection tree path documents := by
  rw [Selection.documentsOf, bind_eq_ok_iff]
  simp only [document_eq_ok_iff, bind_eq_ok_iff]
  constructor
  · rintro ⟨_, ⟨text, value, read, isJson, rfl⟩, _, selected, asked⟩
    obtain ⟨part, pointed, rfl⟩ := point_eq_ok_iff.mp selected
    obtain ⟨values, answered, rfl⟩ := ask_eq_ok_iff.mp asked
    exact .documents read isJson pointed answered
  · rintro ⟨read, isJson, pointed, answered⟩
    exact ⟨_, ⟨_, _, read, isJson, rfl⟩, _, point_eq_ok_iff.mpr ⟨_, pointed, rfl⟩,
      ask_eq_ok_iff.mpr ⟨_, answered, rfl⟩⟩

theorem documentsOf_eq_error_iff :
    selection.documentsOf engine ⟨path, tree.read path⟩ = .error failure ↔
      SourceFails engine selection tree path failure := by
  rw [Selection.documentsOf, bind_eq_error_iff, document_eq_error_iff]
  simp only [document_eq_ok_iff, bind_eq_error_iff]
  constructor
  · rintro ((⟨e, unread, rfl⟩ | ⟨text, e, read, notJson, rfl⟩) |
      ⟨_, ⟨text, value, read, isJson, rfl⟩, missed | ⟨_, selected, unanswered⟩⟩)
    · exact .unread unread
    · exact .notJson read notJson
    · obtain ⟨pointer, asked, nothing, rfl⟩ := point_eq_error_iff.mp missed
      exact .nothingSelected read isJson asked nothing
    · obtain ⟨part, pointed, rfl⟩ := point_eq_ok_iff.mp selected
      obtain ⟨query, e, asked, failed, rfl⟩ := ask_eq_error_iff.mp unanswered
      exact .queryFailed read isJson pointed asked failed
  · rintro (unread | ⟨read, notJson⟩ | ⟨read, isJson, asked, nothing⟩ |
      ⟨read, isJson, pointed, asked, failed⟩)
    · exact .inl (.inl ⟨_, unread, rfl⟩)
    · exact .inl (.inr ⟨_, _, read, notJson, rfl⟩)
    · exact .inr ⟨_, ⟨_, _, read, isJson, rfl⟩,
        .inl (point_eq_error_iff.mpr ⟨_, asked, nothing, rfl⟩)⟩
    · exact .inr ⟨_, ⟨_, _, read, isJson, rfl⟩, .inr ⟨_, point_eq_ok_iff.mpr ⟨_, pointed, rfl⟩,
        ask_eq_error_iff.mpr ⟨_, _, asked, failed, rfl⟩⟩⟩

theorem documents_eq_ok_iff {file : Option String} :
    selection.documents engine (gather tree.reader file selection.inputs).run = .ok documents ↔
      Loads engine selection tree documents := by
  rw [run_gather, Selection.documents, bind_eq_ok_iff]
  simp only [mapError_eq_ok_iff, map_eq_ok_iff, resolve_eq_ok_iff]
  constructor
  · rintro ⟨_, ⟨_, ⟨paths, resolved, rfl⟩, rfl⟩, collected⟩
    obtain ⟨documents, each, same⟩ := bind_eq_ok_iff.mp collected
    obtain rfl := Except.ok.inj same
    rw [List.mapM_map, mapM_eq_ok_iff] at each
    simp only [Function.comp_apply, documentsOf_eq_ok_iff] at each
    exact .documents resolved each
  · rintro ⟨resolved, loaded⟩
    refine ⟨_, ⟨_, ⟨_, resolved, rfl⟩, rfl⟩, bind_eq_ok_iff.mpr ⟨_, ?_, rfl⟩⟩
    rw [List.mapM_map, mapM_eq_ok_iff]
    simpa only [Function.comp_apply, documentsOf_eq_ok_iff] using loaded

theorem documents_eq_error_iff {file : Option String} :
    selection.documents engine (gather tree.reader file selection.inputs).run = .error failure ↔
      LoadFails engine selection tree failure := by
  rw [run_gather, Selection.documents, bind_eq_error_iff]
  simp only [mapError_eq_ok_iff, mapError_eq_error_iff, map_eq_ok_iff, map_eq_error_iff,
    resolve_eq_ok_iff, resolve_eq_error_iff]
  constructor
  · rintro (⟨e, unresolved, rfl⟩ | ⟨_, ⟨_, ⟨paths, resolved, rfl⟩, rfl⟩, failed⟩)
    · exact .unresolved unresolved
    · obtain failed | ⟨_, _, never⟩ := bind_eq_error_iff.mp failed
      · rw [List.mapM_map, mapM_eq_error_iff] at failed
        simp only [Function.comp_apply, documentsOf_eq_ok_iff, documentsOf_eq_error_iff] at failed
        exact .unloaded resolved failed
      · cases never
  · rintro (unresolved | ⟨resolved, unloaded⟩)
    · exact .inl ⟨_, unresolved, rfl⟩
    · refine .inr ⟨_, ⟨_, ⟨_, resolved, rfl⟩, rfl⟩, bind_eq_error_iff.mpr (.inl ?_)⟩
      rw [List.mapM_map, mapM_eq_error_iff]
      simpa only [Function.comp_apply, documentsOf_eq_ok_iff, documentsOf_eq_error_iff]
        using unloaded

end Documents

/-! ## The result stages -/

section Grammars

variable {order : Option PropertyOrder} {documents : List Document}

/-- The grammar of a document is that of its value, under its label. -/
theorem Document.grammar_eq_ok_iff {document : Document} {labelled : String × Grammar} :
    document.grammar order = .ok labelled ↔
      labelled.1 = document.label ∧ compileGrammar order document.value = .ok labelled.2 := by
  obtain ⟨label, grammar⟩ := labelled
  unfold Document.grammar
  cases compileGrammar order document.value with
  | error e => simp
  | ok compiled => simp [eq_comm]

theorem Document.grammar_eq_error_iff {document : Document} {failure : Failure} :
    document.grammar order = .error failure ↔ ∃ e, compileGrammar order document.value = .error e ∧
      failure = .schemaInvalid document.label e := by
  unfold Document.grammar
  cases compileGrammar order document.value <;> simp [eq_comm]

/-- Labelled grammars are the grammars beside the labels. -/
theorem forall₂_compileGrammar {labelled : List (String × Grammar)}
    (each : List.Forall₂ (fun document one => Document.grammar order document = .ok one) documents
      labelled) :
    (documents.map (·.label)).zip (labelled.map (·.2)) = labelled ∧
      List.Forall₂ (fun document grammar => compileGrammar order document.value = .ok grammar)
        documents (labelled.map (·.2)) := by
  induction each with
  | nil => exact ⟨rfl, .nil⟩
  | cons here _ ih =>
    obtain ⟨label, compiled⟩ := Document.grammar_eq_ok_iff.mp here
    refine ⟨?_, .cons compiled ih.2⟩
    rw [List.map_cons, List.map_cons, List.zip_cons_cons, ih.1, ← label]

theorem forall₂_grammar {grammars : List Grammar}
    (each : List.Forall₂ (fun document grammar => compileGrammar order document.value = .ok grammar)
      documents grammars) :
    List.Forall₂ (fun document one => Document.grammar order document = .ok one) documents
      ((documents.map (·.label)).zip grammars) := by
  induction each with
  | nil => exact .nil
  | cons here _ ih => exact .cons (Document.grammar_eq_ok_iff.mpr ⟨rfl, here⟩) ih

end Grammars

section Chats

variable {documents : List Document}

/-- The messages that are shown are those of the documents. -/
theorem forall₂_normalizeValue {shown : List Value}
    (each : List.Forall₂ (fun document v => Document.chat document = .ok v) documents shown) :
    ∃ chats : List (List Chat.FormattedMessage),
      (chats.map fun messages => Value.array (messages.map (·.toValue))) = shown ∧
      List.Forall₂ (fun document messages => Chat.normalizeValue document.value = .ok messages)
        documents chats := by
  induction each with
  | nil => exact ⟨[], rfl, .nil⟩
  | @cons document v documents shown here _ ih =>
    obtain ⟨chats, rfl, each⟩ := ih
    unfold Document.chat at here
    split at here
    · cases here
    · next messages flattened =>
      obtain rfl := Except.ok.inj here
      exact ⟨messages :: chats, rfl, .cons flattened each⟩

theorem forall₂_chat {chats : List (List Chat.FormattedMessage)}
    (each : List.Forall₂ (fun document messages =>
      Chat.normalizeValue document.value = .ok messages) documents chats) :
    List.Forall₂ (fun document v => Document.chat document = .ok v) documents
      (chats.map fun messages => .array (messages.map (·.toValue))) := by
  induction each with
  | nil => exact .nil
  | cons here _ ih => exact .cons (by simp only [Document.chat, here]) ih

theorem Document.chat_eq_error_iff {document : Document} {failure : Failure} :
    document.chat = .error failure ↔ ∃ e, Chat.normalizeValue document.value = .error e ∧
      failure = .messagesInvalid document.label e := by
  unfold Document.chat
  cases Chat.normalizeValue document.value <;> simp [eq_comm]

end Chats

end SchemaGrammar.Command
