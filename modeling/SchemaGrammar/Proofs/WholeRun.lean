import Mathlib
import SchemaGrammar.Command.Run
import SchemaGrammar.Proofs.ReadBack
import SchemaGrammar.Proofs.SavedFile
import SchemaGrammar.Proofs.Stages
import SchemaGrammar.Query.Evaluation

/-!
# Whole runs

A request gives its report if each of its stages gives something (`Gives`), and otherwise it fails
with the failure of a stage (`Fails`): all stages that read come first, and then the results for the
documents are made. `exists_outcome` says how every run ends, whichever engine runs the queries. A
failure leaves the tree as it is and nothing on standard output. A report is printed as a whole, or
it is saved in the one file that is asked for, if a text can be saved there, and if none can, the
run tells what is in the way (`SaveFails`). As everything is read from the tree before the run, the
file may be one that is read.
-/

namespace SchemaGrammar.Command

open Files (FileError Tree)
open Gbnf (Grammar)
open Json (Value)
open Query (Engine)

/-! ## Requests -/

/-- What a request gives: a command its report on the results for all documents. -/
inductive Gives (engine : Engine) (tree : Tree) : Request → Delivery → Prop
  | help {text : String} : Gives engine tree (.help text) ⟨text, none⟩
  | version : Gives engine tree .version ⟨versionText, none⟩
  | grammars {request : GrammarRequest} {order : Option PropertyOrder} {documents : List Document}
      {grammars : List Grammar} (ordered : HasOrder tree request.orderFile request.order order)
      (loaded : Loads engine request.selection tree documents)
      (compiled : List.Forall₂ (fun document grammar =>
        compileGrammar order document.value = .ok grammar) documents grammars) :
      Gives engine tree (.grammar request)
        ⟨if request.params then paramsText grammars
          else grammarsText ((documents.map (·.label)).zip grammars), request.out⟩
  | chats {request : ChatRequest} {documents : List Document}
      {chats : List (List Chat.FormattedMessage)}
      (loaded : Loads engine request.selection tree documents)
      (flattened : List.Forall₂ (fun document messages =>
        Chat.normalizeValue document.value = .ok messages) documents chats) :
      Gives engine tree (.chat request)
        ⟨(aloneOrListed (chats.map fun messages => .array (messages.map (·.toValue)))).pretty,
          request.out⟩

/-- How a request fails. Schemas are compiled side by side, so that any of the bad ones may be
reported; of the messages it is the first. -/
inductive Fails (engine : Engine) (tree : Tree) : Request → Failure → Prop
  | order {request : GrammarRequest} {failure : Failure}
      (unordered : OrderFails tree request.orderFile request.order failure) :
      Fails engine tree (.grammar request) failure
  | schemas {request : GrammarRequest} {order : Option PropertyOrder} {failure : Failure}
      (ordered : HasOrder tree request.orderFile request.order order)
      (unloaded : LoadFails engine request.selection tree failure) :
      Fails engine tree (.grammar request) failure
  | schema {request : GrammarRequest} {order : Option PropertyOrder} {documents : List Document}
      {document : Document} {e : SchemaError}
      (ordered : HasOrder tree request.orderFile request.order order)
      (loaded : Loads engine request.selection tree documents) (mem : document ∈ documents)
      (invalid : compileGrammar order document.value = .error e) :
      Fails engine tree (.grammar request) (.schemaInvalid document.label e)
  | chats {request : ChatRequest} {failure : Failure}
      (unloaded : LoadFails engine request.selection tree failure) :
      Fails engine tree (.chat request) failure
  | messages {request : ChatRequest} {documents : List Document} {failure : Failure}
      (loaded : Loads engine request.selection tree documents)
      (invalid : FirstFails (fun document messages =>
          Chat.normalizeValue document.value = .ok messages)
        (fun document failure => ∃ e, Chat.normalizeValue document.value = .error e ∧
          failure = .messagesInvalid document.label e) documents failure) :
      Fails engine tree (.chat request) failure

/-- Two failures are one and the same, or both are about schemas. -/
def Alike (failure other : Failure) : Prop :=
  failure = other ∨ (∃ label e, failure = .schemaInvalid label e) ∧
    ∃ label e, other = .schemaInvalid label e

theorem Alike.symm {failure other : Failure} (alike : Alike failure other) : Alike other failure :=
  alike.imp Eq.symm And.symm

theorem Alike.trans {failure other third : Failure} (alike : Alike failure other)
    (alike' : Alike other third) : Alike failure third := by
  rcases alike with rfl | ⟨schema, schema'⟩
  · exact alike'
  · rcases alike' with rfl | ⟨-, schema''⟩
    · exact .inr ⟨schema, schema'⟩
    · exact .inr ⟨schema, schema''⟩

/-- How a text is not saved under a path. A file in the way of the directories above it leaves those
that have been made before; a path that is refused leaves all of them. -/
inductive SaveFails (tree : Tree) (path : String) : Failure → Tree → Prop
  | directoryNotMade {above : String} {e : FileError} {left : Tree}
      (parent : Files.parent? path = some above)
      (obstructed : tree.Obstructed (tree.start path) False (Files.moves path).dropLast e left) :
      SaveFails tree path (.directoryNotMade above e) left
  | notWritten {e : FileError} {left : Tree}
      (clear : tree.Clear (tree.start path) (Files.moves path).dropLast)
      (furnished : tree.Furnished (tree.OnTheWay path) left) (refuses : left.Refuses path e) :
      SaveFails tree path (.notWritten path e) left

/-- How a run ends. A request that fails leaves the tree as it is. One that gives a report prints
it, or saves it where this can be done, and only there; otherwise it tells why it has not been
saved. -/
inductive Ends (engine : Engine) (tree : Tree) (request : Request) : Outcome → Prop
  | failed {failure : Failure} (fails : Fails engine tree request failure) :
      Ends engine tree request ⟨failureExit, "", errorLine failure.message, tree⟩
  | printed {text : String} (gives : Gives engine tree request ⟨text, none⟩) :
      Ends engine tree request ⟨0, text ++ "\n", "", tree⟩
  | saved {text path : String} {later : Tree}
      (gives : Gives engine tree request ⟨text, some path⟩) (savable : tree.Savable path)
      (saved : tree.Saved path text later) : Ends engine tree request ⟨0, "", "", later⟩
  | notSaved {text path : String} {left : Tree} {failure : Failure}
      (gives : Gives engine tree request ⟨text, some path⟩) (unsavable : ¬ tree.Savable path)
      (fails : SaveFails tree path failure left) :
      Ends engine tree request ⟨failureExit, "", errorLine failure.message, left⟩

/-! ## Reports -/

section Reports

variable {engine : Engine} {tree : Tree} {delivery : Delivery} {failure : Failure}

theorem deliver_grammar_eq_ok_iff {request : GrammarRequest} :
    ((Request.grammar request).deliver engine tree.reader).run = .ok delivery ↔
      Gives engine tree (.grammar request) delivery := by
  have delivered : ((Request.grammar request).deliver engine tree.reader).run =
      (request.report engine (gather tree.reader request.orderFile request.selection.inputs).run).map
        (⟨·, request.out⟩) := rfl
  rw [delivered, map_eq_ok_iff]
  simp only [GrammarRequest.report, bind_eq_ok_iff, order_eq_ok_iff, documents_eq_ok_iff,
    mapM_eq_ok_iff]
  constructor
  · rintro ⟨_, ⟨order, ordered, documents, loaded, labelled, each, same⟩, rfl⟩
    obtain rfl := Except.ok.inj same
    obtain ⟨zipped, compiled⟩ := forall₂_compileGrammar each
    have gives := Gives.grammars ordered loaded compiled
    rwa [zipped] at gives
  · intro gives
    cases gives with
    | grammars ordered loaded compiled =>
    refine ⟨_, ⟨_, ordered, _, loaded, _, forall₂_grammar compiled, rfl⟩, ?_⟩
    rw [List.map_snd_zip (by rw [List.length_map, compiled.length_eq])]

theorem deliver_chat_eq_ok_iff {request : ChatRequest} :
    ((Request.chat request).deliver engine tree.reader).run = .ok delivery ↔
      Gives engine tree (.chat request) delivery := by
  have delivered : ((Request.chat request).deliver engine tree.reader).run =
      (request.report engine (gather tree.reader none request.selection.inputs).run).map
        (⟨·, request.out⟩) := rfl
  rw [delivered, map_eq_ok_iff]
  simp only [ChatRequest.report, bind_eq_ok_iff, documents_eq_ok_iff, mapM_eq_ok_iff]
  constructor
  · rintro ⟨_, ⟨documents, loaded, shown, each, same⟩, rfl⟩
    obtain rfl := Except.ok.inj same
    obtain ⟨chats, rfl, flattened⟩ := forall₂_normalizeValue each
    exact .chats loaded flattened
  · intro gives
    cases gives with
    | chats loaded flattened =>
    exact ⟨_, ⟨_, loaded, _, forall₂_chat flattened, rfl⟩, rfl⟩

/-- A request delivers what it gives. -/
theorem deliver_eq_ok_iff {request : Request} :
    (request.deliver engine tree.reader).run = .ok delivery ↔
      Gives engine tree request delivery := by
  cases request with
  | grammar request => exact deliver_grammar_eq_ok_iff
  | chat request => exact deliver_chat_eq_ok_iff
  | help text =>
    constructor
    · intro delivered
      obtain rfl := Except.ok.inj delivered
      exact .help
    · rintro ⟨⟩
      rfl
  | version =>
    constructor
    · intro delivered
      obtain rfl := Except.ok.inj delivered
      exact .version
    · rintro ⟨⟩
      rfl

/-- A request that delivers nothing fails with the failure that is told. -/
theorem fails_of_deliver {request : Request}
    (failed : (request.deliver engine tree.reader).run = .error failure) :
    Fails engine tree request failure := by
  cases request with
  | grammar request =>
    have reported : request.report engine
        (gather tree.reader request.orderFile request.selection.inputs).run = .error failure :=
      map_eq_error_iff.mp failed
    simp only [GrammarRequest.report, bind_eq_error_iff, order_eq_ok_iff, order_eq_error_iff,
      documents_eq_ok_iff, documents_eq_error_iff] at reported
    obtain unordered | ⟨order, ordered, unloaded | ⟨documents, loaded, bad | ⟨_, _, never⟩⟩⟩ :=
      reported
    · exact .order unordered
    · exact .schemas ordered unloaded
    · obtain ⟨before, document, after, rfl, -, here⟩ := mapM_eq_error_iff.mp bad
      obtain ⟨e, invalid, rfl⟩ := Document.grammar_eq_error_iff.mp here
      exact .schema ordered loaded (by simp) invalid
    · cases never
  | chat request =>
    have reported : request.report engine
        (gather tree.reader none request.selection.inputs).run = .error failure :=
      map_eq_error_iff.mp failed
    simp only [ChatRequest.report, bind_eq_error_iff, documents_eq_ok_iff,
      documents_eq_error_iff] at reported
    obtain unloaded | ⟨documents, loaded, invalid | ⟨_, _, never⟩⟩ := reported
    · exact .chats unloaded
    · obtain ⟨before, document, after, rfl, ⟨shown, each⟩, here⟩ := mapM_eq_error_iff.mp invalid
      obtain ⟨chats, -, flattened⟩ := forall₂_normalizeValue each
      exact .messages loaded ⟨before, document, after, rfl, ⟨chats, flattened⟩,
        Document.chat_eq_error_iff.mp here⟩
    · cases never
  | help text => cases failed
  | version => cases failed

/-- A request that fails delivers nothing, and tells its failure, or that of another schema. -/
theorem exists_alike_deliver {request : Request} (fails : Fails engine tree request failure) :
    ∃ told, (request.deliver engine tree.reader).run = .error told ∧ Alike told failure := by
  cases fails with
  | @order request _ unordered =>
    refine ⟨failure, map_eq_error_iff.mpr ?_, .inl rfl⟩
    exact bind_eq_error_iff.mpr (.inl (order_eq_error_iff.mpr unordered))
  | @schemas request order _ ordered unloaded =>
    refine ⟨failure, map_eq_error_iff.mpr ?_, .inl rfl⟩
    refine bind_eq_error_iff.mpr (.inr ⟨order, order_eq_ok_iff.mpr ordered, ?_⟩)
    exact bind_eq_error_iff.mpr (.inl (documents_eq_error_iff.mpr unloaded))
  | @schema request order documents document e ordered loaded mem invalid =>
    have compiled : ∃ told, documents.mapM (·.grammar order) = .error told := by
      cases results : documents.mapM (·.grammar order) with
      | error told => exact ⟨told, rfl⟩
      | ok labelled =>
        obtain ⟨one, -, here⟩ := exists_of_mem_forall₂ (mapM_eq_ok_iff.mp results) mem
        exact absurd (invalid.symm.trans (Document.grammar_eq_ok_iff.mp here).2) nofun
    obtain ⟨told, notCompiled⟩ := compiled
    refine ⟨told, map_eq_error_iff.mpr ?_, .inr ⟨?_, document.label, e, rfl⟩⟩
    · refine bind_eq_error_iff.mpr (.inr ⟨order, order_eq_ok_iff.mpr ordered, ?_⟩)
      refine bind_eq_error_iff.mpr (.inr ⟨documents, documents_eq_ok_iff.mpr loaded, ?_⟩)
      exact bind_eq_error_iff.mpr (.inl notCompiled)
    · obtain ⟨before, first, after, -, -, here⟩ := mapM_eq_error_iff.mp notCompiled
      obtain ⟨e, -, rfl⟩ := Document.grammar_eq_error_iff.mp here
      exact ⟨first.label, e, rfl⟩
  | @chats request _ unloaded =>
    refine ⟨failure, map_eq_error_iff.mpr ?_, .inl rfl⟩
    exact bind_eq_error_iff.mpr (.inl (documents_eq_error_iff.mpr unloaded))
  | @messages request documents _ loaded invalid =>
    obtain ⟨before, document, after, same, ⟨chats, flattened⟩, here⟩ := invalid
    refine ⟨failure, map_eq_error_iff.mpr ?_, .inl rfl⟩
    refine bind_eq_error_iff.mpr (.inr ⟨documents, documents_eq_ok_iff.mpr loaded, ?_⟩)
    refine bind_eq_error_iff.mpr (.inl (mapM_eq_error_iff.mpr ?_))
    exact ⟨before, document, after, same, ⟨_, forall₂_chat flattened⟩,
      Document.chat_eq_error_iff.mpr here⟩

end Reports

/-! ## Saving -/

section Saving

variable {tree later : Tree} {path text : String} {failure : Failure}

/-- Making the directory above a path is making directories along its names but the last. -/
theorem attempt_makeDirectory (tree : Tree) {above : String}
    (parent : Files.parent? path = some above) :
    tree.Attempt (tree.start path) False (Files.moves path).dropLast
      (tree.makeDirectory above) := by
  obtain ⟨moves, begins⟩ := Files.moves_of_parent?_eq_some parent
  have start : tree.start above = tree.start path := if_congr begins rfl rfl
  have attempt := Tree.attempt_makeDirectories (Files.moves above) tree (tree.start above) false
    (Tree.standing_start tree above)
  rw [Tree.makeDirectory, ← moves, ← start]
  simpa only [Bool.false_eq_true] using attempt

/-- The directories above a path are made, or a file is in their way. -/
theorem makeParent_cases (tree : Tree) (path : String) :
    (∃ ready, makeParent tree path = (ready, .ok ()) ∧
      tree.Clear (tree.start path) (Files.moves path).dropLast ∧
      tree.Furnished (tree.OnTheWay path) ready) ∨
    ∃ above e left, makeParent tree path = (left, .error (.directoryNotMade above e)) ∧
      Files.parent? path = some above ∧
      tree.Obstructed (tree.start path) False (Files.moves path).dropLast e left := by
  have nowhere (none : (Files.moves path).dropLast = []) :
      tree.Clear (tree.start path) (Files.moves path).dropLast ∧
        tree.Furnished (tree.OnTheWay path) tree := by
    have directory := (Tree.standing_start tree path).here
    rw [Tree.OnTheWay, none]
    exact ⟨Tree.clear_nil directory, Tree.furnished_nil directory⟩
  unfold makeParent
  split
  · next root =>
    exact .inl ⟨tree, rfl,
      nowhere (by rw [Files.moves_of_parent?_eq_none root, List.dropLast_nil])⟩
  · next here =>
    exact .inl ⟨tree, rfl, nowhere (Files.moves_of_parent?_eq_some here).1.symm⟩
  · next above _ parent =>
    have attempt := attempt_makeDirectory tree parent
    generalize tree.makeDirectory above = made at attempt
    cases attempt with
    | made clear furnished => exact .inl ⟨_, rfl, clear, furnished⟩
    | stopped obstructed => exact .inr ⟨above, _, _, rfl, parent, obstructed⟩

theorem saved_of_saveIn (success : saveIn tree path text = (later, .ok ())) :
    tree.Savable path ∧ tree.Saved path text later := by
  unfold saveIn at success
  obtain ⟨ready, made, clear, furnished⟩ | ⟨above, e, left, made, -⟩ := makeParent_cases tree path
  · rw [made] at success
    dsimp only at success
    split at success
    · cases (Prod.mk.inj success).2
    · next written =>
      obtain rfl := (Prod.mk.inj success).1
      exact Tree.saved_of_write clear furnished written
  · rw [made] at success
    cases (Prod.mk.inj success).2

theorem fails_of_saveIn (failed : saveIn tree path text = (later, .error failure)) :
    ¬ tree.Savable path ∧ SaveFails tree path failure later := by
  unfold saveIn at failed
  obtain ⟨ready, made, clear, furnished⟩ | ⟨above, e, left, made, parent, obstructed⟩ :=
    makeParent_cases tree path
  · rw [made] at failed
    dsimp only at failed
    split at failed
    · next e notWritten =>
      obtain ⟨rfl, same⟩ := Prod.mk.inj failed
      obtain rfl := Except.error.inj same
      obtain ⟨refuses, unsavable⟩ := Tree.refuses_of_write clear furnished notWritten
      exact ⟨unsavable, .notWritten clear furnished refuses⟩
    · cases (Prod.mk.inj failed).2
  · rw [made] at failed
    obtain ⟨rfl, same⟩ := Prod.mk.inj failed
    obtain rfl := Except.error.inj same
    exact ⟨fun savable => obstructed.not_clear savable.clear, .directoryNotMade parent obstructed⟩

end Saving

/-! ## Runs -/

theorem ends_run (engine : Engine) (tree : Tree) (request : Request) :
    Ends engine tree request (request.run engine tree) := by
  unfold Request.run
  split
  · next failure failed => exact .failed (fails_of_deliver failed)
  · next delivery delivered =>
    have gives := deliver_eq_ok_iff.mp delivered
    obtain ⟨text, out⟩ := delivery
    unfold Delivery.run
    split
    · next printed =>
      obtain rfl : out = none := printed
      exact .printed gives
    · next path toFile =>
      obtain rfl : out = some path := toFile
      split
      · next success =>
        obtain ⟨savable, saved⟩ := saved_of_saveIn success
        exact .saved gives savable saved
      · next failed =>
        obtain ⟨unsavable, fails⟩ := fails_of_saveIn failed
        exact .notSaved gives unsavable fails

/-- Two reports of one request are the same. -/
theorem Gives.unique {engine : Engine} {tree : Tree} {request : Request} {delivery other : Delivery}
    (gives : Gives engine tree request delivery) (gives' : Gives engine tree request other) :
    delivery = other :=
  Except.ok.inj ((deliver_eq_ok_iff.mpr gives).symm.trans (deliver_eq_ok_iff.mpr gives'))

/-- A text in the only file of a tree, in the working directory, is read, and another one can be
saved in its place. -/
theorem savable_of_ofEntries (text : String) :
    let tree := Tree.ofEntries ["home"] [("chat.json", .file (Files.bytesOf text))]
    tree.aim "chat.json" = ["home", "chat.json"] ∧ tree.Reads "chat.json" (.ok text) ∧
      tree.Savable "chat.json" := by
  intro tree
  have leads : tree.aim "chat.json" = ["home", "chat.json"] := by cbv
  have stands : tree.node? (tree.aim "chat.json") = some (.file (Files.bytesOf text)) := by cbv
  have home : tree.node? (tree.start "chat.json") = some .directory := by cbv
  have named : Files.NamesEntry "chat.json" := ⟨[], "chat.json", by cbv, rfl, by decide⟩
  have alone : (Files.moves "chat.json").dropLast = [] := by cbv
  refine ⟨leads, Tree.reads_of_namesEntry (fun location onTheWay => ?_) named stands, named,
    ?_, ?_, ?_⟩
  · rw [Tree.OnTheWay, alone, Files.passes_nil] at onTheWay
    rw [onTheWay, home]
  · rw [alone]
    exact Tree.clear_nil home
  · intro directory
    cases stands.symm.trans directory
  · have start : tree.start "chat.json" = ["home"] := by cbv
    rw [Tree.OnTheWay, alone, Files.passes_nil, leads, start]
    decide

end SchemaGrammar.Command
