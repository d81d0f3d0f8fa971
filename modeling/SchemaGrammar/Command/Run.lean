import SchemaGrammar.Command.Report
import SchemaGrammar.Files.Tree

/-!
# Carrying out a request

A request reads its material, makes its report and delivers it: to a file, whose directory is made
if it is missing, or to standard output with a line break behind. A failure is told on standard
error, and nothing is delivered then.
-/

namespace SchemaGrammar.Command

open Files (Reader Tree)

/-- The name and the version of the program. -/
def versionText : String := "json-gbnf 0.1.0"

/-- A text and the file it is for, if it is not for standard output. -/
structure Delivery where
  text : String
  out : Option String
  deriving DecidableEq, Repr

/-- What a request has to deliver. -/
def Request.deliver {m : Type → Type} [Monad m] (engine : Query.Engine) (reader : Reader m) :
    Request → m (Except Failure Delivery)
  | .grammar request => do
    let material ← gather reader request.orderFile request.selection.inputs
    return (request.report engine material).map (⟨·, request.out⟩)
  | .chat request => do
    let material ← gather reader none request.selection.inputs
    return (request.report engine material).map (⟨·, request.out⟩)
  | .help text => return .ok ⟨text, none⟩
  | .version => return .ok ⟨versionText, none⟩

/-- How a run ends: its exit code, what it printed, and the tree that it leaves. -/
structure Outcome where
  exit : Nat
  stdout : String
  stderr : String
  tree : Tree

/-- The exit code of a run that fails. -/
def failureExit : Nat := 1

/-- The exit code after a usage error. -/
def usageExit : Nat := 2

/-- What is printed for a failure. -/
def errorLine (message : String) : String := s!"error: {message}\n"

/-- What is printed for a usage error: the help, if there were no arguments at all. -/
def UsageError.report : UsageError → String
  | .noArguments => topHelp
  | e => errorLine e.message

/-- Makes the directory that holds a path, where the path names one. -/
def makeParent (tree : Tree) (path : String) : Tree × Except Failure Unit :=
  match Files.parent? path with
  | none | some "" => (tree, .ok ())
  | some above =>
    let (ready, made) := tree.makeDirectory above
    (ready, made.mapError (.directoryNotMade above))

/-- Saves a text in a tree, with the directories that its path asks for; they stay even if the text
cannot be saved. -/
def saveIn (tree : Tree) (path text : String) : Tree × Except Failure Unit :=
  match makeParent tree path with
  | (ready, .error e) => (ready, .error e)
  | (ready, .ok ()) =>
    match ready.write path text with
    | .error e => (ready, .error (.notWritten path e))
    | .ok saved => (saved, .ok ())

/-- How a run ends that fails and leaves a tree. -/
def Failure.outcome (failure : Failure) (tree : Tree) : Outcome :=
  ⟨failureExit, "", errorLine failure.message, tree⟩

/-- Delivers a text within a tree. -/
def Delivery.run (tree : Tree) (delivery : Delivery) : Outcome :=
  match delivery.out with
  | none => ⟨0, delivery.text ++ "\n", "", tree⟩
  | some path =>
    match saveIn tree path delivery.text with
    | (saved, .ok ()) => ⟨0, "", "", saved⟩
    | (left, .error failure) => failure.outcome left

/-- Carries out a request within a tree. -/
def Request.run (engine : Query.Engine) (tree : Tree) (request : Request) : Outcome :=
  match (request.deliver engine tree.reader).run with
  | .error failure => failure.outcome tree
  | .ok delivery => delivery.run tree

/-- Runs the program with its arguments within a tree. -/
def run (engine : Query.Engine) (tree : Tree) (arguments : List String) :
    Except UsageError Outcome :=
  (Request.ofArguments arguments).map (·.run engine tree)

end SchemaGrammar.Command
