import SchemaGrammar.Command.Run
import SchemaGrammar.Query.Evaluation

/-!
# The program

Answers a request's questions from the disk, delivers what it asks for and prints. What a request
means is decided in `Command`; here it only meets the world.
-/

namespace SchemaGrammar

open Files (FileError FileKind Reader)
open Command

/-- The error that the system reports by its number. -/
def systemError (code : UInt32) (details : String) : FileError :=
  let number := if code < 0x80000000 then code else 0 - code
  if number == 2 then .missing
  else if number == 17 then .alreadyThere
  else if number == 20 then .notDirectory
  else if number == 21 then .isDirectory
  else .other s!"{details} (os error {number})"

/-- The error that a failed access stands for. -/
def accessError : IO.Error → FileError
  | .noFileOrDirectory _ code details => systemError code details
  | .alreadyExists _ code details => systemError code details
  | .inappropriateType _ code details => systemError code details
  | .permissionDenied _ code details => systemError code details
  | .resourceExhausted _ code details => systemError code details
  | .invalidArgument _ code details => systemError code details
  | .otherError code details => systemError code details
  | e => .other e.toString

/-- A path as an entry of the working directory. -/
def diskEntry (path : String) : IO.FS.DirEntry := ⟨".", path⟩

/-- What stands at a path on the disk. -/
def diskKind (path : String) : IO (Option FileKind) := do
  if path.isEmpty then return none
  match ← (diskEntry path).path.metadata.toBaseIO with
  | .error _ => return none
  | .ok found => return some (if found.type == .dir then .directory else .file)

/-- The text of a file on the disk. -/
def diskRead (path : String) : IO (Except FileError String) := do
  match ← (IO.FS.readBinFile path).toBaseIO with
  | .error e => return .error (accessError e)
  | .ok content =>
    match String.fromUTF8? content with
    | none => return .error .notText
    | some text => return .ok text

/-- The names in a directory on the disk. -/
def diskNames (path : String) : IO (List String) := do
  match ← (diskEntry path).path.readDir.toBaseIO with
  | .error _ => return []
  | .ok entries => return entries.toList.map (·.fileName)

/-- Answers from the disk. No path that a system takes has more names than the bound. -/
def disk : Reader IO where
  kind := diskKind
  read := diskRead
  names := diskNames
  depth := 4096

/-- Saves a text on the disk, with the directories that its path asks for. -/
def saveOnDisk (path text : String) : IO (Except Failure Unit) := do
  match Files.parent? path with
  | none | some "" => pure ()
  | some above =>
    if let .error e ← (IO.FS.createDirAll above).toBaseIO then
      return .error (.directoryNotMade above (accessError e))
  if let .error e ← (IO.FS.writeFile path text).toBaseIO then
    return .error (.notWritten path (accessError e))
  return .ok ()

/-- Delivers a text. -/
def deliverToDisk (delivery : Delivery) : IO (Except Failure Unit) :=
  match delivery.out with
  | some path => saveOnDisk path delivery.text
  | none => do
    IO.println delivery.text
    return .ok ()

/-- Carries out a request, and gives the exit code. -/
def serve (request : Request) : IO UInt32 := do
  let result ← match ← request.deliver Query.evaluator disk with
    | .error failure => pure (.error failure)
    | .ok delivery => deliverToDisk delivery
  match result with
  | .ok () => return 0
  | .error failure =>
    IO.eprint (errorLine failure.message)
    return failureExit.toUInt32

end SchemaGrammar

/-- Runs the program with the arguments of the command line. -/
def main (arguments : List String) : IO UInt32 := do
  match SchemaGrammar.Command.Request.ofArguments arguments with
  | .error e =>
    IO.eprint e.report
    return SchemaGrammar.Command.usageExit.toUInt32
  | .ok request => SchemaGrammar.serve request
