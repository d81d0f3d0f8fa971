/-!
# Reading files

What a command may ask of the files around it: what stands at a path, the text of a file and the
names in a directory. A `Reader` answers these questions in any monad, so that the same search runs
over the disk and over a `Tree` held in memory.
-/

namespace SchemaGrammar.Files

/-- Why a file cannot be read or written. -/
inductive FileError
  | missing
  | alreadyThere
  | notDirectory
  | isDirectory
  | notText
  | other (description : String)
  deriving DecidableEq, Repr

/-- The words for an error, with the number that the system gives it. -/
def FileError.message : FileError → String
  | missing => "No such file or directory (os error 2)"
  | alreadyThere => "File exists (os error 17)"
  | notDirectory => "Not a directory (os error 20)"
  | isDirectory => "Is a directory (os error 21)"
  | notText => "stream did not contain valid UTF-8"
  | other description => description

/-- What may stand at a path. -/
inductive FileKind
  | file
  | directory
  deriving DecidableEq, Repr

/-- Answers about the files around a command. `depth` bounds how many directories stand one inside
another: a search goes no deeper. -/
structure Reader (m : Type → Type) where
  kind : String → m (Option FileKind)
  read : String → m (Except FileError String)
  names : String → m (List String)
  depth : Nat

end SchemaGrammar.Files
