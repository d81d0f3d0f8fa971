import SchemaGrammar.Files.Path
import SchemaGrammar.Files.Pattern
import SchemaGrammar.Files.Reader

/-!
# Searching for the paths that match a pattern

The search follows the names of a pattern from directory to directory. A name that is written out
is looked up and needs no match. Entries are tried in ascending order of their names, and what lies
in a directory comes right behind the directory itself. A pattern for a name that begins with a dot
also finds the directory itself and the one above it, before the entries.
-/

namespace SchemaGrammar.Files

/-- The names of two special entries that a pattern finds. -/
def specialNames (signs : List Sign) : List String :=
  if signs.head? == some (.char '.') then
    ["..", "."].filter fun name => fits signs name.toList
  else []

namespace Reader

variable {m : Type → Type} [Monad m] (reader : Reader m)

/-- Whether a directory stands at a path. -/
def isDirectory (path : String) : m Bool := return (← reader.kind path) == some .directory

/-- The names of the entries of the directory at a path, in ascending order. -/
def sortedNames (path : String) : m (List String) :=
  return (← reader.names path).mergeSort (· ≤ ·)

/-- Whether a name that is written out leads from `path` on to `next`. -/
def leads (path name next : String) : m Bool :=
  if name == "." || name == ".." then reader.isDirectory path
  else return (← reader.kind next).isSome

/-- The paths below `path` that match the names of a pattern; `deeper` bounds how many directories
the first of these names may still stand for. -/
def searchFrom (onlyDirectories : Bool) (path : String) (components : List Component)
    (deeper : Nat) : m (List String) :=
  match components, deeper with
  | [], _ => do
    if !onlyDirectories || (← reader.isDirectory path) then return [path] else return []
  | .name text :: rest, _ => do
    let next := if isWorkingDirectory path then text else join path text
    if ← reader.leads path text next then
      searchFrom onlyDirectories next rest reader.depth
    else return []
  | .shape signs :: rest, _ => do
    if !(← reader.isDirectory path) then return []
    let special ← (specialNames signs).mapM fun name =>
      searchFrom onlyDirectories (join path name) rest reader.depth
    let entries := (← reader.sortedNames path).filter fun name => fits signs name.toList
    let found ← entries.mapM fun name =>
      searchFrom onlyDirectories (entryPath path name) rest reader.depth
    return special.flatten ++ found.flatten
  | .anyDepth :: _, 0 => return []
  | .anyDepth :: rest, deeper + 1 => do
    if !(← reader.isDirectory path) then return []
    let found ← (← reader.sortedNames path).mapM fun name => do
      let entry := entryPath path name
      let here ← match rest with
        | [] => do if ← reader.isDirectory entry then pure [entry] else pure []
        | c :: more =>
          if c.fits name then searchFrom onlyDirectories entry more reader.depth else pure []
      return here ++ (← searchFrom onlyDirectories entry (.anyDepth :: rest) deeper)
    return found.flatten
termination_by (components.length, deeper)

/-- The paths that match a pattern. -/
def search (pattern : Pattern) : m (List String) :=
  if pattern.components.isEmpty then return []
  else
    reader.searchFrom pattern.onlyDirectories (if pattern.fromRoot then "/" else ".")
      pattern.components reader.depth

end Reader

end SchemaGrammar.Files
