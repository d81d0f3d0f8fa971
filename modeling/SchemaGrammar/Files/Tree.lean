import SchemaGrammar.Files.Path
import SchemaGrammar.Files.Reader

/-!
# Trees of files

A tree holds files and directories from the root on, and one of its directories is the working
directory. A path is followed name by name, from the root if it begins with a slash and from the
working directory otherwise, and each name but the last has to be a directory. Two dots lead to the
directory above; the root is above itself.
-/

namespace SchemaGrammar.Files

/-- The names that lead from the root to an entry. -/
abbrev Location := List String

/-- An entry of a tree. -/
inductive Node
  | file (content : List UInt8)
  | directory
  deriving DecidableEq

/-- The text that the bytes of a file encode. -/
def textOf? (content : List UInt8) : Option String := String.fromUTF8? ⟨content.toArray⟩

/-- The bytes that encode a text. -/
def bytesOf (text : String) : List UInt8 := text.toUTF8.data.toList

/-- A working directory, and the entries of a tree, each directory among them. The working directory
and those above it are there without being among the entries. -/
structure Tree where
  workingDirectory : Location
  entries : List (Location × Node)

namespace Tree

/-- A tree with nothing but a working directory. -/
def empty (workingDirectory : Location) : Tree := ⟨workingDirectory, []⟩

/-- What stands at a location. -/
def node? (tree : Tree) (location : Location) : Option Node :=
  if location <+: tree.workingDirectory then some .directory else tree.entries.lookup location

/-- Puts an entry at a location, in place of the one that stands there. -/
def put (tree : Tree) (location : Location) (node : Node) : Tree :=
  { tree with entries := (location, node) :: tree.entries.filter (·.1 != location) }

/-- The locations from the root to a location, itself included. -/
def wayTo (location : Location) : List Location :=
  (List.range (location.length + 1)).map location.take

/-- All locations at which something stands. -/
def locations (tree : Tree) : List Location :=
  wayTo tree.workingDirectory ++ tree.entries.map Prod.fst

/-- Puts a directory at a location, where there is none. -/
def addDirectory (tree : Tree) (location : Location) : Tree :=
  if tree.node? location = some .directory then tree else tree.put location .directory

/-- Puts an entry at a location, and the directories above it. -/
def insert (tree : Tree) (location : Location) (node : Node) : Tree :=
  ((wayTo location.dropLast).foldl addDirectory tree).put location node

/-- The tree of some entries under their paths, which are names between slashes and lead on from the
working directory. -/
def ofEntries (workingDirectory : Location) (entries : List (String × Node)) : Tree :=
  entries.foldl (fun tree entry => tree.insert (workingDirectory ++ segments entry.1) entry.2)
    (empty workingDirectory)

/-- Whether a directory stands at a location. -/
def isDirectory (tree : Tree) (location : Location) : Bool :=
  tree.node? location == some .directory

/-- Follows one name of a path. -/
def step (tree : Tree) (location : Location) (name : String) : Except FileError Location :=
  if !tree.isDirectory location then .error .notDirectory
  else if staysPut name then .ok location
  else if name == ".." then .ok location.dropLast
  else if (tree.node? (location ++ [name])).isSome then .ok (location ++ [name])
  else .error .missing

/-- Where a path begins. -/
def start (tree : Tree) (path : String) : Location :=
  if path.startsWith "/" then [] else tree.workingDirectory

/-- Where a path leads. -/
def locate (tree : Tree) (path : String) : Except FileError Location :=
  if path.isEmpty then .error .missing else (segments path).foldlM tree.step (tree.start path)

/-- What stands at a path. -/
def kind (tree : Tree) (path : String) : Option FileKind :=
  match tree.locate path with
  | .error _ => none
  | .ok location => some (if tree.isDirectory location then .directory else .file)

/-- The text of the file at a path. -/
def read (tree : Tree) (path : String) : Except FileError String :=
  match tree.locate path with
  | .error e => .error e
  | .ok location =>
    match tree.node? location with
    | some (.file content) =>
      match textOf? content with
      | some text => .ok text
      | none => .error .notText
    | some .directory => .error .isDirectory
    | none => .error .missing

/-- The names of the entries of the directory at a path. -/
def names (tree : Tree) (path : String) : List String :=
  match tree.locate path with
  | .error _ => []
  | .ok location =>
    (tree.locations.filterMap fun other =>
      if other.dropLast == location then other.getLast? else none).eraseDups

/-- How many names lead to the deepest entry. -/
def depth (tree : Tree) : Nat :=
  tree.locations.foldl (fun deepest location => max deepest location.length) 0

/-- Answers from a tree. -/
def reader (tree : Tree) : Reader Id where
  kind := tree.kind
  read := tree.read
  names := tree.names
  depth := tree.depth

/-! ## Writing -/

/-- Makes the directories that names ask for, beginning at a location. A file in the way of the last
one, or of any once one has been made, is already there; in the way of another one it is no
directory. The directories made before such a file stay. -/
def makeDirectories (tree : Tree) (location : Location) (made : Bool) :
    List String → Tree × Except FileError Unit
  | [] => (tree, .ok ())
  | name :: rest =>
    if name == ".." then makeDirectories tree location.dropLast made rest
    else
      let next := location ++ [name]
      match tree.node? next with
      | some .directory => makeDirectories tree next made rest
      | some (.file _) =>
        (tree, .error (if made || rest.isEmpty then .alreadyThere else .notDirectory))
      | none => makeDirectories (tree.put next .directory) next true rest

/-- Makes a directory and those above it that are missing. -/
def makeDirectory (tree : Tree) (path : String) : Tree × Except FileError Unit :=
  tree.makeDirectories (tree.start path) false (moves path)

/-- The location that is written to under a path, in a directory that is there. A path that ends in
a slash or in dots is taken for that of a directory. -/
def target (tree : Tree) (path : String) : Except FileError Location :=
  if path.isEmpty then .error .missing
  else
    match (segments path).reverse.dropWhile String.isEmpty with
    | [] => .error .isDirectory
    | last :: before =>
      match before.reverse.foldlM tree.step (tree.start path) with
      | .error e => .error e
      | .ok location =>
        if !tree.isDirectory location then .error .notDirectory
        else if path.endsWith "/" || last == "." || last == ".." then .error .isDirectory
        else if tree.isDirectory (location ++ [last]) then .error .isDirectory
        else .ok (location ++ [last])

/-- Writes a text to the file at a path, which may be missing, in a directory that is there. -/
def write (tree : Tree) (path text : String) : Except FileError Tree :=
  (tree.target path).map fun location => tree.put location (.file (bytesOf text))

/-- The files below the working directory that another tree lacks or holds with another content, by
their paths from there. -/
def changes (tree earlier : Tree) : List (String × List UInt8) :=
  let files := tree.entries.filterMap fun (location, node) =>
    match node with
    | .directory => none
    | .file content =>
      if tree.workingDirectory <+: location ∧ earlier.node? location ≠ some node then
        some ("/".intercalate (location.drop tree.workingDirectory.length), content)
      else none
  files.mergeSort fun a b => a.1 ≤ b.1

end Tree

end SchemaGrammar.Files
