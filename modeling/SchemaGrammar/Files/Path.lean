import SchemaGrammar.Text.Split

/-!
# Paths

A path is a text of names between slashes. An empty name and a dot stay where they are, two dots
go up. The texts of paths are kept as they are written, because messages and labels show them.
-/

namespace SchemaGrammar.Files

/-- The names of a path, the empty ones included. -/
def segments (path : String) : List String :=
  (Text.split '/' path.toList).map String.ofList

/-- Whether a name of a path stays where it is. -/
def staysPut (name : String) : Bool := name.isEmpty || name == "."

/-- Those of some names that lead somewhere else. -/
def moving (names : List String) : List String := names.filter fun name => !staysPut name

/-- The names of a path that lead somewhere else. -/
def moves (path : String) : List String := moving (segments path)

/-- The path of a name below a path. -/
def join (path name : String) : String :=
  if path.isEmpty || path.endsWith "/" then path ++ name else path ++ "/" ++ name

/-- Whether a path consists of dots that name the working directory. -/
def isWorkingDirectory (path : String) : Bool :=
  (segments path).head? == some "." && (segments path).all staysPut

/-- The path of an entry of a directory; one of the working directory goes by its name. -/
def entryPath (directory name : String) : String :=
  if isWorkingDirectory directory then name else join directory name

/-- The names of a path without those at its end that stay where they are; the first one is kept. -/
def withoutTrailing : List String → List String
  | [] => []
  | first :: rest => first :: (rest.reverse.dropWhile staysPut).reverse

/-- The path that names make. The empty name alone stands for the root. -/
def joined : List String → String
  | [""] => "/"
  | names => "/".intercalate names

/-- The path of the directory that holds a path, as far as it is written; the empty one stands for
the working directory. The root has none. -/
def parent? (path : String) : Option String :=
  match withoutTrailing (segments path) with
  | [] => none
  | [only] => if only.isEmpty then none else some ""
  | names => some (joined (withoutTrailing names.dropLast))

end SchemaGrammar.Files
