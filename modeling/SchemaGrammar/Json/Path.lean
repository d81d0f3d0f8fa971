/-!
# Paths into a JSON text

A path names a place by the steps that lead to it from the top. Its text writes an index in
brackets and a key behind a dot, except that the first step has no dot; the top itself is a dot.
-/

namespace SchemaGrammar.Json

/-- One step of a path. -/
inductive Step
  | index (i : Nat)
  | key (name : String)
  /-- A place in an object where no key has been read. -/
  | unknown
  deriving DecidableEq, Repr

/-- The steps from the top to a place. -/
abbrev Path := List Step

namespace Path

/-- The text of the steps behind the first one. -/
def moreText : Path → String
  | [] => ""
  | .index i :: rest => s!"[{i}]" ++ moreText rest
  | .key name :: rest => "." ++ name ++ moreText rest
  | .unknown :: rest => ".?" ++ moreText rest

/-- The text of a path. -/
def text : Path → String
  | [] => "."
  | .index i :: rest => s!"[{i}]" ++ moreText rest
  | .key name :: rest => name ++ moreText rest
  | .unknown :: rest => "?" ++ moreText rest

end Path

end SchemaGrammar.Json
