import SchemaGrammar.Files.Search

/-!
# Inputs of a command

An input with a star, a question mark, an opening bracket or an opening brace is a pattern, and
stands for the paths that match it, of which there has to be one. Any other input is a path, and
stands for itself whether there is a file or not. The paths of several inputs follow each other in
the order of the inputs.
-/

namespace SchemaGrammar.Files

/-- Why inputs stand for no paths. -/
inductive InputError
  | badPattern (e : PatternError)
  | noMatch (pattern : String)
  deriving DecidableEq, Repr

/-- The words for an error. -/
def InputError.message : InputError → String
  | badPattern e => e.message
  | noMatch pattern => s!"glob pattern matched no files: {pattern}"

/-- Whether an input is a pattern. -/
def isPattern (input : String) : Bool :=
  input.toList.any fun c => c == '*' || c == '?' || c == '[' || c == '{'

namespace Reader

variable {m : Type → Type} [Monad m] (reader : Reader m)

/-- The paths that one input stands for. -/
def resolveInput (input : String) : m (Except InputError (List String)) :=
  if isPattern input then
    match Pattern.parse input with
    | .error e => return .error (.badPattern e)
    | .ok pattern => do
      let found ← reader.search pattern
      return if found.isEmpty then .error (.noMatch input) else .ok found
  else return .ok [input]

/-- The paths that inputs stand for, or the error of the first input that has one. -/
def resolve (inputs : List String) : m (Except InputError (List String)) := do
  let results ← inputs.mapM reader.resolveInput
  return (results.mapM id).map List.flatten

end Reader

end SchemaGrammar.Files
