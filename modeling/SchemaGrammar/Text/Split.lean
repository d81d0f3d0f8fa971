/-!
# Splitting a text

A text with `n` separators has `n + 1` pieces, some of which may be empty.
-/

namespace SchemaGrammar.Text

/-- The pieces of a text between its separators. -/
def split (separator : Char) : List Char → List (List Char)
  | [] => [[]]
  | c :: rest =>
    match split separator rest with
    | [] => [[c]]
    | piece :: more => if c == separator then [] :: piece :: more else (c :: piece) :: more

/-- What stands before the first separator and what stands behind it, if there is one. -/
def splitFirst? (separator : Char) (text : List Char) : Option (List Char × List Char) :=
  match text.dropWhile (· != separator) with
  | [] => none
  | _ :: behind => some (text.takeWhile (· != separator), behind)

end SchemaGrammar.Text
