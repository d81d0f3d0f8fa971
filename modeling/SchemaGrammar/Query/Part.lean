/-!
# Parts

A part of a datum is what stands under a key or an index, what stands in a range, or everything in
it. A path is a list of parts, each of which is found in what the part before it has found. In a
query the keys and bounds of a path are filters, and when the path is followed they are data.
-/

namespace SchemaGrammar.Query

/-- A part, whose keys and bounds are of type `α`. One that is `lenient` is not missed where it
cannot be asked for. -/
inductive Part (α : Type)
  | index (key : α) (lenient : Bool)
  | range (start stop : Option α) (lenient : Bool)
  | all (lenient : Bool)
  deriving Inhabited

namespace Part

/-- Whether the part may fail to be there. -/
def lenient : Part α → Bool
  | index _ lenient => lenient
  | range _ _ lenient => lenient
  | all lenient => lenient

/-- Whether the part is made of what is there, and not one of the things that are there. -/
def isRange : Part α → Bool
  | range _ _ _ => true
  | _ => false

end Part

end SchemaGrammar.Query
