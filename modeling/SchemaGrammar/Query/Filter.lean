import SchemaGrammar.Query.Outputs
import SchemaGrammar.Query.Part

/-!
# Filters

A filter takes a datum to any number of outputs. This is the form in which queries are kept: names
are still names, and an object is a sum of objects with one entry each.

A comparison for equality asks for two things: whether two data are equal, and, where both sides
only pick what is there already (`Filter.picks`), whether they are one and the same array or object.
-/

namespace SchemaGrammar.Query

/-- The comparisons. -/
inductive Comparison
  | eq
  | ne
  | lt
  | le
  | gt
  | ge
  deriving DecidableEq, Repr

/-- Whether a comparison holds of two data; `picked` says that both are there already. -/
def Comparison.holds (comparison : Comparison) (picked : Bool) (a b : Datum) : Bool :=
  let order := a.order b
  match comparison with
  | eq => order == .eq || picked && a.isOne b
  | ne => !(order == .eq || picked && a.isOne b)
  | lt => order == .lt
  | le => order != .gt
  | gt => order == .gt
  | ge => order != .lt

/-- A filter. -/
inductive Filter
  | identity
  | literal (d : Datum)
  /-- A text with outputs between its pieces, each as its text or in a format. -/
  | template (format : Option String) (head : String) (tail : List (Filter × String))
  /-- An array of all outputs. -/
  | collect (f : Filter)
  /-- An object with one entry. -/
  | entry (key value : Filter)
  /-- An object with an entry that the input has, too. -/
  | ownEntry (key : Filter)
  | negate (f : Filter)
  | calculate (operator : Operator) (f g : Filter)
  | compare (comparison : Comparison) (f g : Filter)
  /-- Both have to be true, or one of them. -/
  | both (f g : Filter)
  | either (f g : Filter)
  /-- The true outputs of the first, or those of the second if there is none. -/
  | fallback (f g : Filter)
  | pipe (f g : Filter)
  /-- Runs the second with a variable for every output of the first. -/
  | bind (f : Filter) (name : String) (g : Filter)
  | comma (f g : Filter)
  | branch (condition yes no : Filter)
  /-- Runs the handler on what the first fails with. -/
  | handle (f : Filter) (handler : Filter)
  /-- Goes through the outputs of a source. There have to be two arguments, a start and a step. -/
  | reduce (source : Filter) (name : String) (args : List Filter)
  /-- What a path leads to from the outputs of a base. -/
  | path (base : Filter) (parts : List (Part Filter))
  | var (name : String)
  | call (name : String) (args : List Filter)
  /-- Defines a filter for the rest. A parameter with a dollar sign is a variable. -/
  | define (name : String) (params : List String) (body rest : Filter)
  /-- Changes the parts that a path names by running a filter on them. -/
  | update (path f : Filter)
  /-- Sets the parts that a path names to a value. -/
  | assign (path f : Filter)
  /-- Changes the parts that a path names by an operator. -/
  | calculateInto (path : Filter) (operator : Operator) (f : Filter)
  /-- Sets those of the parts that a path names that are not true. -/
  | fallbackInto (path f : Filter)
  deriving Inhabited

namespace Filter

/-- The filter without outputs. -/
def nothing : Filter := .path (.literal (.array [])) [.all false]

/-- The filter that gives what stands under a key. -/
def field (key : Filter) : Filter := .path .identity [.index key false]

/-- Whether all outputs of a filter are things that are there already. -/
def picks : Filter → Bool
  | identity | var _ => true
  | path base parts => base.picks && parts.all (!·.isRange)
  | pipe f g | comma f g | fallback f g | branch _ f g => f.picks && g.picks
  | bind _ _ f => f.picks
  | _ => false

end Filter

end SchemaGrammar.Query
