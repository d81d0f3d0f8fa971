import SchemaGrammar.Query.FromText

/-!
# Why a query fails while it runs

A query may raise any datum as an error. The other failures are those of the operations; each has a
text, which is the datum that a handler gets to see. `exhausted` stands for a query that went deeper
than the evaluator does.
-/

namespace SchemaGrammar.Query

/-- The operators on numbers and other data. -/
inductive Operator
  | add
  | sub
  | mul
  | div
  | rem
  deriving DecidableEq, Repr

/-- How an operator is written. -/
def Operator.symbol : Operator → String
  | add => "+"
  | sub => "-"
  | mul => "*"
  | div => "/"
  | rem => "%"

/-- A failure of a running query. -/
inductive RunError
  | raised (payload : Datum)
  | cannotCalculate (left : Datum) (operator : Operator) (right : Datum)
  | cannotIndex (d : Datum) (index : Datum)
  | wrongType (d : Datum) (expected : String)
  | outOfBounds (index : Datum)
  | noLength (d : Datum)
  | unreadable (text : String) (fault : TextFault)
  | noPath
  | exhausted
  deriving Inhabited, Repr

/-- The datum that a handler of the failure gets. -/
def RunError.payload : RunError → Datum
  | raised payload => payload
  | cannotCalculate left operator right =>
    .string s!"cannot calculate {left.text} {operator.symbol} {right.text}"
  | cannotIndex d index => .string s!"cannot index {d.text} with {index.text}"
  | wrongType d expected => .string s!"cannot use {d.text} as {expected}"
  | outOfBounds index => .string s!"index {index.text} out of bounds"
  | noLength d => .string s!"{d.text} has no length"
  | unreadable text fault => .string s!"cannot parse {text} as JSON: {fault.words}"
  | noPath => .string "invalid path expression"
  | exhausted => .string "the query is nested too deeply"

/-- What can be iterated, in the words of a message. -/
def iterableWords : String := "iterable (array or object)"

/-- What has ranges, in the words of a message. -/
def rangeableWords : String := "rangeable (array or string)"

end SchemaGrammar.Query
