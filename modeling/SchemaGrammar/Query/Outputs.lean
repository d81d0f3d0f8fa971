import SchemaGrammar.Query.Error
import SchemaGrammar.LazyList

/-!
# The outputs of a query

A query gives any number of outputs, and it runs only as far as they are asked for. An output is a
datum, or the failure that stands in its place. What collects outputs or handles failures stops at
the first failure, and so does what goes from one output to the next (`thread`). What merely combines
outputs takes a failure for an output like any other (`cross`), so that a failure that is combined
with nothing is gone.
-/

namespace SchemaGrammar.Query

/-- One output of a query: a datum, or the failure that stands in its place. -/
abbrev Output := Except RunError Datum

/-- The outputs of a query, in order. -/
abbrev Outputs := LazyList Output

namespace Outputs

/-- A single output. -/
def one (d : Datum) : Outputs := .last (.ok d)

/-- A single failure. -/
def failure (e : RunError) : Outputs := .last (.error e)

/-- Runs something on every result, and leaves the failures in their places. -/
def each (results : LazyList (Except RunError α)) (f : α → Outputs) : Outputs :=
  results.flatMap fun
    | .ok a => f a
    | .error e => failure e

/-- Combines every output of one query with every output of another, of which the second varies
fastest. -/
def cross (first : Outputs) (second : Unit → Outputs) (f : Datum → Datum → Output) : Outputs :=
  first.flatMap fun a => (second ()).map fun b => do f (← a) (← b)

/-- Whether an output is a failure, or a datum that counts as true. -/
def isTrueOrFailure : Output → Bool
  | .ok d => d.isTrue
  | .error _ => true

/-- Takes a datum through a row of results, one step for each. -/
def thread (results : LazyList (Except RunError α)) (d : Datum) (step : α → Datum → Outputs) :
    Outputs :=
  match results with
  | .nil => one d
  | .last (.ok a) => step a d
  | .last (.error e) => failure e
  | .cons (.ok a) rest => each (step a d) fun d => .later fun _ => thread (rest ()) d step
  | .cons (.error e) _ => failure e
  | .later results => thread (results ()) d step

/-- Puts a row of results around a function, one layer for each, the first one outermost. -/
def layer (results : LazyList (Except RunError α))
    (wrap : α → (Datum → Outputs) → Datum → Outputs) (f : Datum → Outputs) (d : Datum) : Outputs :=
  match results with
  | .nil => f d
  | .last (.ok a) => wrap a f d
  | .last (.error e) => failure e
  | .cons (.ok a) rest => wrap a (fun d => layer (rest ()) wrap f d) d
  | .cons (.error e) _ => failure e
  | .later results => layer (results ()) wrap f d

/-- Gives what the handler makes of the first failure in place of everything from there on. That the
query went too deep is not handled. -/
def handle (outputs : Outputs) (handler : Datum → Outputs) : Outputs :=
  outputs.recover fun
    | .exhausted => failure .exhausted
    | e => handler e.payload

end Outputs

end SchemaGrammar.Query
