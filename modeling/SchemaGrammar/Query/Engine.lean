import SchemaGrammar.Json.Document
import SchemaGrammar.LazyList

/-!
# Query engines

A query is run by an engine. The engine reads the query, or tells why it cannot, and makes a program
of it. A program gives texts for a value, one after the other, and may fail in between. What the
query gives are the values that the texts are read as, in their order; the first failure, or the
first text that is not JSON, ends it.
-/

namespace SchemaGrammar.Query

open Json (Value)

/-- Why an engine makes no program of a query: the faults in its text, or the names in it that stand
for nothing, each with what it should stand for. -/
inductive LoadError
  | unreadable (faults : List String)
  | undefined (names : List (String × String))
  deriving DecidableEq, Repr

/-- The words for a query of which there is no program. -/
def LoadError.message (query : String) : LoadError → String
  | unreadable faults =>
    "\n".intercalate (faults.map fun fault => s!"parse error: {fault} in `{query}`")
  | undefined names =>
    "\n".intercalate (names.map fun (name, role) => s!"undefined `{name}`: {role} in `{query}`")

/-- What a query makes of a value: texts, made as far as they are asked for, and descriptions of
failures in the places of others. -/
abbrev Program := Value → LazyList (Except String String)

/-- What runs queries. -/
structure Engine where
  load : String → Except LoadError Program

/-- Why a query gives no values. -/
inductive QueryError
  | notLoaded (e : LoadError)
  | failed (fault : String)
  | notJson (text : String) (cause : Json.Failure)
  deriving Repr

/-- The words for a query that gives no values. -/
def QueryError.message (query : String) : QueryError → String
  | notLoaded e => e.message query
  | failed fault => s!"jq `{query}` failed: {fault}"
  | notJson text cause =>
    s!"jq `{query}` produced non-JSON output: {text}: {cause.message text.toList}"

/-- The value that an output is read as. -/
def readOutput : Except String String → Except QueryError Value
  | .error fault => .error (.failed fault)
  | .ok text => (Value.parse text).mapError (.notJson text)

/-- Runs a query on a value. -/
def Engine.run (engine : Engine) (query : String) (input : Value) :
    Except QueryError (List Value) :=
  match engine.load query with
  | .error e => .error (.notLoaded e)
  | .ok program => ((program input).map readOutput).collect

end SchemaGrammar.Query
