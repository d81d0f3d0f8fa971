import SchemaGrammar.Gbnf.Literal
import SchemaGrammar.Gbnf.Primitive
import SchemaGrammar.Json.Writer

/-!
# Rule bodies

A body says how one node of a schema is matched, given the names of the rules for its parts. Its
text is all that a rule table compares, so two bodies are one rule exactly if they have one text.
-/

namespace SchemaGrammar.Gbnf

open Json (Value)

/-- The body of a rule. -/
inductive Body
  /-- One of several rules. -/
  | alternatives (names : List String)
  /-- One of several JSON values. -/
  | constants (values : List Value)
  /-- An object with these properties in this order, each with the rule for its value. -/
  | object (fields : List (String × String))
  /-- An array whose items match one rule. -/
  | array (item : String)
  /-- A value of a primitive type. -/
  | primitive (p : Primitive)
  deriving Repr

/-- The literal that matches the JSON text of a value. -/
def constantLiteral (v : Value) : String := quote v.compact

/-- Texts with a bar between each two. -/
def joinBars (texts : List String) : String := " | ".intercalate texts

/-- The text for a property: its key, a colon and the rule for its value. -/
def fieldText (field : String × String) : String :=
  " " ++ constantLiteral (.string field.1) ++ " space \":\" space " ++ field.2

/-- The text that separates two properties. -/
def fieldSeparator : String := " \",\" space"

namespace Body

/-- The text of a body. -/
def text : Body → String
  | alternatives names => joinBars names
  | constants values => joinBars (values.map constantLiteral)
  | object fields =>
    "\"\x7b\" space" ++ fieldSeparator.intercalate (fields.map fieldText) ++ " \"\x7d\" space"
  | array item => "\"[\" space (" ++ item ++ " (\",\" space " ++ item ++ ")*)? \"]\" space"
  | primitive p => p.production

end Body

end SchemaGrammar.Gbnf
