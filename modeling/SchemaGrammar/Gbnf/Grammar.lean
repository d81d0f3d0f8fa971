import SchemaGrammar.Gbnf.RuleTable
import SchemaGrammar.Json.Value

/-!
# Grammars

A grammar is a finished list of rules. Its text has one line for each: the name, the sign ` ::= `
and the body.
-/

namespace SchemaGrammar.Gbnf

/-- The line of a rule. -/
def ruleLine (rule : Rule) : String := rule.1 ++ " ::= " ++ rule.2 ++ "\n"

/-- The text of a list of rules. -/
def rulesText (rules : List Rule) : String := String.join (rules.map ruleLine)

/-- A finished grammar: its rules in the order in which they are written. -/
structure Grammar where
  rules : List Rule
  deriving DecidableEq, Repr, Inhabited

namespace Grammar

/-- The grammar's text. -/
def text (grammar : Grammar) : String := rulesText grammar.rules

/-- The body of the first rule with a name. -/
def get? (grammar : Grammar) (name : String) : Option String := grammar.rules.lookup name

/-- How many rules there are. -/
def size (grammar : Grammar) : Nat := grammar.rules.length

/-- Whether there is no rule. -/
def isEmpty (grammar : Grammar) : Bool := grammar.rules.isEmpty

/-- The grammar as a parameter of a sampler: an object with the text under `grammar`. -/
def params (grammar : Grammar) : Json.Value := .object [("grammar", .string grammar.text)]

end Grammar

end SchemaGrammar.Gbnf
