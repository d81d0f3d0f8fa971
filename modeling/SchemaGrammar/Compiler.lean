import SchemaGrammar.Gbnf.Body
import SchemaGrammar.Gbnf.Grammar
import SchemaGrammar.Schema.Tree

/-!
# From schemas to grammars

A schema is compiled in one walk that registers the rules of a node's parts before the node's own.
Every node is visited under a hint for its rule's name: the top under the empty hint, which stands
for the start rule, and a part under its parent's hint, a dash and a word of its own. A primitive
node goes by its type instead of its hint, so that all of them share one rule.

The walk fails at the first node that is no schema. The rules registered up to there stay in the
table, and a converter may be used further.
-/

namespace SchemaGrammar

open Gbnf (RuleTable Rule Body Grammar)
open Json (Value)

/-- The hint for a part of a node. -/
def childHint (hint suffix : String) : String :=
  if hint.isEmpty then suffix else hint ++ "-" ++ suffix

/-- Registers a body under a hint; the empty hint stands for the start rule. -/
def place (table : RuleTable) (hint : String) (body : Body) : RuleTable × String :=
  if hint.isEmpty then table.addRoot body.text else table.add hint body.text

namespace Schema

mutual
/-- Registers the rules of an arranged schema, and gives the name of the schema's own rule. -/
def emit (hint : String) (table : RuleTable) : Schema → RuleTable × Except SchemaError String
  | .unsupported node => (table, .error ⟨node⟩)
  | .union alternatives =>
    match emitAlternatives hint 0 table alternatives with
    | (table, .error e) => (table, .error e)
    | (table, .ok names) => (place table hint (.alternatives names)).map id .ok
  | .constants values => (place table hint (.constants values)).map id .ok
  | .object properties =>
    match emitProperties hint table properties with
    | (table, .error e) => (table, .error e)
    | (table, .ok fields) => (place table hint (.object fields)).map id .ok
  | .array items =>
    match items.emit (childHint hint "item") table with
    | (table, .error e) => (table, .error e)
    | (table, .ok name) => (place table hint (.array name)).map id .ok
  | .primitive p =>
    (place table (if hint.isEmpty then hint else p.typeName) (.primitive p)).map id .ok
termination_by structural s => s
/-- Registers the rules of alternatives, the first of which has number `i`. -/
def emitAlternatives (hint : String) (i : Nat) (table : RuleTable) :
    List Schema → RuleTable × Except SchemaError (List String)
  | [] => (table, .ok [])
  | s :: rest =>
    match s.emit (childHint hint (toString i)) table with
    | (table, .error e) => (table, .error e)
    | (table, .ok name) =>
      match emitAlternatives hint (i + 1) table rest with
      | (table, .error e) => (table, .error e)
      | (table, .ok names) => (table, .ok (name :: names))
termination_by structural ss => ss
/-- Registers the rules of properties. -/
def emitProperties (hint : String) (table : RuleTable) :
    List (String × Schema) → RuleTable × Except SchemaError (List (String × String))
  | [] => (table, .ok [])
  | (key, s) :: rest =>
    match s.emit (childHint hint key) table with
    | (table, .error e) => (table, .error e)
    | (table, .ok name) =>
      match emitProperties hint table rest with
      | (table, .error e) => (table, .error e)
      | (table, .ok fields) => (table, .ok ((key, name) :: fields))
termination_by structural ps => ps
end

end Schema

/-- A rule table that grows with the schemas it is shown, under one order of properties. -/
structure Converter where
  order : Option PropertyOrder
  table : RuleTable

namespace Converter

/-- A converter that has seen no schema. -/
def new (order : Option PropertyOrder) : Converter := ⟨order, .initial⟩

/-- Registers the rules of a schema under a hint, and gives the name of its own rule. -/
def visit (converter : Converter) (schema : Value) (hint : String) :
    Converter × Except SchemaError String :=
  let (table, result) :=
    ((Schema.ofValue schema).arrange converter.order).emit hint converter.table
  ({ converter with table }, result)

/-- The grammar of the rules registered so far. -/
def grammar (converter : Converter) : Grammar := ⟨converter.table.toList⟩

/-- The text of the rules registered so far. -/
def text (converter : Converter) : String := Gbnf.rulesText converter.table.toList

end Converter

/-- The grammar for a schema, whose start rule matches the whole schema. -/
def compileGrammar (order : Option PropertyOrder) (schema : Value) : Except SchemaError Grammar :=
  match (Converter.new order).visit schema "" with
  | (_, .error e) => .error e
  | (converter, .ok _) => .ok converter.grammar

/-- The text of the grammar for a schema. -/
def compile (order : Option PropertyOrder) (schema : Value) : Except SchemaError String :=
  (compileGrammar order schema).map Grammar.text

end SchemaGrammar
