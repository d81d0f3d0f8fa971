import SchemaGrammar.Command.Material

/-!
# Reports

The text that a request ends in. The result for one document stands alone; the results for none or
for several stand in a list. Grammars as plain text stand below each other then, each under a line
with its label.
-/

namespace SchemaGrammar.Command

open Gbnf (Grammar)
open Json (Value)

/-- One value alone, and any other number of values as a list. -/
def aloneOrListed : List Value → Value
  | [v] => v
  | vs => .array vs

/-- The grammar of a document. -/
def Document.grammar (order : Option PropertyOrder) (document : Document) :
    Except Failure (String × Grammar) :=
  match compileGrammar order document.value with
  | .error e => .error (.schemaInvalid document.label e)
  | .ok grammar => .ok (document.label, grammar)

/-- The text of grammars under their labels. -/
def grammarsText : List (String × Grammar) → String
  | [(_, grammar)] => grammar.text
  | labelled => "\n".intercalate (labelled.map fun (label, grammar) => s!"# {label}\n{grammar.text}")

/-- The text of grammars as parameters. -/
def paramsText (grammars : List Grammar) : String :=
  (aloneOrListed (grammars.map (·.params))).pretty

/-- The text for a request for grammars. -/
def GrammarRequest.report (engine : Query.Engine) (request : GrammarRequest)
    (material : Material) : Except Failure String := do
  let order ← material.order request.order
  let documents ← request.selection.documents engine material
  let grammars ← documents.mapM (·.grammar order)
  return if request.params then paramsText (grammars.map (·.2)) else grammarsText grammars

/-- The flattened messages of a document. -/
def Document.chat (document : Document) : Except Failure Value :=
  match Chat.normalizeValue document.value with
  | .error e => .error (.messagesInvalid document.label e)
  | .ok messages => .ok (.array (messages.map (·.toValue)))

/-- The text for a request for flattened messages. -/
def ChatRequest.report (engine : Query.Engine) (request : ChatRequest) (material : Material) :
    Except Failure String := do
  let documents ← request.selection.documents engine material
  return (aloneOrListed (← documents.mapM (·.chat))).pretty

end SchemaGrammar.Command
