import SchemaGrammar.Chat.Normalization
import SchemaGrammar.Compiler
import SchemaGrammar.Files.Inputs
import SchemaGrammar.Query.Engine
import SchemaGrammar.Schema.OrderDecoding

/-!
# Why a request fails

Each failure names the step that went wrong, and the file, document or path at which it did. The
words give the outer step first and its cause behind a colon.
-/

namespace SchemaGrammar.Command

open Files (FileError InputError)

/-- Why a request fails. -/
inductive Failure
  | orderFileUnread (path : String) (cause : FileError)
  | orderFileInvalid (path : String) (cause : Json.DecodeError)
  | orderInvalid (cause : OrderError)
  | inputsUnresolved (cause : InputError)
  | sourceUnread (label : String) (cause : FileError)
  | sourceNotJson (label text : String) (cause : Json.Failure)
  | nothingSelected (label pointer : String)
  | queryFailed (label query : String) (cause : Query.QueryError)
  | schemaInvalid (label : String) (cause : SchemaError)
  | messagesInvalid (label : String) (cause : Chat.ChatError)
  | directoryNotMade (path : String) (cause : FileError)
  | notWritten (path : String) (cause : FileError)

/-- The words for a failure. -/
def Failure.message : Failure → String
  | orderFileUnread path cause => s!"failed to read prop order file ({path}): {cause.message}"
  | orderFileInvalid path cause => s!"invalid prop order file ({path}): {cause.report}"
  | orderInvalid cause => cause.message
  | inputsUnresolved cause => s!"failed to resolve input file paths: {cause.message}"
  | sourceUnread label cause => s!"failed to read source file ({label}): {cause.message}"
  | sourceNotJson label text cause =>
    s!"failed to parse JSON source file ({label}): {cause.message text.toList}"
  | nothingSelected label pointer => s!"JSON pointer {pointer} selects nothing in ({label})"
  | queryFailed label query cause =>
    s!"failed to apply jq expression to ({label}): {cause.message query}"
  | schemaInvalid label cause => s!"invalid schema in ({label}): {cause.message}"
  | messagesInvalid label cause => s!"malformed chat messages in ({label}): {cause.message}"
  | directoryNotMade path cause => s!"failed to create ({path}): {cause.message}"
  | notWritten path cause => s!"failed to write ({path}): {cause.message}"

end SchemaGrammar.Command
