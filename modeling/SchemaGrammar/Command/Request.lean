import SchemaGrammar.Command.Usage

/-!
# Requests

What the arguments of the program ask for. Options for the whole program come first, then the name
of a command, then the options of that command, of which the inputs are required.
-/

namespace SchemaGrammar.Command

/-- Which documents a command is for: the inputs, the pointer that selects a part of each, and the
query that is run on that. -/
structure Selection where
  inputs : List String
  pointer : Option String
  query : Option String
  deriving DecidableEq, Repr

/-- Asks for the grammars of schemas. -/
structure GrammarRequest where
  selection : Selection
  order : Option String
  orderFile : Option String
  params : Bool
  out : Option String
  deriving DecidableEq, Repr

/-- Asks for flattened messages. -/
structure ChatRequest where
  selection : Selection
  out : Option String
  deriving DecidableEq, Repr

/-- What the arguments ask for. -/
inductive Request
  | grammar (request : GrammarRequest)
  | chat (request : ChatRequest)
  | help (text : String)
  | version
  deriving DecidableEq, Repr

/-- The documents that given options select. -/
def Selection.ofGiven (given : Given) : Selection :=
  ⟨given.values "input", given.value? "json-pointer", given.value? "jq-expr"⟩

/-- The request that the options of a command make. -/
def Request.ofGiven (command : String) (given : Given) : Except UsageError Request :=
  if !given.has "input" then .error (.requiredMissing "input")
  else
    let selection := Selection.ofGiven given
    if command == "grammar" then
      .ok (.grammar ⟨selection, given.value? "prop-order", given.value? "prop-order-file",
        given.has "params", given.value? "out"⟩)
    else .ok (.chat ⟨selection, given.value? "out"⟩)

/-- The request, or the usage error, that an early end stands for. -/
def Stop.request (help : String) : Stop → Except UsageError Request
  | wrong e => .error e
  | .help => .ok (.help help)
  | version => .ok .version

/-- The request for help on a command. -/
def helpOn : List String → Except UsageError Request
  | [] => .ok (.help topHelp)
  | name :: rest =>
    match commands.find? (·.1 == name), rest with
    | none, [] => if name == "help" then .ok (.help topHelp) else .error (.unknownCommand name)
    | none, extra :: _ => .error (.unknownCommand (if name == "help" then extra else name))
    | some command, [] => .ok (.help (commandHelp command))
    | some _, extra :: _ => .error (.unknownCommand extra)

/-- The request of a command with its arguments. -/
def Request.ofCommand (name : String) (arguments : List String) : Except UsageError Request :=
  match commands.find? (·.1 == name) with
  | none => if name == "help" then helpOn arguments else .error (.unknownCommand name)
  | some command =>
    match readOptions command.2.2 .start arguments with
    | .error stop => stop.request (commandHelp command)
    | .ok given => Request.ofGiven name given

/-- Whether a name is that of a command. -/
def isCommand (name : String) : Bool := name == "help" || commands.any (·.1 == name)

/-- Reads the arguments up to the name of a command; without one they ask for nothing. -/
def Request.readFrom (progress : Progress) : List String → Except UsageError Request
  | [] => .error (if progress.given.isEmpty then .noArguments else .noCommand)
  | argument :: rest =>
    match Word.ofArgument argument with
    | .endOfOptions =>
      match rest with
      | [] => .error (if progress.given.isEmpty then .noArguments else .noCommand)
      | extra :: _ => .error (if isCommand extra then .unknownArgument extra else .unknownCommand extra)
    | .long name value =>
      match progress.readLong topOptions name value with
      | .error stop => stop.request topHelp
      | .ok next => readFrom next rest
    | .letters letters =>
      match progress.readLetters topOptions letters with
      | .error stop => stop.request topHelp
      | .ok next => readFrom next rest
    | .plain name => Request.ofCommand name rest

/-- What the arguments of the program ask for. -/
def Request.ofArguments (arguments : List String) : Except UsageError Request :=
  Request.readFrom .start arguments

end SchemaGrammar.Command
