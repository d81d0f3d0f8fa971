import SchemaGrammar.Command.Option
import SchemaGrammar.Text.Split

/-!
# Reading options

Arguments are read from left to right. Two dashes begin a long option, whose value may follow an
equals sign; one dash begins a row of letters, and what follows a letter that takes a value is its
value. Anything else, a lone dash too, is a value of the option before it, if that has room.

An option whose values may still follow is pending, and is judged only when the next option has been
recognised or the arguments end. So an unknown option is reported before a missing value in front
of it.
-/

namespace SchemaGrammar.Command

/-- What is wrong with the arguments. -/
inductive UsageError
  | unknownArgument (argument : String)
  | unknownCommand (name : String)
  | noArguments
  | noCommand
  | requiredMissing (option : String)
  | valueMissing (option : String)
  | tooManyValues (option : String)
  | repeated (option : String)
  deriving DecidableEq, Repr

/-- The words for a usage error. -/
def UsageError.message : UsageError → String
  | unknownArgument argument => s!"unexpected argument '{argument}' found"
  | unknownCommand name => s!"unrecognized subcommand '{name}'"
  | noArguments => "no arguments were given"
  | noCommand => "a subcommand is required but one was not provided"
  | requiredMissing option => s!"the required option '--{option}' was not provided"
  | valueMissing option => s!"a value is required for '--{option}' but none was supplied"
  | tooManyValues option => s!"unexpected value for '--{option}' found; no more were expected"
  | repeated option => s!"the argument '--{option}' cannot be used multiple times"

/-- Why the reading of arguments ends before their end. -/
inductive Stop
  | wrong (e : UsageError)
  | help
  | version
  deriving DecidableEq, Repr

/-- What an argument is, by its dashes. -/
inductive Word
  | endOfOptions
  | long (name : String) (value : Option String)
  | letters (letters : List Char)
  | plain (text : String)
  deriving DecidableEq, Repr

/-- Takes an argument apart. -/
def Word.ofArgument (argument : String) : Word :=
  match argument.toList with
  | ['-', '-'] => .endOfOptions
  | '-' :: '-' :: rest =>
    match Text.splitFirst? '=' rest with
    | some (name, value) => .long (String.ofList name) (some (String.ofList value))
    | none => .long (String.ofList rest) none
  | '-' :: c :: rest => .letters (c :: rest)
  | _ => .plain argument

/-- Options with the values that were given for them; the values of an option given several times
follow each other. -/
abbrev Given := List (String × List String)

namespace Given

/-- Whether an option was given. -/
def has (given : Given) (long : String) : Bool := (given.lookup long).isSome

/-- The values of an option. -/
def values (given : Given) (long : String) : List String :=
  given.flatMap fun entry => if entry.1 == long then entry.2 else []

/-- The value of an option that takes one. -/
def value? (given : Given) (long : String) : Option String := (given.values long).head?

/-- Adds an option, if its values are right and it may be given here. -/
def add (given : Given) (spec : OptionSpec) (values : List String) : Except Stop Given :=
  match spec.takes with
  | .help => .error .help
  | .version => .error .version
  | takes =>
    if takes.hasValues && values.isEmpty then .error (.wrong (.valueMissing spec.long))
    else if takes != .values && given.has spec.long then .error (.wrong (.repeated spec.long))
    else if takes == .path && values.contains "" then .error (.wrong (.valueMissing spec.long))
    else .ok (given ++ [(spec.long, values)])

end Given

/-- An option whose values may still follow, and those that have. -/
abbrev Pending := Option (OptionSpec × List String)

/-- Options read so far. -/
structure Progress where
  given : Given
  pending : Pending

namespace Progress

/-- Nothing read so far. -/
def start : Progress := ⟨[], none⟩

/-- The given options, with the pending one among them. -/
def settle (progress : Progress) : Except Stop Given :=
  match progress.pending with
  | none => .ok progress.given
  | some (spec, values) => progress.given.add spec values

/-- Adds an option that has all its values. -/
def complete (progress : Progress) (spec : OptionSpec) (values : List String) :
    Except Stop Progress := do
  let given ← progress.settle
  return ⟨← given.add spec values, none⟩

/-- Begins an option whose values may follow. -/
def begin (progress : Progress) (spec : OptionSpec) : Except Stop Progress := do
  return ⟨← progress.settle, some (spec, [])⟩

/-- Reads a long option. -/
def readLong (specs : List OptionSpec) (progress : Progress) (name : String)
    (value : Option String) : Except Stop Progress :=
  match specs.find? (·.long == name) with
  | none => .error (.wrong (.unknownArgument ("--" ++ name)))
  | some spec =>
    match spec.takes.hasValues, value with
    | true, some v => progress.complete spec [v]
    | true, none => progress.begin spec
    | false, some _ => .error (.wrong (.tooManyValues spec.long))
    | false, none => progress.complete spec []

/-- Reads a row of letters. -/
def readLetters (specs : List OptionSpec) (progress : Progress) : List Char → Except Stop Progress
  | [] => .ok progress
  | c :: rest =>
    match specs.find? (·.letter == some c) with
    | none => .error (.wrong (.unknownArgument (String.ofList ['-', c])))
    | some spec =>
      if spec.takes.hasValues then
        match rest with
        | [] => progress.begin spec
        | '=' :: value => progress.complete spec [String.ofList value]
        | value => progress.complete spec [String.ofList value]
      else
        match progress.complete spec [] with
        | .error e => .error e
        | .ok next => readLetters specs next rest

/-- Reads an argument without a dash: a value of the pending option. -/
def readPlain (progress : Progress) (text : String) : Except Stop Progress :=
  match progress.pending with
  | some (spec, values) =>
    if spec.takes.hasRoom values.length then
      .ok { progress with pending := some (spec, values ++ [text]) }
    else .error (.wrong (.unknownArgument text))
  | none => .error (.wrong (.unknownArgument text))

end Progress

/-- Reads the options of a command, which takes no arguments of its own. -/
def readOptions (specs : List OptionSpec) (progress : Progress) : List String → Except Stop Given
  | [] => progress.settle
  | argument :: rest =>
    match Word.ofArgument argument with
    | .endOfOptions =>
      match rest with
      | [] => progress.settle
      | extra :: _ => .error (.wrong (.unknownArgument extra))
    | .long name value =>
      match progress.readLong specs name value with
      | .error e => .error e
      | .ok next => readOptions specs next rest
    | .letters letters =>
      match progress.readLetters specs letters with
      | .error e => .error e
      | .ok next => readOptions specs next rest
    | .plain text =>
      match progress.readPlain text with
      | .error e => .error e
      | .ok next => readOptions specs next rest

end SchemaGrammar.Command
