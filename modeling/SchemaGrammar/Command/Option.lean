/-!
# Options

The options that a command understands, in tables. An option has a long name, and some have a
letter, too. It takes nothing, one value, or as many values as follow it.
-/

namespace SchemaGrammar.Command

/-- What an option takes. Asking for help or for the version ends the reading of arguments. -/
inductive Takes
  | nothing
  | value
  | path
  | values
  | help
  | version
  deriving DecidableEq, Repr

/-- Whether values belong to the option. -/
def Takes.hasValues : Takes → Bool
  | value | path | values => true
  | nothing | help | version => false

/-- How many values an option still has room for, when it has some. -/
def Takes.hasRoom (given : Nat) : Takes → Bool
  | values => true
  | value | path => given == 0
  | nothing | help | version => false

/-- An option: its long name, its letter, what it takes and what it is for. -/
structure OptionSpec where
  long : String
  letter : Option Char
  takes : Takes
  about : String
  deriving DecidableEq, Repr

/-- The option for help. -/
def helpOption : OptionSpec := ⟨"help", some 'h', .help, "Print help"⟩

/-- The option for more log messages. -/
def verboseOption : OptionSpec :=
  ⟨"verbose", some 'v', .nothing, "log debug events to stderr (RUST_LOG takes precedence)"⟩

/-- The options before the name of a command. -/
def topOptions : List OptionSpec :=
  [verboseOption, helpOption, ⟨"version", some 'V', .version, "Print version"⟩]

/-- The options that say which documents a command is for. -/
def inputOptions : List OptionSpec :=
  [⟨"json-pointer", none, .value,
      "JSON Pointer to select a subnode in each document (e.g. /response_format/schema)"⟩,
    ⟨"jq-expr", none, .value,
      "JQ filter applied to each document (after --json-pointer); every output is one input"⟩,
    ⟨"input", some 'i', .values,
      "One or more inputs. May be literal paths or quoted glob patterns"⟩]

/-- The options of the command that compiles schemas. -/
def grammarOptions : List OptionSpec :=
  inputOptions ++
    [⟨"prop-order", none, .value,
        "property order, e.g. `function,arguments` or `function=0,arguments=1`"⟩,
      ⟨"prop-order-file", none, .path,
        "JSON object of property name → rank (merged under --prop-order)"⟩,
      ⟨"params", none, .nothing,
        "print `\x7b\"grammar\": ...\x7d` parameter JSON instead of raw grammar text"⟩,
      ⟨"out", some 'o', .path, "output file (stdout if omitted)"⟩,
      verboseOption, helpOption]

/-- The options of the command that flattens messages. -/
def chatOptions : List OptionSpec :=
  inputOptions ++
    [⟨"out", some 'o', .path, "output .json file (stdout if omitted)"⟩, verboseOption, helpOption]

/-- The names of the commands, each with what it does and its options. -/
def commands : List (String × String × List OptionSpec) :=
  [("grammar", "compile each input schema to a GBNF grammar", grammarOptions),
    ("chat", "flatten multi-part chat message content into plain strings", chatOptions)]

/-! ## Help -/

/-- The word for an option's value in a help text. -/
def OptionSpec.valueWord (spec : OptionSpec) : String :=
  spec.long.map fun c => if c == '-' then '_' else c.toUpper

/-- The text of an option in a help text. -/
def OptionSpec.helpLines (spec : OptionSpec) : String :=
  let letter := match spec.letter with
    | some c => s!"-{c}, "
    | none => "    "
  let values := match spec.takes with
    | .values => s!" <{spec.valueWord}>..."
    | .value | .path => s!" <{spec.valueWord}>"
    | .nothing | .help | .version => ""
  s!"  {letter}--{spec.long}{values}\n          {spec.about}\n"

/-- The help for options under a first line and a usage line. -/
def helpText (about usage : String) (middle : String) (options : List OptionSpec) : String :=
  s!"{about}\n\nUsage: {usage}\n\n{middle}Options:\n" ++ String.join (options.map (·.helpLines))

/-- The help for the whole program. -/
def topHelp : String :=
  helpText "compile JSON Schema to GBNF grammars, or flatten chat messages for the native formatter"
    "json-gbnf [OPTIONS] <COMMAND>"
    ("Commands:\n" ++ String.join (commands.map fun c => s!"  {c.1}\n          {c.2.1}\n") ++ "\n")
    topOptions

/-- The help for one command. -/
def commandHelp (command : String × String × List OptionSpec) : String :=
  helpText command.2.1 s!"json-gbnf {command.1} [OPTIONS] --input <INPUT>..." "" command.2.2

end SchemaGrammar.Command
