import Std.Data.HashMap

/-!
# Rule tables

A grammar under construction is a list of named rules in the order in which they were first
registered, together with an index from a name to its place in that list. A rule is never changed
or removed: registering either finds a rule that already says the same, or appends one.

The name asked for is cleaned first (`sanitize`), and a name that is taken by a different body, or
that is reserved for the start rule, is given a decimal suffix: the least one that is free or
already holds the same body. Among the first `size + 1` suffixes one is always free, so the search
is a bounded one.
-/

namespace SchemaGrammar.Gbnf

/-! ## Rule names -/

/-- The characters a rule name may have. -/
def isNameChar (c : Char) : Bool := c.isAlphanum || c == '-'

/-- Replaces each run of characters that no name may have by one dash; `inRun` says that the
character before belonged to such a run. -/
def collapseRuns (inRun : Bool) : List Char → List Char
  | [] => []
  | c :: cs =>
    if isNameChar c then c :: collapseRuns false cs
    else if inRun then collapseRuns true cs
    else '-' :: collapseRuns true cs

/-- The rule name nearest to a text: every run of other characters becomes a single dash. -/
def sanitize (name : String) : String :=
  String.ofList (collapseRuns false name.toList)

/-- The name of the start rule. -/
def rootName : String := "root"

/-- The name of the rule for the optional blank between tokens. -/
def spaceName : String := "space"

/-- The body of the rule for the optional blank. -/
def spaceBody : String := "\" \"?"

/-! ## Tables -/

/-- A rule: its name and the text of its body. -/
abbrev Rule := String × String

/-- Rules in order of registration, with the place of each name. -/
structure RuleTable where
  rules : Array Rule
  index : Std.HashMap String Nat

namespace RuleTable

/-- Appends a rule under a name that is not in the table. -/
def append (table : RuleTable) (name body : String) : RuleTable where
  rules := table.rules.push (name, body)
  index := table.index.insert name table.rules.size

/-- The table every grammar starts from: the rule for the optional blank alone. -/
def initial : RuleTable :=
  append ⟨#[], ∅⟩ spaceName spaceBody

/-- The body registered under a name. -/
def get? (table : RuleTable) (name : String) : Option String :=
  (table.index[name]?).bind fun place => (table.rules[place]?).map Prod.snd

/-- Whether a name is registered. -/
def contains (table : RuleTable) (name : String) : Bool :=
  table.index.contains name

/-- How many rules the table has. -/
def size (table : RuleTable) : Nat := table.rules.size

/-- Whether the table has no rule. -/
def isEmpty (table : RuleTable) : Bool := table.rules.isEmpty

/-- The rules in order of registration. -/
def toList (table : RuleTable) : List Rule := table.rules.toList

/-- Whether a body can be reached by this name: the name is free, or it holds this very body. -/
def accepts (table : RuleTable) (name body : String) : Bool :=
  match table.get? name with
  | none => true
  | some held => held == body

/-- Registers a body under a name that accepts it. -/
def settle (table : RuleTable) (name body : String) : RuleTable × String :=
  match table.get? name with
  | none => (table.append name body, name)
  | some _ => (table, name)

/-- A name with a decimal suffix. -/
def suffixed (name : String) (i : Nat) : String := name ++ toString i

/-- The least suffix under which a name accepts the body. -/
def leastSuffix (table : RuleTable) (name body : String) : Nat :=
  ((List.range (table.size + 1)).find? fun i => table.accepts (suffixed name i) body).getD table.size

/-- Registers a body under a name, or under the first suffixed form of it that accepts the body,
and says which name was given. A reserved name is never given without a suffix. -/
def register (table : RuleTable) (name body : String) (reserved : Bool) : RuleTable × String :=
  if !reserved && table.accepts name body then table.settle name body
  else table.settle (suffixed name (table.leastSuffix name body)) body

/-- Registers a rule under the cleaned form of a name. The name of the start rule is reserved. -/
def add (table : RuleTable) (name body : String) : RuleTable × String :=
  table.register (sanitize name) body (sanitize name == rootName)

/-- Registers a start rule. -/
def addRoot (table : RuleTable) (body : String) : RuleTable × String :=
  table.register rootName body false

end RuleTable

end SchemaGrammar.Gbnf
