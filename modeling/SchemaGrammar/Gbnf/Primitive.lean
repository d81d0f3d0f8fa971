/-!
# Primitive types and their productions

Five types of a schema have a fixed production. The texts are read by other programs, so they are
constants of the format: each is given here once, character by character.

Every production ends by taking the optional blank that the rule `space` allows.
-/

namespace SchemaGrammar

/-- The types whose rule does not depend on the rest of the schema. -/
inductive Primitive
  | boolean
  | number
  | integer
  | string
  | null
  deriving DecidableEq, Repr, Inhabited

namespace Primitive

/-- All primitive types, in the order in which they are listed to users. -/
def all : List Primitive := [boolean, number, integer, string, null]

/-- The word a schema uses for the type, which is also the name of the shared rule. -/
def typeName : Primitive → String
  | boolean => "boolean"
  | number => "number"
  | integer => "integer"
  | string => "string"
  | null => "null"

/-- The type that a schema's word names, if it names a primitive one. -/
def ofTypeName? (name : String) : Option Primitive :=
  all.find? (·.typeName == name)

/-- The body of the rule that matches the type's values. -/
def production : Primitive → String
  | boolean => "(\"true\" | \"false\") space"
  | number =>
    "(\"-\"? ([0-9] | [1-9][0-9]*)) (\".\" [0-9]+)? ([eE][-+]?[0-9]+)? space"
  | integer => "(\"-\"? ([0-9] | [1-9][0-9]*)) space"
  | string =>
    "\"\\\"\" ( [^\"\\\\] | \"\\\\\" ([\"\\\\/bfnrt] | \"u\" [0-9a-fA-F]\x7b4\x7d) )* \"\\\"\" space"
  | null => "\"null\" space"

/-- A type is found again under its own word. -/
theorem ofTypeName?_typeName (p : Primitive) : ofTypeName? p.typeName = some p := by
  cases p <;> decide

end Primitive

end SchemaGrammar
