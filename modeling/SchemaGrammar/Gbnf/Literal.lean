/-!
# Quoted literals of a grammar

A literal stands in a rule between double quotes. The two line breaks would end the rule and a
quote would end the literal, so these three characters are written with a backslash. Every other
character, the backslash included, stands for itself in the written form.

`quote` is a map over the characters between two quotes (`toList_quote`), so a fact about one
character's written form carries over to whole literals.
-/

namespace SchemaGrammar.Gbnf

/-- The written form of one character inside a literal. -/
def escapeChar : Char → List Char
  | '\r' => ['\\', 'r']
  | '\n' => ['\\', 'n']
  | '"' => ['\\', '"']
  | c => [c]

/-- The literal that is written for a text. -/
def quote (text : String) : String :=
  String.ofList ('"' :: (text.toList.flatMap escapeChar ++ ['"']))

@[simp] theorem toList_quote (text : String) :
    (quote text).toList = '"' :: (text.toList.flatMap escapeChar ++ ['"']) := by
  simp [quote]

end SchemaGrammar.Gbnf
