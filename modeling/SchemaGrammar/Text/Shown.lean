import SchemaGrammar.Text.Unseen

/-!
# A text shown in a message

A message that quotes a text puts it between double quotes. The quote, the backslash and the usual
controls have an escape with one letter, and every other character that is not seen by itself is
given by its number, so that two different texts never look the same.
-/

namespace SchemaGrammar.Text

/-- How a message shows one character of a text. -/
def shownChar (c : Char) : List Char :=
  if c == '"' || c == '\\' then ['\\', c]
  else if c == '\n' then ['\\', 'n']
  else if c == '\r' then ['\\', 'r']
  else if c == '\t' then ['\\', 't']
  else if c.toNat = 0 then ['\\', '0']
  else if isUnseen c then '\\' :: 'u' :: '{' :: (Nat.toDigits 16 c.toNat ++ ['}'])
  else [c]

/-- How a message shows a text. -/
def shown (text : String) : String :=
  String.ofList ('"' :: (text.toList.flatMap shownChar ++ ['"']))

end SchemaGrammar.Text
