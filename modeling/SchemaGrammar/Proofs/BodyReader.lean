import SchemaGrammar.Gbnf.RuleTable
import SchemaGrammar.Proofs.Expression
import SchemaGrammar.Proofs.QuotedLiteral

/-!
# Reading the body of a rule

A reader for the constructs that bodies use, which knows nothing of how bodies are written. The text
is cut into tokens first (`tokens`): literals and classes up to their closing character, names, and
the marks for grouping, choice and repetition. The tokens are then put together (`assemble`) with one
frame for every group that is open. A mark of repetition belongs to what stands right before it, and
a bar ends an alternative of the innermost group.
-/

namespace SchemaGrammar.Gbnf

/-! ## Tokens -/

/-- A token of a body. -/
inductive Token
  | literal (content : List Char)
  | charClass (charClass : CharClass)
  | name (name : List Char)
  | bar
  | opening
  | closing
  /-- What stands before is repeated. -/
  | repeated (least : Nat) (most : Option Nat)
  deriving DecidableEq, Repr

/-- The ranges of a class: a dash between two characters makes a range of them. -/
def rangesOf : List Char → List (Char × Char)
  | low :: '-' :: high :: rest => (low, high) :: rangesOf rest
  | c :: rest => (c, c) :: rangesOf rest
  | [] => []

/-- The class with some content; an arrow in front negates it. -/
def charClassOf : List Char → CharClass
  | '^' :: content => ⟨true, rangesOf content⟩
  | content => ⟨false, rangesOf content⟩

/-- Reads a number up to its closing brace. -/
def readCount (n : Nat) : List Char → Option (Nat × List Char)
  | [] => none
  | '}' :: rest => some (n, rest)
  | c :: rest => if c.isDigit then readCount (10 * n + (c.toNat - 48)) rest else none

theorem length_lt_of_readCount {n m : Nat} {text rest : List Char}
    (read : readCount n text = some (m, rest)) : rest.length < text.length := by
  induction text generalizing n with
  | nil => cases read
  | cons c text ih =>
    unfold readCount at read
    split at read
    · cases read
    · next same =>
      cases same
      cases read
      exact Nat.lt_succ_self _
    · next same =>
      cases same
      split at read
      · exact Nat.lt_succ_of_lt (ih read)
      · cases read

theorem length_lt_of_readUntil {closing : Char} (h : closing ≠ '\\') {text content rest : List Char}
    (read : readUntil closing text = some (content, rest)) : rest.length < text.length := by
  have := length_of_readUntil h read
  omega

/-- The tokens of a text, if it has no other parts. -/
def tokens : List Char → Option (List Token)
  | [] => some []
  | c :: text =>
    match c with
    | ' ' => tokens text
    | '|' => (tokens text).map (.bar :: ·)
    | '(' => (tokens text).map (.opening :: ·)
    | ')' => (tokens text).map (.closing :: ·)
    | '?' => (tokens text).map (.repeated 0 (some 1) :: ·)
    | '*' => (tokens text).map (.repeated 0 none :: ·)
    | '+' => (tokens text).map (.repeated 1 none :: ·)
    | '{' =>
      match _h : readCount 0 text with
      | none => none
      | some (n, rest) => (tokens rest).map (.repeated n (some n) :: ·)
    | '"' =>
      match _h : readUntil '"' text with
      | none => none
      | some (content, rest) => (tokens rest).map (.literal content :: ·)
    | '[' =>
      match _h : readUntil ']' text with
      | none => none
      | some (content, rest) => (tokens rest).map (.charClass (charClassOf content) :: ·)
    | c =>
      if isNameChar c then
        (tokens (text.dropWhile isNameChar)).map (.name (c :: text.takeWhile isNameChar) :: ·)
      else none
termination_by text => text.length
decreasing_by
  all_goals simp_wf
  all_goals first
    | (have shorter := length_lt_of_readCount _h; omega)
    | (have shorter := length_lt_of_readUntil (by decide) _h; omega)
    | (have shorter := List.length_dropWhile_le isNameChar text; omega)

theorem tokens_nil : tokens [] = some [] := by rw [tokens]

theorem tokens_blank (text : List Char) : tokens (' ' :: text) = tokens text := by
  rw [tokens]

theorem tokens_bar (text : List Char) : tokens ('|' :: text) = (tokens text).map (.bar :: ·) := by
  rw [tokens]

theorem tokens_opening (text : List Char) :
    tokens ('(' :: text) = (tokens text).map (.opening :: ·) := by
  rw [tokens]

theorem tokens_literal {text content rest : List Char}
    (read : readUntil '"' text = some (content, rest)) :
    tokens ('"' :: text) = (tokens rest).map (.literal content :: ·) := by
  rw [tokens]
  split
  · next none => rw [read] at none; cases none
  · next some => rw [read] at some; cases some; rfl

theorem tokens_name {c : Char} {text : List Char} (isName : isNameChar c = true) :
    tokens (c :: text) =
      (tokens (text.dropWhile isNameChar)).map (.name (c :: text.takeWhile isNameChar) :: ·) := by
  rw [tokens, if_pos isName]
  all_goals
    rintro rfl
    exact absurd isName (by decide)

/-! ## Groups -/

/-- A group that is open: the alternatives before the last bar, and what stands behind that bar. Both
are in reverse, so that what was read last comes first. -/
structure Frame where
  alternatives : List Expression
  items : List Expression

namespace Frame

/-- A group of which nothing has been read. -/
def empty : Frame := ⟨[], []⟩

/-- Adds an item to a group. -/
def push (frame : Frame) (e : Expression) : Frame := { frame with items := e :: frame.items }

/-- Ends an alternative of a group. -/
def endAlternative (frame : Frame) : Frame :=
  ⟨.sequence frame.items.reverse :: frame.alternatives, []⟩

/-- The expression of a group that is complete. -/
def expression (frame : Frame) : Expression :=
  .choice frame.endAlternative.alternatives.reverse

end Frame

/-- Puts tokens together: `frame` is the innermost open group, and `outer` are the groups around it. -/
def assemble (frame : Frame) (outer : List Frame) : List Token → Option Expression
  | [] => if outer.isEmpty then some frame.expression else none
  | .literal content :: rest => assemble (frame.push (.literal content)) outer rest
  | .charClass charClass :: rest => assemble (frame.push (.charClass charClass)) outer rest
  | .name name :: rest => assemble (frame.push (.rule (String.ofList name))) outer rest
  | .bar :: rest => assemble frame.endAlternative outer rest
  | .opening :: rest => assemble .empty (frame :: outer) rest
  | .closing :: rest =>
    match outer with
    | [] => none
    | around :: outer => assemble (around.push frame.expression) outer rest
  | .repeated least most :: rest =>
    match frame.items with
    | [] => none
    | item :: items => assemble { frame with items := .repeated item least most :: items } outer rest

/-- The expression that a body means. -/
def readBody (body : String) : Option Expression := (tokens body.toList).bind (assemble .empty [])

end SchemaGrammar.Gbnf
