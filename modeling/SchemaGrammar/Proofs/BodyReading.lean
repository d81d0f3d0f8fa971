import Mathlib
import SchemaGrammar.Proofs.BodyReader
import SchemaGrammar.Proofs.BodyText

/-!
# What bodies read as

Each kind of body has an expression (`Body.expression`), and `readBody_text` says that reading the
body's text gives it. This takes two conditions. The rules that the body refers to have rule names,
and the literals of its constants and keys are read whole. They need not be read as the JSON texts
they were written for: the expression has what they are read as.

The texts of objects, of alternatives and of constants are made of literals and names alone
(`Atom`), so they are read by two lemmas: one for a sequence of atoms and one for atoms between bars.
-/

namespace SchemaGrammar.Gbnf

open Json (Value)

/-! ## Atoms -/

/-- A literal or the name of a rule. -/
inductive Atom
  | literal (content : List Char)
  | rule (name : String)

namespace Atom

/-- The token of an atom. -/
def token : Atom → Token
  | literal content => .literal content
  | rule name => .name name.toList

/-- The expression of an atom. -/
def expression : Atom → Expression
  | literal content => .literal content
  | rule name => .rule name

/-- The optional blank. -/
def space : Atom := rule spaceName

theorem assemble_token (atom : Atom) (frame : Frame) (outer : List Frame) (rest : List Token) :
    assemble frame outer (atom.token :: rest) = assemble (frame.push atom.expression) outer rest := by
  cases atom with
  | literal content => rfl
  | rule name => rw [token, assemble, String.ofList_toList, expression]

/-- Atoms in a row are items of the innermost group. -/
theorem assemble_map_token (atoms : List Atom) (frame : Frame) (outer : List Frame)
    (rest : List Token) :
    assemble frame outer (atoms.map token ++ rest) =
      assemble { frame with items := (atoms.map expression).reverse ++ frame.items } outer rest := by
  induction atoms generalizing frame with
  | nil => rfl
  | cons atom atoms ih =>
    rw [List.map_cons, List.cons_append, assemble_token, ih, Frame.push, List.map_cons,
      List.reverse_cons, List.append_assoc, List.singleton_append]

/-- Atoms between bars are alternatives of one item each. -/
theorem assemble_bars (atoms : List Atom) (atom : Atom) (alternatives : List Expression) :
    assemble ⟨alternatives, [atom.expression]⟩ []
        (atoms.flatMap fun more => [.bar, more.token]) =
      some (.choice (alternatives.reverse ++
        (atom :: atoms).map fun atom => .sequence [atom.expression])) := by
  induction atoms generalizing atom alternatives with
  | nil =>
    rw [List.flatMap_nil, assemble, List.isEmpty_nil, if_pos rfl, Frame.expression,
      Frame.endAlternative, List.reverse_cons]
    rfl
  | cons more atoms ih =>
    rw [List.flatMap_cons, List.cons_append, List.singleton_append, assemble, assemble_token]
    show assemble ⟨.sequence [atom.expression] :: alternatives, [more.expression]⟩ [] _ = _
    rw [ih, List.reverse_cons, List.append_assoc]
    rfl

end Atom

/-! ## Tokens of the pieces of a body -/

/-- A rest of a text that does not go on with a name before it. -/
def EndsName (rest : List Char) : Prop := ∀ c, rest.head? = some c → isNameChar c = false

theorem endsName_nil : EndsName [] := nofun

theorem endsName_cons {c : Char} (rest : List Char) (h : isNameChar c = false) :
    EndsName (c :: rest) := by
  intro d head
  cases head
  exact h

/-- A name is one token up to the first character that no name has. -/
theorem tokens_name_append {name : String} (isName : IsRuleName name) {rest : List Char}
    (ends : EndsName rest) :
    tokens (name.toList ++ rest) = (tokens rest).map ((Atom.rule name).token :: ·) := by
  obtain ⟨notEmpty, areNameChars⟩ := isName
  rw [Atom.token]
  cases chars : name.toList with
  | nil => exact absurd (String.toList_eq_nil_iff.mp chars) notEmpty
  | cons c more =>
    rw [chars] at areNameChars
    have others : ∀ d ∈ more, isNameChar d = true :=
      fun d mem => areNameChars d (List.mem_cons_of_mem c mem)
    have stop : rest.takeWhile isNameChar = [] ∧ rest.dropWhile isNameChar = rest := by
      cases rest with
      | nil => exact ⟨rfl, rfl⟩
      | cons d rest => simp only [List.takeWhile_cons, List.dropWhile_cons, ends d rfl,
          Bool.false_eq_true, if_false, and_self]
    rw [List.cons_append, tokens_name (areNameChars c List.mem_cons_self),
      List.takeWhile_append_of_pos others, List.dropWhile_append_of_pos others, stop.1, stop.2,
      List.append_nil]

/-- A quoted text without a backslash is one token. -/
theorem tokens_quoted {content : List Char} (notMem : '\\' ∉ content) (rest : List Char) :
    tokens ('"' :: (content.flatMap escapeChar ++ '"' :: rest)) =
      (tokens rest).map ((Atom.literal content).token :: ·) :=
  tokens_literal (readUntil_flatMap_escapeChar notMem rest)

/-- The literal of a constant is one token, if it is read whole. -/
theorem tokens_constant {v : Value} (readable : IsReadable v) (rest : List Char) :
    tokens ('"' :: (v.write.flatMap escapeChar ++ '"' :: rest)) =
      (tokens rest).map ((Atom.literal (literalContent v)).token :: ·) :=
  tokens_literal (readable.readUntil rest)

/-- The optional blank behind another piece. -/
theorem tokens_space {rest : List Char} (ends : EndsName rest) :
    tokens (' ' :: (spaceName.toList ++ rest)) = (tokens rest).map (Atom.space.token :: ·) := by
  rw [tokens_blank, tokens_name_append isRuleName_spaceName ends]
  rfl

/-! ## Objects -/

namespace Body

/-- The atoms of a property: its key, a colon and its rule. -/
def fieldAtoms (field : String × String) : List Atom :=
  [.literal (literalContent (.string field.1)), .space, .literal [':'], .space, .rule field.2]

/-- The atoms behind a property. -/
def moreAtoms (fields : List (String × String)) : List Atom :=
  fields.flatMap (fun field => .literal [','] :: .space :: fieldAtoms field) ++
    [.literal ['}'], .space]

/-- The atoms of an object. -/
def objectAtoms : List (String × String) → List Atom
  | [] => .literal ['{'] :: .space :: moreAtoms []
  | field :: fields => .literal ['{'] :: .space :: (fieldAtoms field ++ moreAtoms fields)

/-- The literals of the keys of these properties are read whole. -/
def AreReadable (fields : List (String × String)) : Prop :=
  ∀ field ∈ fields, IsReadable (.string field.1)

theorem tokens_fieldText {field : String × String} (isName : IsRuleName field.2)
    (readable : IsReadable (.string field.1)) {rest : List Char} (ends : EndsName rest) :
    tokens ((fieldText field).toList ++ rest) =
      (tokens rest).map ((fieldAtoms field).map Atom.token ++ ·) := by
  have ends' : ∀ {more : List Char}, EndsName (' ' :: more) := endsName_cons _ (by decide)
  simp only [toList_fieldText, List.append_assoc]
  show tokens (' ' :: '"' :: ((Value.string field.1).write.flatMap escapeChar ++ '"' ::
    ' ' :: (spaceName.toList ++ ' ' :: '"' :: ([':'].flatMap escapeChar ++ '"' ::
      ' ' :: (spaceName.toList ++ ' ' :: (field.2.toList ++ rest)))))) = _
  rw [tokens_blank, tokens_constant readable, tokens_space ends', tokens_blank,
    tokens_quoted (by decide), tokens_space ends', tokens_blank, tokens_name_append isName ends]
  simp only [Option.map_map]
  rfl

theorem endsName_moreFields (fields : List (String × String)) : EndsName (moreFields fields) := by
  obtain ⟨rest, more⟩ := exists_moreFields_eq_cons fields
  rw [more]
  exact endsName_cons rest (by decide)

theorem tokens_moreFields : ∀ {fields : List (String × String)}, AreNamed fields →
    AreReadable fields → tokens (moreFields fields) = some ((moreAtoms fields).map Atom.token)
  | [], _, _ => by
    show tokens (' ' :: '"' :: (['}'].flatMap escapeChar ++ '"' ::
      ' ' :: (spaceName.toList ++ []))) = _
    rw [tokens_blank, tokens_quoted (by decide), tokens_space endsName_nil, tokens_nil]
    rfl
  | field :: fields, named, readable => by
    have ends : EndsName ((fieldText field).toList ++ moreFields fields) := by
      rw [toList_fieldText]
      exact endsName_cons _ (by decide)
    rw [moreFields_cons]
    show tokens (' ' :: '"' :: ([','].flatMap escapeChar ++ '"' ::
      ' ' :: (spaceName.toList ++ ((fieldText field).toList ++ moreFields fields)))) = _
    rw [tokens_blank, tokens_quoted (by decide), tokens_space ends,
      tokens_fieldText (named field List.mem_cons_self) (readable field List.mem_cons_self)
        (endsName_moreFields fields),
      tokens_moreFields (fun f mem => named f (List.mem_cons_of_mem field mem))
        (fun f mem => readable f (List.mem_cons_of_mem field mem))]
    simp only [Option.map_some, moreAtoms, List.flatMap_cons, List.map_append, List.map_cons,
      List.append_assoc, List.cons_append]

theorem tokens_text_object {fields : List (String × String)} (named : AreNamed fields)
    (readable : AreReadable fields) :
    tokens (object fields).text.toList = some ((objectAtoms fields).map Atom.token) := by
  have opening : ∀ {rest : List Char}, EndsName rest →
      tokens ("\"\x7b\" space".toList ++ rest) =
        (tokens rest).map ([(Atom.literal ['{']).token, Atom.space.token] ++ ·) := by
    intro rest ends
    show tokens ('"' :: (['{'].flatMap escapeChar ++ '"' :: ' ' :: (spaceName.toList ++ rest))) = _
    rw [tokens_quoted (by decide), tokens_space ends, Option.map_map]
    rfl
  cases fields with
  | nil =>
    rw [toList_text_object_nil, opening (endsName_moreFields []), tokens_moreFields named readable]
    rfl
  | cons field fields =>
    have ends : EndsName ((fieldText field).toList ++ moreFields fields) := by
      rw [toList_fieldText]
      exact endsName_cons _ (by decide)
    rw [toList_text_object_cons, opening ends,
      tokens_fieldText (named field List.mem_cons_self) (readable field List.mem_cons_self)
        (endsName_moreFields fields),
      tokens_moreFields (fun f mem => named f (List.mem_cons_of_mem field mem))
        (fun f mem => readable f (List.mem_cons_of_mem field mem))]
    simp only [Option.map_some, objectAtoms, List.map_append, List.map_cons]
    rfl

/-! ## Alternatives and constants -/

/-- Texts that are read as atoms are read with bars between them. -/
theorem tokens_joinBars {α : Type} (text : α → String) (atom : α → Atom) :
    ∀ (x : α) (xs : List α),
      (∀ y ∈ x :: xs, ∀ rest, EndsName rest →
        tokens ((text y).toList ++ rest) = (tokens rest).map ((atom y).token :: ·)) →
      tokens (joinBars ((x :: xs).map text)).toList =
        some ((atom x).token :: (xs.map atom).flatMap fun more => [.bar, more.token])
  | x, [], reads => by
    have read := reads x List.mem_cons_self [] endsName_nil
    rw [List.append_nil, tokens_nil] at read
    exact read
  | x, y :: xs, reads => by
    have others := tokens_joinBars text atom y xs fun z mem => reads z (List.mem_cons_of_mem x mem)
    have chars : (joinBars ((x :: y :: xs).map text)).toList =
        (text x).toList ++ ' ' :: '|' :: ' ' :: (joinBars ((y :: xs).map text)).toList := by
      simp only [joinBars, List.map_cons, String.intercalate_cons_cons, String.toList_append,
        List.append_assoc]
      rfl
    rw [chars, reads x List.mem_cons_self _ (endsName_cons _ (by decide)), tokens_blank, tokens_bar,
      tokens_blank, others]
    rfl

/-- The expression for one of several atoms. -/
def choiceOf (atoms : List Atom) : Expression :=
  .choice (atoms.map fun atom => .sequence [atom.expression])

theorem readBody_joinBars {α : Type} (text : α → String) (atom : α → Atom) {xs : List α}
    (notEmpty : xs ≠ []) (reads : ∀ y ∈ xs, ∀ rest, EndsName rest →
      tokens ((text y).toList ++ rest) = (tokens rest).map ((atom y).token :: ·)) :
    readBody (joinBars (xs.map text)) = some (choiceOf (xs.map atom)) := by
  cases xs with
  | nil => exact absurd rfl notEmpty
  | cons x xs =>
    rw [readBody, tokens_joinBars text atom x xs reads, Option.bind_some, Atom.assemble_token]
    exact Atom.assemble_bars (xs.map atom) (atom x) []

/-! ## All bodies -/

/-- A decimal digit. -/
def digit : Expression := .charClass ⟨false, [('0', '9')]⟩

/-- An expression that may be left out. -/
def optional (items : List Expression) : Expression :=
  .repeated (.choice [.sequence items]) 0 (some 1)

/-- An integer without its blank. -/
def integer : Expression :=
  .choice [.sequence [.repeated (.literal ['-']) 0 (some 1), .choice [.sequence [digit],
    .sequence [.charClass ⟨false, [('1', '9')]⟩, .repeated digit 0 none]]]]

/-- A character of a string, or an escape. -/
def stringCharacter : Expression :=
  .choice [.sequence [.charClass ⟨true, [('"', '"'), ('\\', '\\')]⟩],
    .sequence [.literal ['\\'], .choice [
      .sequence [.charClass ⟨false, Json.shortEscapes.map fun c => (c, c)⟩],
      .sequence [.literal ['u'],
        .repeated (.charClass ⟨false, [('0', '9'), ('a', 'f'), ('A', 'F')]⟩) 4 (some 4)]]]]

/-- What the production of a primitive type means. -/
def primitiveItems : Primitive → List Expression
  | .boolean => [.choice [.sequence [.literal "true".toList], .sequence [.literal "false".toList]]]
  | .number => [integer, optional [.literal ['.'], .repeated digit 1 none],
    optional [.charClass ⟨false, [('e', 'e'), ('E', 'E')]⟩,
      .repeated (.charClass ⟨false, [('-', '-'), ('+', '+')]⟩) 0 (some 1), .repeated digit 1 none]]
  | .integer => [integer]
  | .string => [.literal ['"'], .repeated stringCharacter 0 none, .literal ['"']]
  | .null => [.literal "null".toList]

/-- What a body means. -/
def expression : Body → Expression
  | alternatives names => choiceOf (names.map .rule)
  | constants values => choiceOf (values.map fun v => .literal (literalContent v))
  | object fields => .choice [.sequence ((objectAtoms fields).map Atom.expression)]
  | array item => .choice [.sequence [.literal ['['], Atom.space.expression,
      optional [.rule item, .repeated (.choice [.sequence [.literal [','], Atom.space.expression,
        .rule item]]) 0 none],
      .literal [']'], Atom.space.expression]]
  | primitive p => .choice [.sequence (primitiveItems p ++ [Atom.space.expression])]

theorem readBody_production (p : Primitive) :
    readBody p.production = some (expression (.primitive p)) := by
  cases p <;> cbv

theorem readBody_text_array {item : String} (isName : IsRuleName item) :
    readBody (array item).text = some (expression (array item)) := by
  have ends' : ∀ {more : List Char}, EndsName (' ' :: more) := endsName_cons _ (by decide)
  have endsLast : EndsName ")*)? \"]\" space".toList := endsName_cons _ (by decide)
  have closing : tokens ")*)? \"]\" space".toList =
      some [.closing, .repeated 0 none, .closing, .repeated 0 (some 1), .literal [']'],
        Atom.space.token] := by cbv
  have read : tokens (array item).text.toList = some ([(Atom.literal ['[']).token, Atom.space.token,
      .opening, (Atom.rule item).token, .opening, (Atom.literal [',']).token, Atom.space.token,
      (Atom.rule item).token, .closing, .repeated 0 none, .closing, .repeated 0 (some 1),
      .literal [']'], Atom.space.token]) := by
    simp only [text, String.toList_append, List.append_assoc]
    show tokens ('"' :: (['['].flatMap escapeChar ++ '"' :: ' ' :: (spaceName.toList ++ ' ' ::
      '(' :: (item.toList ++ ' ' :: '(' :: '"' :: ([','].flatMap escapeChar ++ '"' ::
        ' ' :: (spaceName.toList ++ ' ' :: (item.toList ++ ")*)? \"]\" space".toList))))))) = _
    rw [tokens_quoted (by decide), tokens_space ends', tokens_blank, tokens_opening,
      tokens_name_append isName ends', tokens_blank, tokens_opening, tokens_quoted (by decide),
      tokens_space ends', tokens_blank, tokens_name_append isName endsLast, closing]
    rfl
  rw [readBody, read, Option.bind_some]
  simp only [assemble, Atom.token, Atom.space, String.ofList_toList]
  rfl

/-- A choice among nothing. -/
def IsEmptyChoice : Body → Prop
  | alternatives names => names = []
  | constants values => values = []
  | object _ | array _ | primitive _ => False

/-- The values for which a body has literals: its constants and its keys. -/
def quoted : Body → List Value
  | constants values => values
  | object fields => fields.map fun field => .string field.1
  | alternatives _ | array _ | primitive _ => []

/-- Reading the text of a body gives what the body means. -/
theorem readBody_text : ∀ {body : Body}, body.IsNamed → ¬ body.IsEmptyChoice →
    (∀ v ∈ body.quoted, IsReadable v) → readBody body.text = some body.expression
  | alternatives names, named, notEmpty, _ => by
    have read := readBody_joinBars id Atom.rule notEmpty
      fun name mem rest ends => tokens_name_append (named name mem) ends
    rwa [List.map_id] at read
  | constants values, _, notEmpty, readable => by
    refine readBody_joinBars constantLiteral (fun v => .literal (literalContent v)) notEmpty ?_
    intro v mem rest _
    rw [toList_constantLiteral, List.cons_append, List.append_assoc]
    exact tokens_constant (readable v mem) rest
  | object fields, named, _, readable => by
    rw [readBody, tokens_text_object named (List.forall_mem_map.mp readable), Option.bind_some,
      ← List.append_nil (List.map Atom.token _), Atom.assemble_map_token]
    show some (Expression.choice [.sequence (_ ++ []).reverse]) = _
    rw [List.append_nil, List.reverse_reverse]
    rfl
  | array item, isName, _, _ => readBody_text_array isName
  | primitive p, _, _, _ => readBody_production p

end Body

end SchemaGrammar.Gbnf
