import SchemaGrammar.Gbnf.Body
import SchemaGrammar.Proofs.WrittenJson

/-!
# Reading quoted literals back

A literal is read from its opening quote on: a backslash takes the next character with it, and the
first quote that is not taken so ends the literal. `readLiteral` is that rule. Character classes are
read in the same way up to their bracket, so the reading is given for any closing character.

Writing a literal escapes three characters, but not the backslash, so what is written is read back
only if it has no backslash of its own (`readLiteral_quote`). Conversely, each quote and each
backslash that reading gives has cost two characters (`length_of_readUntil`), and writing has
paid for the quotes only. For a constant this makes an exact condition: its literal is read as its
JSON text if and only if no string inside it has a character that JSON escapes
(`readLiteral_constantLiteral_iff`). For other constants the literal reads as something else, or ends
early and leaves the rest of the text behind.
-/

namespace SchemaGrammar.Gbnf

open Json (Value)

/-! ## The reading -/

/-- The character that a backslash and a character stand for. -/
def unescape? : Char → Option Char
  | 'n' => some '\n'
  | 'r' => some '\r'
  | '"' => some '"'
  | '\\' => some '\\'
  | _ => none

/-- Reads up to a closing character: what stands before it, and what is left of the text. -/
def readUntil (closing : Char) : List Char → Option (List Char × List Char)
  | [] => none
  | '\\' :: letter :: text =>
    (unescape? letter).bind fun c =>
      (readUntil closing text).map fun (content, rest) => (c :: content, rest)
  | c :: text =>
    if c = closing then some ([], text)
    else (readUntil closing text).map fun (content, rest) => (c :: content, rest)

/-- Reads the literal at the front of a text. -/
def readLiteral : List Char → Option (List Char × List Char)
  | '"' :: text => readUntil '"' text
  | _ => none

/-- Any character but a backslash is read by itself. -/
theorem readUntil_cons {closing c : Char} (notBackslash : c ≠ '\\') (text : List Char) :
    readUntil closing (c :: text) =
      if c = closing then some ([], text)
      else (readUntil closing text).map fun (content, rest) => (c :: content, rest) := by
  rw [readUntil]
  intro letter more same
  exact absurd same notBackslash

/-- A character in front of what can be read is no backslash, unless the two form an escape. -/
theorem ne_backslash_of_readUntil {closing c : Char} {text content rest : List Char}
    (notEscape : ∀ letter more, c = '\\' → text = letter :: more → False)
    (read : readUntil closing text = some (content, rest)) : c ≠ '\\' := by
  rintro rfl
  cases text with
  | nil => cases read
  | cons letter text => exact notEscape letter text rfl rfl

/-- What has been read stays the same if the text goes on. -/
theorem readUntil_append {closing : Char} (h : closing ≠ '\\') {text content left : List Char}
    (read : readUntil closing text = some (content, left)) (rest : List Char) :
    readUntil closing (text ++ rest) = some (content, left ++ rest) := by
  induction text using readUntil.induct closing generalizing content left with
  | case1 => cases read
  | case2 letter text ih =>
    rw [readUntil] at read
    obtain ⟨c, unescaped, read⟩ := Option.bind_eq_some_iff.mp read
    obtain ⟨⟨content', left'⟩, read', same⟩ := Option.map_eq_some_iff.mp read
    cases same
    rw [List.cons_append, List.cons_append, readUntil, unescaped, Option.bind_some, ih read',
      Option.map_some]
  | case3 text notEscape =>
    rw [readUntil_cons h, if_pos rfl] at read
    cases read
    rw [List.cons_append, readUntil_cons h, if_pos rfl]
  | case4 c text notEscape notClosing ih =>
    rw [readUntil, if_neg notClosing] at read
    · obtain ⟨⟨content', left'⟩, read', same⟩ := Option.map_eq_some_iff.mp read
      cases same
      rw [List.cons_append, readUntil_cons (ne_backslash_of_readUntil notEscape read'),
        if_neg notClosing, ih read', Option.map_some]
    · exact notEscape

/-! ## What is written without backslashes is read back -/

theorem readUntil_escapeChar {c : Char} (notBackslash : c ≠ '\\') (text : List Char) :
    readUntil '"' (escapeChar c ++ text) =
      (readUntil '"' text).map fun (content, rest) => (c :: content, rest) := by
  unfold escapeChar
  split
  · rfl
  · rfl
  · rfl
  · next notQuote => rw [List.singleton_append, readUntil_cons notBackslash, if_neg notQuote]

theorem readUntil_flatMap_escapeChar {text : List Char} (notMem : '\\' ∉ text)
    (rest : List Char) :
    readUntil '"' (text.flatMap escapeChar ++ '"' :: rest) = some (text, rest) := by
  induction text with
  | nil => rfl
  | cons c text ih =>
    rw [List.flatMap_cons, List.append_assoc, readUntil_escapeChar,
      ih fun mem => notMem (List.mem_cons_of_mem c mem), Option.map_some]
    exact fun same => notMem (same ▸ List.mem_cons_self)

/-- A text without a backslash is read back from its literal, and what follows the literal is left. -/
theorem readLiteral_quote {text : String} (notMem : '\\' ∉ text.toList) (rest : List Char) :
    readLiteral ((quote text).toList ++ rest) = some (text.toList, rest) := by
  rw [toList_quote, List.cons_append, List.append_assoc, readLiteral]
  exact readUntil_flatMap_escapeChar notMem rest

/-! ## Literals of constants -/

/-- What the literal of a constant is read as. -/
def literalContent (v : Value) : List Char :=
  ((readLiteral (constantLiteral v).toList).map Prod.fst).getD []

/-- The literal of a constant is read whole, whatever it is read as. -/
def IsReadable (v : Value) : Prop :=
  readLiteral (constantLiteral v).toList = some (literalContent v, [])

instance (v : Value) : Decidable (IsReadable v) :=
  inferInstanceAs (Decidable (_ = _))

theorem toList_compact (v : Value) : v.compact.toList = v.write := String.toList_ofList

theorem toList_constantLiteral (v : Value) :
    (constantLiteral v).toList = '"' :: (v.write.flatMap escapeChar ++ ['"']) := by
  rw [constantLiteral, toList_quote, toList_compact]

/-- A readable literal is read as the same whatever follows it. -/
theorem IsReadable.readUntil {v : Value} (readable : IsReadable v) (rest : List Char) :
    readUntil '"' (v.write.flatMap escapeChar ++ '"' :: rest) = some (literalContent v, rest) := by
  rw [IsReadable, toList_constantLiteral, readLiteral] at readable
  have read := readUntil_append (by decide) readable rest
  rwa [List.append_assoc, List.singleton_append] at read

/-- The literal of a constant without backslashes is read as the constant's text. -/
theorem readLiteral_constantLiteral {v : Value} (plain : v.IsPlain) :
    readLiteral (constantLiteral v).toList = some (v.compact.toList, []) := by
  have notMem : '\\' ∉ v.compact.toList := by
    rw [toList_compact]
    exact Value.backslash_notMem_write_iff.mpr plain
  have read := readLiteral_quote notMem []
  rwa [List.append_nil] at read

theorem literalContent_of_isPlain {v : Value} (plain : v.IsPlain) : literalContent v = v.write := by
  rw [literalContent, readLiteral_constantLiteral plain, Option.map_some, Option.getD_some,
    toList_compact]

theorem isReadable_of_isPlain {v : Value} (plain : v.IsPlain) : IsReadable v := by
  rw [IsReadable, readLiteral_constantLiteral plain, literalContent_of_isPlain plain, toList_compact]

/-- The literal of a key is read as something that begins with a quote. -/
theorem exists_literalContent_string {key : String} (readable : IsReadable (.string key)) :
    ∃ more, literalContent (.string key) = '"' :: more := by
  have read := readable.readUntil []
  rw [Value.write, Json.writeString, List.flatMap_cons, List.append_assoc,
    readUntil_escapeChar (by decide : '"' ≠ '\\')] at read
  obtain ⟨⟨content, rest⟩, -, same⟩ := Option.map_eq_some_iff.mp read
  exact ⟨content, (Prod.mk.inj same).1.symm⟩

/-- The literal of a constant is read whole, as a JSON text in which control characters may stand for
themselves in strings. -/
def IsWellQuoted (v : Value) : Prop :=
  IsReadable v ∧ Json.IsValue Json.lenient (literalContent v) []

/-- A constant is well quoted if no character of its strings is escaped in its JSON text. -/
theorem isWellQuoted_of_isPlain {v : Value} (plain : v.IsPlain) : IsWellQuoted v := by
  have isValue := v.isValue_write []
  rw [List.append_nil] at isValue
  refine ⟨isReadable_of_isPlain plain, ?_⟩
  rw [literalContent_of_isPlain plain]
  refine isValue.mono ?_ ?_
  · intro c isPlain
    exact ⟨isPlain.1, isPlain.2.1⟩
  · intro c never
    exact never.elim

/-! ## What reading costs and what writing pays -/

/-- How many characters of a text are backslashes or a certain other character. -/
def countMarked (closing : Char) (text : List Char) : Nat := text.count closing + text.count '\\'

theorem countMarked_cons_le {closing : Char} (h : closing ≠ '\\') (c : Char) (text : List Char) :
    countMarked closing (c :: text) ≤ countMarked closing text + 1 := by
  unfold countMarked
  by_cases same : c = closing
  · subst same
    rw [List.count_cons_self, List.count_cons_of_ne h]
    omega
  · rw [List.count_cons_of_ne same]
    have atMost : (c :: text).count '\\' ≤ text.count '\\' + 1 := by
      rw [List.count_cons]
      split <;> omega
    omega

/-- Each backslash of what is read, and each character like the closing one, takes two characters of
the text, and the closing one itself takes one. -/
theorem length_of_readUntil {closing : Char} (h : closing ≠ '\\') {text content rest : List Char}
    (read : readUntil closing text = some (content, rest)) :
    content.length + countMarked closing content + 1 + rest.length ≤ text.length := by
  induction text using readUntil.induct closing generalizing content rest with
  | case1 => cases read
  | case2 letter text ih =>
    rw [readUntil] at read
    obtain ⟨c, -, read⟩ := Option.bind_eq_some_iff.mp read
    obtain ⟨⟨content', rest'⟩, read', same⟩ := Option.map_eq_some_iff.mp read
    cases same
    have shorter := ih read'
    have atMost := countMarked_cons_le h c content'
    simp only [List.length_cons]
    omega
  | case3 text notEscape =>
    rw [readUntil_cons h, if_pos rfl] at read
    cases read
    simp only [countMarked, List.count_nil, List.length_nil, List.length_cons]
    omega
  | case4 c text notEscape notClosing ih =>
    rw [readUntil, if_neg notClosing] at read
    · obtain ⟨⟨content', rest'⟩, read', same⟩ := Option.map_eq_some_iff.mp read
      cases same
      have shorter := ih read'
      have notBackslash := ne_backslash_of_readUntil notEscape read'
      have unmarked : countMarked closing (c :: content') = countMarked closing content' := by
        rw [countMarked, List.count_cons_of_ne notClosing, List.count_cons_of_ne notBackslash,
          countMarked]
      simp only [List.length_cons]
      omega
    · exact notEscape

/-- Writing a text without line breaks takes one more character for each quote. -/
theorem length_flatMap_escapeChar {text : List Char} (noReturn : '\r' ∉ text)
    (noNewline : '\n' ∉ text) :
    (text.flatMap escapeChar).length = text.length + text.count '"' := by
  induction text with
  | nil => rfl
  | cons c text ih =>
    have following := ih (fun mem => noReturn (List.mem_cons_of_mem c mem))
      (fun mem => noNewline (List.mem_cons_of_mem c mem))
    rw [List.flatMap_cons, List.length_append, following, List.length_cons, List.count_cons]
    unfold escapeChar
    split
    · exact absurd List.mem_cons_self noReturn
    · exact absurd List.mem_cons_self noNewline
    · simp only [List.length_cons, List.length_nil, beq_self_eq_true, if_true]
      omega
    · next notQuote =>
      have other : (c == '"') = false := beq_false_of_ne notQuote
      simp only [List.length_singleton, other, Bool.false_eq_true, if_false]
      omega

/-- A literal that is read as the text it was written for has no backslash in that text. -/
theorem notMem_of_readLiteral_quote {text : String} (noReturn : '\r' ∉ text.toList)
    (noNewline : '\n' ∉ text.toList)
    (read : readLiteral (quote text).toList = some (text.toList, [])) : '\\' ∉ text.toList := by
  rw [toList_quote, readLiteral] at read
  have cost := length_of_readUntil (by decide) read
  rw [List.length_append, length_flatMap_escapeChar noReturn noNewline] at cost
  simp only [countMarked, List.length_singleton, List.length_nil] at cost
  exact List.count_eq_zero.mp (by omega)

/-! ## Constants -/

/-- The literal of a constant is read, whole, as the constant's JSON text if and only if no string in
the constant has a character that JSON escapes: a quote, a backslash or a control character. -/
theorem readLiteral_constantLiteral_iff (v : Value) :
    readLiteral (constantLiteral v).toList = some (v.compact.toList, []) ↔ v.IsPlain := by
  constructor
  · intro read
    have noControl : ∀ c : Char, c.toNat < 0x20 → c ∉ v.compact.toList := by
      intro c control mem
      rw [toList_compact] at mem
      exact absurd (Value.notControl_of_mem_write mem) (Nat.not_le.mpr control)
    rw [← Value.backslash_notMem_write_iff, ← toList_compact]
    exact notMem_of_readLiteral_quote (noControl _ (by decide)) (noControl _ (by decide)) read
  · intro plain
    exact readLiteral_constantLiteral plain

/-- The literal of a string that is one quote ends in the middle of the JSON text, and the rest is
left over as text of the rule. -/
theorem readLiteral_constantLiteral_quote :
    readLiteral (constantLiteral (.string "\"")).toList = some (['"', '\\'], ['\\', '"', '"']) ∧
      readLiteral (constantLiteral (.string "\"")).toList ≠
        some ((Value.string "\"").compact.toList, []) := by
  have read : readLiteral (constantLiteral (.string "\"")).toList =
      some (['"', '\\'], ['\\', '"', '"']) := by cbv
  refine ⟨read, fun whole => ?_⟩
  rw [read] at whole
  exact absurd (congrArg Prod.snd (Option.some.inj whole)) (by decide)

end SchemaGrammar.Gbnf
