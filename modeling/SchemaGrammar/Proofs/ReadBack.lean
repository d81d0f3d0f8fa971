import SchemaGrammar.Proofs.ClosedOutlines
import SchemaGrammar.Proofs.DistinctKeys
import SchemaGrammar.Proofs.WrittenJson

/-!
# Values that are read back from what is written

Reading a string undoes writing it, character by character, whatever the string holds
(`readString_flatMap`). For values this is said of any text that begins with one: `Begins` gives the
value and what stands behind it. Its text has an outline that closes, and each step passes from the
outlines of the parts to the outline of the whole, with blanks between the tokens. The pretty text of
a value begins with the value (`begins_writePretty`), so it is read back from it (`parse_pretty`); so
does the compact text, in which no blank has to be passed over (`begins_write`).

Numbers are left out. A number may be read as the one next to it, and no value that is meant to be
read back has any here.
-/

namespace SchemaGrammar.Json

/-! ## Strings -/

section Quoted

variable {done text rest : List Char}

theorem readQuoted_escape {c : Char} (escape : readEscape text = .ok (c, rest)) :
    readQuoted done ('\\' :: text) = readQuoted (c :: done) rest := by
  rw [readQuoted]
  split
  · next failed => cases escape.symm.trans failed
  · next same =>
    obtain ⟨rfl, rfl⟩ := Prod.mk.inj (Except.ok.inj (same.symm.trans escape))
    rfl

theorem readQuoted_plain {c : Char} (plain : IsPlain c) :
    readQuoted done (c :: text) = readQuoted (c :: done) text := by
  rw [readQuoted, if_neg (Nat.not_lt.mpr plain.2.2)]
  · exact plain.1
  · exact plain.2.1

theorem hexValue?_hexDigit : ∀ n < 16, hexValue? (hexDigit n) = some n := by decide

/-- A control character is read back from its code. -/
theorem readEscape_hex {c : Char} (control : c.toNat < 0x20) :
    readEscape ('u' :: '0' :: '0' :: hexDigit (c.toNat / 16) :: hexDigit (c.toNat % 16) :: rest) =
      .ok (c, rest) := by
  have code : readHex ('0' :: '0' :: hexDigit (c.toNat / 16) :: hexDigit (c.toNat % 16) :: rest) =
      .ok (c.toNat, rest) := by
    have zero : hexValue? '0' = some 0 := by decide
    rw [readHex, zero, hexValue?_hexDigit _ (by omega), hexValue?_hexDigit _ (by omega)]
    dsimp only
    rw [show ((0 * 16 + 0) * 16 + c.toNat / 16) * 16 + c.toNat % 16 = c.toNat by omega]
  have notTrailing : isTrailing c.toNat = false := by simp [isTrailing]; omega
  have notLeading : isLeading c.toNat = false := by simp [isLeading]; omega
  rw [readEscape, code]
  simp [bind, Except.bind, notTrailing, notLeading]

/-- A character that is escaped by a letter is read back if the letter stands for it. -/
theorem readQuoted_letter {c d letter : Char} {other : List Char}
    (letterOf : ∀ rest, readEscape (letter :: rest) = .ok (d, rest))
    (otherwise : c ≠ d → readQuoted done (other ++ rest) = readQuoted (c :: done) rest) :
    readQuoted done ((if c == d then ['\\', letter] else other) ++ rest) =
      readQuoted (c :: done) rest := by
  split
  · next same =>
    rw [beq_iff_eq.mp same]
    exact readQuoted_escape (letterOf rest)
  · next different => exact otherwise fun same => different (beq_iff_eq.mpr same)

/-- A character is read back from its written form. -/
theorem readQuoted_escapeChar (c : Char) (done rest : List Char) :
    readQuoted done (escapeChar c ++ rest) = readQuoted (c :: done) rest := by
  unfold escapeChar
  refine readQuoted_letter (fun _ => rfl) fun notQuote => ?_
  refine readQuoted_letter (fun _ => rfl) fun notBackslash => ?_
  iterate 5 refine readQuoted_letter (fun _ => rfl) fun _ => ?_
  split
  · next control => exact readQuoted_escape (readEscape_hex control)
  · next printable => exact readQuoted_plain ⟨notQuote, notBackslash, Nat.not_lt.mp printable⟩

/-- A string is read back up to its closing quote, if every character of it is. -/
theorem readQuoted_flatMap {write : Char → List Char}
    (reads : ∀ c done rest, readQuoted done (write c ++ rest) = readQuoted (c :: done) rest)
    (rest : List Char) : ∀ text done : List Char,
      readQuoted done (text.flatMap write ++ '"' :: rest) = .ok (done.reverse ++ text, rest)
  | [], done => by rw [List.flatMap_nil, List.nil_append, readQuoted, List.append_nil]
  | c :: text, done => by
    rw [List.flatMap_cons, List.append_assoc, reads, readQuoted_flatMap reads rest text (c :: done),
      List.reverse_cons, List.append_assoc, List.singleton_append]

theorem readString_flatMap_of {write : Char → List Char}
    (reads : ∀ c done rest, readQuoted done (write c ++ rest) = readQuoted (c :: done) rest)
    (s : String) (rest : List Char) :
    readString (s.toList.flatMap write ++ '"' :: rest) = .ok (s, rest) := by
  rw [readString, readQuoted_flatMap reads rest s.toList []]
  simp [Except.map]

theorem readString_flatMap (s : String) (rest : List Char) :
    readString (s.toList.flatMap escapeChar ++ '"' :: rest) = .ok (s, rest) :=
  readString_flatMap_of readQuoted_escapeChar s rest

end Quoted

/-- A written string behind its opening quote. -/
theorem writeString_append (s : String) (rest : List Char) :
    writeString s ++ rest = '"' :: (s.toList.flatMap escapeChar ++ '"' :: rest) := by
  rw [writeString, List.cons_append, List.append_assoc, List.singleton_append]

/-! ## Scalars -/

theorem readScalar_null (rest : List Char) :
    readScalar ("null".toList ++ rest) = .ok (.null, rest) := rfl

theorem readScalar_bool (b : Bool) (rest : List Char) :
    readScalar ((if b then "true".toList else "false".toList) ++ rest) = .ok (.bool b, rest) := by
  cases b <;> rfl

theorem readScalar_writeString (s : String) (rest : List Char) :
    readScalar (writeString s ++ rest) = .ok (.string s, rest) := by
  rw [writeString_append, readScalar]
  simp [readString_flatMap, Except.map]

/-- Different strings are written differently. -/
theorem writeString_injective : Function.Injective writeString := by
  intro s t same
  have read := readScalar_writeString s []
  rw [same, readScalar_writeString] at read
  cases read
  rfl

/-! ## Values at the start of a text -/

/-- A text begins with a value that can be built with so many levels to go, and goes on with
`rest`. -/
structure Begins (depth : Nat) (text : List Char) (v : Value) (rest : List Char) : Prop where
  reads : (outlineValue text).1.read depth = .ok v
  ends : (outlineValue text).2.map Subtype.val = some rest

/-- A text behind the opening bracket of an array, or behind one of its items, goes on with these
items and the closing bracket. -/
structure BeginsItems (depth : Nat) (first : Bool) (text : List Char) (vs : List Value)
    (rest : List Char) : Prop where
  reads : ∀ i, (outlineItems first text).1.read depth i = .ok vs
  ends : (outlineItems first text).2.map Subtype.val = some rest

/-- A text behind the opening bracket of an object, or behind one of its members, goes on with these
members and the closing bracket. -/
structure BeginsMembers (depth : Nat) (first : Bool) (text : List Char) (vs : List Member)
    (rest : List Char) : Prop where
  reads : (outlineMembers first text).1.read depth = .ok vs
  ends : (outlineMembers first text).2.map Subtype.val = some rest

section Steps

variable {depth : Nat} {first : Bool} {text start middle rest : List Char} {v : Value}
  {vs : List Value} {members : List Member}

/-- A text begins with what an outline that closes reads as. -/
theorem Begins.of_outlines {outline : Outline} (outlines : Outlines text outline rest)
    (read : outline.read depth = .ok v) : Begins depth text v rest :=
  ⟨by rw [outlines.makes.1, read], outlines.makes.2⟩

theorem Begins.exists_outlines (begins : Begins depth text v rest) :
    ∃ outline, Outlines text outline rest ∧ outline.read depth = .ok v := by
  obtain ⟨_, ends, outlines⟩ :=
    skip_outlineValue_iff.mp (Outline.skip_of_readsAs (Outline.readsAs_of_read begins.reads))
  obtain rfl := Option.some.inj (ends.symm.trans begins.ends)
  exact ⟨_, outlines, begins.reads⟩

theorem BeginsItems.of_outlines {items : Items} (outlines : OutlinesItems first text items rest)
    (read : ∀ i, items.read depth i = .ok vs) : BeginsItems depth first text vs rest :=
  ⟨fun i => by rw [outlines.makes.1, read], outlines.makes.2⟩

theorem BeginsItems.exists_outlines (begins : BeginsItems depth first text vs rest) :
    ∃ items, OutlinesItems first text items rest ∧ ∀ i, items.read depth i = .ok vs := by
  obtain ⟨_, ends, outlines⟩ :=
    allItemsCloseIfSkipped first text (Items.skip_of_readsAs (Items.readsAs_of_read (begins.reads 0)))
  obtain rfl := Option.some.inj (ends.symm.trans begins.ends)
  exact ⟨_, outlines, begins.reads⟩

theorem BeginsMembers.of_outlines {outlined : Members}
    (outlines : OutlinesMembers first text outlined rest) (read : outlined.read depth = .ok members) :
    BeginsMembers depth first text members rest :=
  ⟨by rw [outlines.makes.1, read], outlines.makes.2⟩

theorem BeginsMembers.exists_outlines (begins : BeginsMembers depth first text members rest) :
    ∃ outlined, OutlinesMembers first text outlined rest ∧ outlined.read depth = .ok members := by
  obtain ⟨_, ends, outlines⟩ :=
    allMembersCloseIfSkipped first text
      (Members.skip_of_readsAs (Members.readsAs_of_read begins.reads))
  obtain rfl := Option.some.inj (ends.symm.trans begins.ends)
  exact ⟨_, outlines, begins.reads⟩

theorem Begins.scalar (read : readScalar text = .ok (v, rest)) : Begins depth text v rest :=
  .of_outlines (.ofScalar (skipScalar_of_read read)) (by rw [Outline.read, read]; rfl)

/-- No blank stands before a value. -/
theorem Begins.skipBlanks_eq (begins : Begins depth text v rest) : skipBlanks text = text := by
  obtain ⟨outline, outlines, -⟩ := begins.exists_outlines
  obtain ⟨c, more, rfl, -, notBlank⟩ := outlines.exists_eq_cons
  exact skipBlanks_cons notBlank more

/-- What a text begins with is what is built of it. -/
theorem Begins.read_ofText (begins : Begins depth text v rest) :
    (Outline.ofText text).read depth = .ok v := by
  rw [Outline.ofText, begins.skipBlanks_eq, begins.reads]

theorem Begins.array (inner : BeginsItems depth true text vs rest) :
    Begins (depth + 1) ('[' :: text) (.array vs) rest := by
  obtain ⟨items, outlines, read⟩ := inner.exists_outlines
  exact .of_outlines (.array outlines) (by rw [Outline.read, read]; rfl)

theorem Begins.object (inner : BeginsMembers depth true text members rest) :
    Begins (depth + 1) ('{' :: text) (.object members) rest := by
  obtain ⟨outlined, outlines, read⟩ := inner.exists_outlines
  exact .of_outlines (.object outlines) (by rw [Outline.read, read]; rfl)

theorem BeginsItems.close (closing : skipBlanks text = ']' :: rest) :
    BeginsItems depth first text [] rest :=
  .of_outlines (.close closing) fun _ => rfl

theorem read_item {value : Outline} {next : Items} (here : value.read depth = .ok v)
    (more : ∀ i, next.read depth i = .ok vs) (i : Nat) :
    (Items.item value next).read depth i = .ok (v :: vs) := by
  rw [Items.read, here]
  dsimp only [below, Except.mapError]
  rw [more]
  rfl

theorem BeginsItems.cons (begin : skipBlanks text = start) (here : Begins depth start v middle)
    (following : BeginsItems depth false middle vs rest) :
    BeginsItems depth true text (v :: vs) rest := by
  obtain ⟨value, outlines, read⟩ := here.exists_outlines
  obtain ⟨next, more, readMore⟩ := following.exists_outlines
  exact .of_outlines (.first (begin ▸ outlines) more) (read_item read readMore)

theorem BeginsItems.next {behind : List Char} (comma : skipBlanks text = ',' :: behind)
    (begin : skipBlanks behind = start) (here : Begins depth start v middle)
    (following : BeginsItems depth false middle vs rest) :
    BeginsItems depth false text (v :: vs) rest := by
  obtain ⟨value, outlines, read⟩ := here.exists_outlines
  obtain ⟨next, more, readMore⟩ := following.exists_outlines
  exact .of_outlines (.next comma (begin ▸ outlines) more) (read_item read readMore)

theorem BeginsMembers.close (closing : skipBlanks text = '}' :: rest) :
    BeginsMembers depth first text [] rest :=
  .of_outlines (.close closing) rfl

/-- A member whose key has been opened, and what follows it. -/
theorem exists_outlinesMember_of_begins {key afterKey behind : List Char} {name : String}
    (keyRead : readString key = .ok (name, afterKey)) (colon : skipBlanks afterKey = ':' :: behind)
    (here : Begins depth (skipBlanks behind) v middle)
    (following : BeginsMembers depth false middle members rest) :
    ∃ outlined, OutlinesMember key outlined rest ∧
      outlined.read depth = .ok ((name, v) :: members) := by
  obtain ⟨value, outlines, read⟩ := here.exists_outlines
  obtain ⟨next, more, readMore⟩ := following.exists_outlines
  refine ⟨_, .intro (skipQuoted_of_readString keyRead) colon outlines more, ?_⟩
  rw [Members.read, readKey, keyRead]
  dsimp only [Except.mapError]
  rw [read]
  dsimp only [below, Except.mapError]
  rw [readMore]
  rfl

theorem BeginsMembers.cons {key afterKey behind : List Char} {name : String}
    (begin : skipBlanks text = '"' :: key) (keyRead : readString key = .ok (name, afterKey))
    (colon : skipBlanks afterKey = ':' :: behind)
    (here : Begins depth (skipBlanks behind) v middle)
    (following : BeginsMembers depth false middle members rest) :
    BeginsMembers depth true text ((name, v) :: members) rest := by
  obtain ⟨outlined, member, read⟩ := exists_outlinesMember_of_begins keyRead colon here following
  exact .of_outlines (.first begin member) read

theorem BeginsMembers.next {more key afterKey behind : List Char} {name : String}
    (comma : skipBlanks text = ',' :: more) (begin : skipBlanks more = '"' :: key)
    (keyRead : readString key = .ok (name, afterKey)) (colon : skipBlanks afterKey = ':' :: behind)
    (here : Begins depth (skipBlanks behind) v middle)
    (following : BeginsMembers depth false middle members rest) :
    BeginsMembers depth false text ((name, v) :: members) rest := by
  obtain ⟨outlined, member, read⟩ := exists_outlinesMember_of_begins keyRead colon here following
  exact .of_outlines (.next comma begin member) read

end Steps

/-! ## Pretty texts -/

namespace Value

/-- A value without numbers in which no more than so many arrays and objects are nested. -/
inductive Nests : Nat → Value → Prop
  | null {depth : Nat} : Nests depth .null
  | bool {depth : Nat} {b : Bool} : Nests depth (.bool b)
  | string {depth : Nat} {s : String} : Nests depth (.string s)
  | array {depth : Nat} {items : List Value} : (∀ v ∈ items, Nests depth v) →
      Nests (depth + 1) (.array items)
  | object {depth : Nat} {members : List Member} : (∀ m ∈ members, Nests depth m.2) →
      Nests (depth + 1) (.object members)

theorem skipBlanks_lineBreak (level : Nat) (rest : List Char) :
    skipBlanks (lineBreak level ++ rest) = skipBlanks rest := by
  refine skipBlanks_append (fun c mem => ?_) rest
  rcases List.mem_cons.mp mem with rfl | mem
  · rfl
  · rw [List.eq_of_mem_replicate mem]
    rfl

theorem skipBlanks_writeString (s : String) (rest : List Char) :
    skipBlanks (writeString s ++ rest) =
      '"' :: (s.toList.flatMap escapeChar ++ '"' :: rest) := by
  rw [writeString_append]
  exact skipBlanks_cons rfl _

theorem skipBlanks_colon (rest : List Char) : skipBlanks (':' :: rest) = ':' :: rest :=
  skipBlanks_cons rfl rest

theorem skipBlanks_space (rest : List Char) : skipBlanks (' ' :: rest) = skipBlanks rest := rfl

mutual
/-- The pretty text of a value begins with the value, on whatever level it is written. -/
theorem begins_writePretty (level : Nat) (rest : List Char) :
    ∀ (v : Value) {depth : Nat}, v.Nests depth → Begins depth (writePretty level v ++ rest) v rest
  | .null, _, _ => by
    rw [writePretty]
    exact .scalar (readScalar_null rest)
  | .bool b, _, _ => by
    rw [writePretty]
    exact .scalar (readScalar_bool b rest)
  | .number n, _, nests => nomatch nests
  | .string s, _, _ => by
    rw [writePretty]
    exact .scalar (readScalar_writeString s rest)
  | .array [], _, .array _ => .array (.close (skipBlanks_cons rfl rest))
  | .array (v :: items), _, .array each => by
    have here := begins_writePretty (level + 1) (prettyMoreItems level items ++ rest) v
      (each v List.mem_cons_self)
    have following := beginsItems_pretty level rest items
      fun w mem => each w (List.mem_cons_of_mem v mem)
    rw [writePretty, List.cons_append, List.append_assoc, List.append_assoc]
    refine .array (.cons ?_ here following)
    rw [skipBlanks_lineBreak, here.skipBlanks_eq]
  | .object [], _, .object _ => .object (.close (skipBlanks_cons rfl rest))
  | .object ((k, v) :: members), _, .object each => by
    have here := begins_writePretty (level + 1) (prettyMoreMembers level members ++ rest) v
      (each (k, v) List.mem_cons_self)
    have following := beginsMembers_pretty level rest members
      fun m mem => each m (List.mem_cons_of_mem (k, v) mem)
    rw [writePretty, List.cons_append, List.append_assoc, List.append_assoc, List.cons_append,
      List.cons_append, List.append_assoc]
    refine .object (.cons ((skipBlanks_lineBreak _ _).trans (skipBlanks_writeString k _))
      (readString_flatMap k _) (skipBlanks_colon _) ?_ following)
    rw [skipBlanks_space, here.skipBlanks_eq]
    exact here
termination_by structural v => v
/-- What is written behind an item goes on with the items after it. -/
theorem beginsItems_pretty (level : Nat) (rest : List Char) :
    ∀ (items : List Value) {depth : Nat}, (∀ v ∈ items, v.Nests depth) →
      BeginsItems depth false (prettyMoreItems level items ++ rest) items rest
  | [], _, _ => by
    rw [prettyMoreItems, List.append_assoc]
    exact .close (skipBlanks_lineBreak level _)
  | v :: items, _, each => by
    have here := begins_writePretty (level + 1) (prettyMoreItems level items ++ rest) v
      (each v List.mem_cons_self)
    have following := beginsItems_pretty level rest items
      fun w mem => each w (List.mem_cons_of_mem v mem)
    rw [prettyMoreItems, List.cons_append, List.append_assoc, List.append_assoc]
    refine .next (skipBlanks_cons rfl _) ?_ here following
    rw [skipBlanks_lineBreak, here.skipBlanks_eq]
termination_by structural items => items
/-- What is written behind a member goes on with the members after it. -/
theorem beginsMembers_pretty (level : Nat) (rest : List Char) :
    ∀ (members : List Member) {depth : Nat}, (∀ m ∈ members, m.2.Nests depth) →
      BeginsMembers depth false (prettyMoreMembers level members ++ rest) members rest
  | [], _, _ => by
    rw [prettyMoreMembers, List.append_assoc]
    exact .close (skipBlanks_lineBreak level _)
  | (k, v) :: members, _, each => by
    have here := begins_writePretty (level + 1) (prettyMoreMembers level members ++ rest) v
      (each (k, v) List.mem_cons_self)
    have following := beginsMembers_pretty level rest members
      fun m mem => each m (List.mem_cons_of_mem (k, v) mem)
    rw [prettyMoreMembers, List.cons_append, List.append_assoc, List.append_assoc, List.cons_append,
      List.cons_append, List.append_assoc]
    refine .next (skipBlanks_cons rfl _)
      ((skipBlanks_lineBreak _ _).trans (skipBlanks_writeString k _)) (readString_flatMap k _)
      (skipBlanks_colon _) ?_ following
    rw [skipBlanks_space, here.skipBlanks_eq]
    exact here
termination_by structural members => members
end

/-- A text that begins with a value and does not go on is a document with that value, if no object in
it repeats a key. -/
theorem ofChars_eq_of_begins {text : List Char} {v : Value} (begins : Begins nestingLimit text v [])
    (distinct : v.HasDistinctKeys) : ofChars text = .ok v := by
  have ends : Outline.restOfText text = some [] := by
    rw [Outline.restOfText, begins.skipBlanks_eq, begins.ends]
  rw [ofChars, begins.read_ofText]
  dsimp only
  rw [ends, Option.getD_some]
  exact congrArg Except.ok (merged_eq_self distinct)

/-- A value is read back from its pretty text, if its arrays and objects are not nested too deeply, no
object in it repeats a key, and it has no number. -/
theorem parse_pretty {v : Value} (nests : v.Nests nestingLimit) (distinct : v.HasDistinctKeys) :
    parse v.pretty = .ok v := by
  have begins := begins_writePretty 0 [] v nests
  rw [List.append_nil] at begins
  rw [parse, pretty, String.toList_ofList]
  exact ofChars_eq_of_begins begins distinct

/-! ## Compact texts -/

mutual
/-- The compact text of a value begins with the value. -/
theorem begins_write (rest : List Char) :
    ∀ (v : Value) {depth : Nat}, v.Nests depth → Begins depth (v.write ++ rest) v rest
  | .null, _, _ => by
    rw [write]
    exact .scalar (readScalar_null rest)
  | .bool b, _, _ => by
    rw [write]
    exact .scalar (readScalar_bool b rest)
  | .number n, _, nests => nomatch nests
  | .string s, _, _ => by
    rw [write]
    exact .scalar (readScalar_writeString s rest)
  | .array [], _, .array _ => .array (.close (skipBlanks_cons rfl rest))
  | .array (v :: items), _, .array each => by
    have here := begins_write (writeMoreItems items ++ rest) v (each v List.mem_cons_self)
    have following := beginsItems_write rest items fun w mem => each w (List.mem_cons_of_mem v mem)
    rw [write, List.cons_append, List.append_assoc]
    exact .array (.cons here.skipBlanks_eq here following)
  | .object [], _, .object _ => .object (.close (skipBlanks_cons rfl rest))
  | .object ((k, v) :: members), _, .object each => by
    have here := begins_write (writeMoreMembers members ++ rest) v (each (k, v) List.mem_cons_self)
    have following := beginsMembers_write rest members
      fun m mem => each m (List.mem_cons_of_mem (k, v) mem)
    rw [write, List.cons_append, List.append_assoc, List.cons_append, List.append_assoc]
    refine .object (.cons (skipBlanks_writeString k _) (readString_flatMap k _)
      (skipBlanks_colon _) ?_ following)
    rw [here.skipBlanks_eq]
    exact here
termination_by structural v => v
/-- What is written behind an item goes on with the items after it. -/
theorem beginsItems_write (rest : List Char) :
    ∀ (items : List Value) {depth : Nat}, (∀ v ∈ items, v.Nests depth) →
      BeginsItems depth false (writeMoreItems items ++ rest) items rest
  | [], _, _ => .close (skipBlanks_cons rfl rest)
  | v :: items, _, each => by
    have here := begins_write (writeMoreItems items ++ rest) v (each v List.mem_cons_self)
    have following := beginsItems_write rest items fun w mem => each w (List.mem_cons_of_mem v mem)
    rw [writeMoreItems, List.cons_append, List.append_assoc]
    exact .next (skipBlanks_cons rfl _) here.skipBlanks_eq here following
termination_by structural items => items
/-- What is written behind a member goes on with the members after it. -/
theorem beginsMembers_write (rest : List Char) :
    ∀ (members : List Member) {depth : Nat}, (∀ m ∈ members, m.2.Nests depth) →
      BeginsMembers depth false (writeMoreMembers members ++ rest) members rest
  | [], _, _ => .close (skipBlanks_cons rfl rest)
  | (k, v) :: members, _, each => by
    have here := begins_write (writeMoreMembers members ++ rest) v (each (k, v) List.mem_cons_self)
    have following := beginsMembers_write rest members
      fun m mem => each m (List.mem_cons_of_mem (k, v) mem)
    rw [writeMoreMembers, List.cons_append, List.append_assoc, List.cons_append, List.append_assoc]
    refine .next (skipBlanks_cons rfl _) (skipBlanks_writeString k _) (readString_flatMap k _)
      (skipBlanks_colon _) ?_ following
    rw [here.skipBlanks_eq]
    exact here
termination_by structural members => members
end

end Value

end SchemaGrammar.Json
