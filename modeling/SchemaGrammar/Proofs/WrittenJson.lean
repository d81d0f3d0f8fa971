import SchemaGrammar.Json.Writer
import SchemaGrammar.Proofs.WrittenNumber

/-!
# What is written is JSON

The compact text of a value is a value of the grammar, whatever its strings and numbers are, and
has no blank between its tokens (`isValue_write`).

Every character of a compact text either belongs to the tokens or comes from a string of the value,
keys included (`forall_mem_write`), and what a string contributes is there
(`mem_write_of_mem_strings`). So a compact text has no control character, and it has a backslash
exactly if some string of the value has a character that cannot stand for itself
(`backslash_notMem_write_iff`).
-/

namespace SchemaGrammar.Json

/-! ## Strings -/

theorem isHexDigit_hexDigit : ∀ n < 16, IsHexDigit (hexDigit n) := by decide

/-- The forms a character can have inside a string. -/
inductive WrittenAs (c : Char) : List Char → Prop
  | plain : IsPlain c → WrittenAs c [c]
  | short {letter : Char} : ¬ IsPlain c → letter ∈ shortEscapes → WrittenAs c ['\\', letter]
  | long {high low : Char} : ¬ IsPlain c → IsHexDigit high → IsHexDigit low →
      WrittenAs c ['\\', 'u', '0', '0', high, low]

theorem writtenAs_escapeChar (c : Char) : WrittenAs c (escapeChar c) := by
  unfold escapeChar
  by_cases control : c.toNat < 0x20
  · have notPlain : ¬ IsPlain c := fun plain => absurd plain.2.2 (Nat.not_le.mpr control)
    have high := isHexDigit_hexDigit (c.toNat / 16) (by omega)
    have low := isHexDigit_hexDigit (c.toNat % 16) (Nat.mod_lt _ (by decide))
    simp only [control, if_true]
    repeat' split
    all_goals first
      | exact .short notPlain (by decide)
      | exact .long notPlain high low
  · have above : ∀ d : Char, d.toNat < 0x20 → (c == d) = false := by
      intro d below
      refine beq_false_of_ne fun same => control ?_
      rw [same]
      exact below
    simp only [above '\n' (by decide), above '\r' (by decide), above '\t' (by decide),
      above '\x08' (by decide), above '\x0c' (by decide), control, if_false, Bool.false_eq_true]
    split
    · next quote =>
      obtain rfl := beq_iff_eq.mp quote
      exact .short (by decide) (by decide)
    · next notQuote =>
      split
      · next backslash =>
        obtain rfl := beq_iff_eq.mp backslash
        exact .short (by decide) (by decide)
      · next notBackslash =>
        refine .plain ⟨?_, ?_, Nat.not_lt.mp control⟩
        · exact fun same => notQuote (beq_iff_eq.mpr same)
        · exact fun same => notBackslash (beq_iff_eq.mpr same)

/-- What is not written as itself is written with a backslash. -/
theorem backslash_mem_escapeChar_iff {c : Char} : '\\' ∈ escapeChar c ↔ ¬ IsPlain c := by
  have written := writtenAs_escapeChar c
  generalize escapeChar c = form at written
  cases written with
  | plain isPlain =>
    have : '\\' ≠ c := fun same => isPlain.2.1 same.symm
    simp [isPlain, this]
  | short notPlain _ => simp [notPlain]
  | long notPlain _ _ => simp [notPlain]

/-- No character of a string's written form is a control character. -/
theorem notControl_of_mem_escapeChar {c d : Char} (mem : d ∈ escapeChar c) : 0x20 ≤ d.toNat := by
  have letters : ∀ letter ∈ shortEscapes, 0x20 ≤ letter.toNat := forall_mem_of_all (by decide)
  have digits : ∀ digit ∈ "0123456789abcdefABCDEF".toList, 0x20 ≤ digit.toNat :=
    forall_mem_of_all (by decide)
  have written := writtenAs_escapeChar c
  generalize escapeChar c = form at written mem
  cases written with
  | plain isPlain =>
    obtain rfl := List.mem_singleton.mp mem
    exact isPlain.2.2
  | short _ short =>
    simp only [List.mem_cons, List.not_mem_nil, or_false] at mem
    rcases mem with rfl | rfl
    · decide
    · exact letters _ short
  | long _ high low =>
    simp only [List.mem_cons, List.not_mem_nil, or_false] at mem
    rcases mem with rfl | rfl | rfl | rfl | rfl | rfl
    · decide
    · decide
    · decide
    · decide
    · exact digits _ high
    · exact digits _ low

/-- The dialect of compact texts: what can stand for itself does, and there are no blanks. -/
def tight : Dialect := ⟨IsPlain, fun _ => False⟩

theorem isStringEnd_flatMap_escapeChar (rest : List Char) :
    ∀ text : List Char, IsStringEnd tight (text.flatMap escapeChar ++ '"' :: rest) rest
  | [] => .close
  | c :: text => by
    have following := isStringEnd_flatMap_escapeChar rest text
    have written := writtenAs_escapeChar c
    rw [List.flatMap_cons, List.append_assoc]
    generalize escapeChar c = form at written
    have zero : IsHexDigit '0' := by decide
    cases written with
    | plain isPlain => exact .raw isPlain following
    | short _ isLetter => exact .short isLetter following
    | long _ high low => exact .long zero zero high low following

/-- A written string is a value. -/
theorem isValue_writeString (s : String) (rest : List Char) :
    IsValue tight (writeString s ++ rest) rest := by
  rw [writeString, List.cons_append, List.append_assoc]
  exact .string (isStringEnd_flatMap_escapeChar rest s.toList)

/-- A written key with its value is a member. -/
theorem isMember_write (key : String) {value rest : List Char} (isValue : IsValue tight value rest) :
    IsMember tight (writeString key ++ ':' :: value) rest := by
  rw [writeString, List.cons_append, List.append_assoc]
  exact .intro (isStringEnd_flatMap_escapeChar _ key.toList) .none .none isValue

/-! ## Values -/

namespace Value

mutual
/-- The compact text of a value is a value of the grammar. -/
theorem isValue_write (rest : List Char) : ∀ v : Value, IsValue tight (v.write ++ rest) rest
  | .null => .null
  | .bool true => .true
  | .bool false => .false
  | .number n => .number n.isNumber_write
  | .string s => isValue_writeString s rest
  | .array [] => .emptyArray .none
  | .array (v :: items) => by
    rw [write, List.cons_append, List.append_assoc]
    exact .array .none (isValue_write _ v) (isMoreItems_write rest items)
  | .object [] => .emptyObject .none
  | .object ((k, v) :: members) => by
    rw [write, List.cons_append, List.append_assoc, List.cons_append, List.append_assoc]
    exact .object .none (isMember_write k (isValue_write _ v)) (isMoreMembers_write rest members)
termination_by structural v => v
theorem isMoreItems_write (rest : List Char) :
    ∀ items : List Value, IsMoreItems tight (writeMoreItems items ++ rest) rest
  | [] => .close .none
  | v :: items => by
    rw [writeMoreItems, List.cons_append, List.append_assoc]
    exact .next .none .none (isValue_write _ v) (isMoreItems_write rest items)
termination_by structural items => items
theorem isMoreMembers_write (rest : List Char) :
    ∀ members : List Member, IsMoreMembers tight (writeMoreMembers members ++ rest) rest
  | [] => .close .none
  | (k, v) :: members => by
    rw [writeMoreMembers, List.cons_append, List.append_assoc, List.cons_append, List.append_assoc]
    exact .next .none .none (isMember_write k (isValue_write _ v)) (isMoreMembers_write rest members)
termination_by structural members => members
end

/-! ## Characters -/

mutual
/-- The strings of a value and the keys of its objects, at every depth. -/
def strings : Value → List String
  | .null | .bool _ | .number _ => []
  | .string s => [s]
  | .array items => itemStrings items
  | .object members => memberStrings members
termination_by structural v => v
/-- The strings of the items of an array. -/
def itemStrings : List Value → List String
  | [] => []
  | v :: items => v.strings ++ itemStrings items
termination_by structural items => items
/-- The keys of members and the strings of their values. -/
def memberStrings : List Member → List String
  | [] => []
  | (k, v) :: members => k :: (v.strings ++ memberStrings members)
termination_by structural members => members
end

/-- The characters that stand outside of strings, and the quote. -/
def tokenChars : List Char := numberChars ++ "[]\x7b\x7d,:\"nulltruefalse".toList

theorem forall_mem_token {P : Char → Prop} (tokens : ∀ d ∈ tokenChars, P d) {token : List Char}
    (checked : (token.all fun d => decide (d ∈ tokenChars)) = true) : ∀ d ∈ token, P d :=
  fun d mem => tokens d (forall_mem_of_all checked d mem)

theorem forall_mem_writeString {P : Char → Prop} (quote : P '"') {s : String}
    (inString : ∀ c ∈ s.toList, ∀ d ∈ escapeChar c, P d) : ∀ d ∈ writeString s, P d := by
  intro d mem
  rw [writeString, List.mem_cons, List.mem_append, List.mem_flatMap, List.mem_singleton] at mem
  rcases mem with rfl | ⟨c, memString, mem⟩ | rfl
  · exact quote
  · exact inString c memString d mem
  · exact quote

mutual
/-- What holds of the characters outside of strings and of what the strings contribute holds of all
characters of a compact text. -/
theorem forall_mem_write {P : Char → Prop} (tokens : ∀ d ∈ tokenChars, P d) :
    ∀ v : Value, (∀ s ∈ v.strings, ∀ c ∈ s.toList, ∀ d ∈ escapeChar c, P d) → ∀ d ∈ v.write, P d
  | .null, _ => forall_mem_token tokens (by decide)
  | .bool true, _ => forall_mem_token tokens (by decide)
  | .bool false, _ => forall_mem_token tokens (by decide)
  | .number n, _ =>
    fun d mem => tokens d (List.mem_append_left _ (n.isNumber_write.mem_numberChars mem))
  | .string s, inStrings =>
    forall_mem_writeString (tokens _ (by decide)) (inStrings s List.mem_cons_self)
  | .array [], _ => forall_mem_token tokens (by decide)
  | .array (v :: items), inStrings => by
    intro d mem
    rw [write, List.mem_cons, List.mem_append] at mem
    rcases mem with rfl | mem | mem
    · exact tokens _ (by decide)
    · exact forall_mem_write tokens v (fun s m => inStrings s (List.mem_append_left _ m)) d mem
    · exact forall_mem_writeMoreItems tokens items
        (fun s m => inStrings s (List.mem_append_right _ m)) d mem
  | .object [], _ => forall_mem_token tokens (by decide)
  | .object ((k, v) :: members), inStrings => by
    intro d mem
    rw [write, List.mem_cons, List.mem_append, List.mem_cons, List.mem_append] at mem
    rcases mem with rfl | mem | rfl | mem | mem
    · exact tokens _ (by decide)
    · exact forall_mem_writeString (tokens _ (by decide)) (inStrings k List.mem_cons_self) d mem
    · exact tokens _ (by decide)
    · exact forall_mem_write tokens v
        (fun s m => inStrings s (List.mem_cons_of_mem _ (List.mem_append_left _ m))) d mem
    · exact forall_mem_writeMoreMembers tokens members
        (fun s m => inStrings s (List.mem_cons_of_mem _ (List.mem_append_right _ m))) d mem
termination_by structural v => v
theorem forall_mem_writeMoreItems {P : Char → Prop} (tokens : ∀ d ∈ tokenChars, P d) :
    ∀ items : List Value, (∀ s ∈ itemStrings items, ∀ c ∈ s.toList, ∀ d ∈ escapeChar c, P d) →
      ∀ d ∈ writeMoreItems items, P d
  | [], _ => forall_mem_token tokens (by decide)
  | v :: items, inStrings => by
    intro d mem
    rw [writeMoreItems, List.mem_cons, List.mem_append] at mem
    rcases mem with rfl | mem | mem
    · exact tokens _ (by decide)
    · exact forall_mem_write tokens v (fun s m => inStrings s (List.mem_append_left _ m)) d mem
    · exact forall_mem_writeMoreItems tokens items
        (fun s m => inStrings s (List.mem_append_right _ m)) d mem
termination_by structural items => items
theorem forall_mem_writeMoreMembers {P : Char → Prop} (tokens : ∀ d ∈ tokenChars, P d) :
    ∀ members : List Member,
      (∀ s ∈ memberStrings members, ∀ c ∈ s.toList, ∀ d ∈ escapeChar c, P d) →
      ∀ d ∈ writeMoreMembers members, P d
  | [], _ => forall_mem_token tokens (by decide)
  | (k, v) :: members, inStrings => by
    intro d mem
    rw [writeMoreMembers, List.mem_cons, List.mem_append, List.mem_cons, List.mem_append] at mem
    rcases mem with rfl | mem | rfl | mem | mem
    · exact tokens _ (by decide)
    · exact forall_mem_writeString (tokens _ (by decide)) (inStrings k List.mem_cons_self) d mem
    · exact tokens _ (by decide)
    · exact forall_mem_write tokens v
        (fun s m => inStrings s (List.mem_cons_of_mem _ (List.mem_append_left _ m))) d mem
    · exact forall_mem_writeMoreMembers tokens members
        (fun s m => inStrings s (List.mem_cons_of_mem _ (List.mem_append_right _ m))) d mem
termination_by structural members => members
end

theorem mem_writeString {s : String} {c d : Char} (memString : c ∈ s.toList)
    (mem : d ∈ escapeChar c) : d ∈ writeString s :=
  List.mem_cons_of_mem _ (List.mem_append_left _ (List.mem_flatMap.mpr ⟨c, memString, mem⟩))

mutual
/-- What a string of a value contributes is in the compact text. -/
theorem mem_write_of_mem_strings {s : String} {c d : Char} (memString : c ∈ s.toList)
    (mem : d ∈ escapeChar c) : ∀ v : Value, s ∈ v.strings → d ∈ v.write
  | .null, memStrings | .bool _, memStrings | .number _, memStrings =>
    absurd memStrings List.not_mem_nil
  | .string _, memStrings => by
    rw [strings, List.mem_singleton] at memStrings
    exact memStrings ▸ mem_writeString memString mem
  | .array [], memStrings => absurd memStrings List.not_mem_nil
  | .array (v :: items), memStrings => by
    rw [write, List.mem_cons, List.mem_append]
    rcases List.mem_append.mp memStrings with inFirst | inMore
    · exact .inr (.inl (mem_write_of_mem_strings memString mem v inFirst))
    · exact .inr (.inr (mem_writeMoreItems_of_mem_strings memString mem items inMore))
  | .object [], memStrings => absurd memStrings List.not_mem_nil
  | .object ((k, v) :: members), memStrings => by
    rw [write, List.mem_cons, List.mem_append, List.mem_cons, List.mem_append]
    rcases List.mem_cons.mp memStrings with rfl | memStrings
    · exact .inr (.inl (mem_writeString memString mem))
    rcases List.mem_append.mp memStrings with inFirst | inMore
    · exact .inr (.inr (.inr (.inl (mem_write_of_mem_strings memString mem v inFirst))))
    · exact .inr (.inr (.inr (.inr
        (mem_writeMoreMembers_of_mem_strings memString mem members inMore))))
termination_by structural v => v
theorem mem_writeMoreItems_of_mem_strings {s : String} {c d : Char} (memString : c ∈ s.toList)
    (mem : d ∈ escapeChar c) :
    ∀ items : List Value, s ∈ itemStrings items → d ∈ writeMoreItems items
  | [], memStrings => absurd memStrings List.not_mem_nil
  | v :: items, memStrings => by
    rw [writeMoreItems, List.mem_cons, List.mem_append]
    rcases List.mem_append.mp memStrings with inFirst | inMore
    · exact .inr (.inl (mem_write_of_mem_strings memString mem v inFirst))
    · exact .inr (.inr (mem_writeMoreItems_of_mem_strings memString mem items inMore))
termination_by structural items => items
theorem mem_writeMoreMembers_of_mem_strings {s : String} {c d : Char} (memString : c ∈ s.toList)
    (mem : d ∈ escapeChar c) :
    ∀ members : List Member, s ∈ memberStrings members → d ∈ writeMoreMembers members
  | [], memStrings => absurd memStrings List.not_mem_nil
  | (k, v) :: members, memStrings => by
    rw [writeMoreMembers, List.mem_cons, List.mem_append, List.mem_cons, List.mem_append]
    rcases List.mem_cons.mp memStrings with rfl | memStrings
    · exact .inr (.inl (mem_writeString memString mem))
    rcases List.mem_append.mp memStrings with inFirst | inMore
    · exact .inr (.inr (.inr (.inl (mem_write_of_mem_strings memString mem v inFirst))))
    · exact .inr (.inr (.inr (.inr
        (mem_writeMoreMembers_of_mem_strings memString mem members inMore))))
termination_by structural members => members
end

theorem getLast?_append_of_eq_some (before : List Char) {after : List Char} {c : Char}
    (last : after.getLast? = some c) : (before ++ after).getLast? = some c := by
  rw [List.getLast?_append, last]
  rfl

theorem getLast?_writeMoreItems : ∀ items : List Value, (writeMoreItems items).getLast? = some ']'
  | [] => rfl
  | v :: items =>
    getLast?_append_of_eq_some [','] (getLast?_append_of_eq_some v.write
      (getLast?_writeMoreItems items))

theorem getLast?_writeMoreMembers :
    ∀ members : List Member, (writeMoreMembers members).getLast? = some '}'
  | [] => rfl
  | (k, v) :: members =>
    getLast?_append_of_eq_some [','] (getLast?_append_of_eq_some (writeString k)
      (getLast?_append_of_eq_some [':'] (getLast?_append_of_eq_some v.write
        (getLast?_writeMoreMembers members))))

/-- No compact text ends in a backslash. -/
theorem getLast?_write_ne_backslash (v : Value) : v.write.getLast? ≠ some '\\' := by
  have other : ∀ {c : Char}, v.write.getLast? = some c → c ≠ '\\' → v.write.getLast? ≠ some '\\' :=
    fun last notBackslash same => notBackslash (Option.some.inj (last.symm.trans same))
  cases v with
  | null => decide
  | bool b => cases b <;> decide
  | number n =>
    intro last
    exact absurd (n.isNumber_write.mem_numberChars (List.mem_of_getLast? last)) (by decide)
  | string s =>
    refine other (c := '"') ?_ (by decide)
    exact getLast?_append_of_eq_some ('"' :: s.toList.flatMap escapeChar) rfl
  | array items =>
    cases items with
    | nil => decide
    | cons v items =>
      refine other (c := ']') ?_ (by decide)
      exact getLast?_append_of_eq_some ('[' :: v.write) (getLast?_writeMoreItems items)
  | object members =>
    cases members with
    | nil => decide
    | cons m members =>
      obtain ⟨k, v⟩ := m
      refine other (c := '}') ?_ (by decide)
      exact getLast?_append_of_eq_some ['{'] (getLast?_append_of_eq_some (writeString k)
        (getLast?_append_of_eq_some [':'] (getLast?_append_of_eq_some v.write
          (getLast?_writeMoreMembers members))))

/-- Every character of every string of a value, keys included, can stand for itself. -/
def IsPlain (v : Value) : Prop := ∀ s ∈ v.strings, ∀ c ∈ s.toList, Json.IsPlain c

instance (v : Value) : Decidable v.IsPlain :=
  decidable_of_iff ((v.strings.all fun s => s.toList.all fun c => decide (Json.IsPlain c)) = true)
    (by simp only [List.all_eq_true, decide_eq_true_iff, IsPlain])

/-- No compact text has a control character. -/
theorem notControl_of_mem_write {v : Value} {d : Char} (mem : d ∈ v.write) : 0x20 ≤ d.toNat :=
  forall_mem_write (P := fun d => 0x20 ≤ d.toNat) (forall_mem_of_all (by decide)) v
    (fun _ _ _ _ _ mem => notControl_of_mem_escapeChar mem) d mem

/-- A compact text has a backslash exactly if some character of a string is escaped. -/
theorem backslash_notMem_write_iff {v : Value} : '\\' ∉ v.write ↔ v.IsPlain := by
  refine ⟨fun notMem s memStrings c memString => ?_, fun plain mem => ?_⟩
  · by_contra notPlain
    exact notMem (mem_write_of_mem_strings memString (backslash_mem_escapeChar_iff.mpr notPlain) v
      memStrings)
  · refine forall_mem_write (P := fun d => d ≠ '\\') (forall_mem_of_all (by decide)) v ?_ _ mem rfl
    intro s memStrings c memString d mem same
    exact backslash_mem_escapeChar_iff.mp (same ▸ mem) (plain s memStrings c memString)

end Value

end SchemaGrammar.Json
