import SchemaGrammar.Proofs.RereadDouble
import SchemaGrammar.Query.Datum

/-!
# Values that a query hands back

What a query gives is written as text and read again. A datum that stands for a value is written in
its own way, with fewer escapes than a document has, but all of it is read back: the kinds, the keys
in their order, the strings and the integers, up to both ends of their range. Only doubles may come
back as others (`begins_write_ofValue`), and a value is the same again if and only if all its
doubles are (`Value.mapNumbers_eq_self_iff`).
-/

namespace SchemaGrammar.Json

open Query (Datum)

/-! ## Numbers in values -/

namespace Value

mutual
/-- The value with a function applied to every number in it. -/
def mapNumbers (f : Number → Number) : Value → Value
  | .number n => .number (f n)
  | .array items => .array (mapNumbersInItems f items)
  | .object members => .object (mapNumbersInMembers f members)
  | .null => .null
  | .bool b => .bool b
  | .string s => .string s
termination_by structural v => v
/-- The items with a function applied to every number in them. -/
def mapNumbersInItems (f : Number → Number) : List Value → List Value
  | [] => []
  | v :: rest => v.mapNumbers f :: mapNumbersInItems f rest
termination_by structural items => items
/-- The members with a function applied to every number in them. -/
def mapNumbersInMembers (f : Number → Number) : List Member → List Member
  | [] => []
  | (k, v) :: rest => (k, v.mapNumbers f) :: mapNumbersInMembers f rest
termination_by structural members => members
end

mutual
/-- The numbers in a value. -/
def numbers : Value → List Number
  | .number n => [n]
  | .array items => numbersOfItems items
  | .object members => numbersOfMembers members
  | .null | .bool _ | .string _ => []
termination_by structural v => v
/-- The numbers in items. -/
def numbersOfItems : List Value → List Number
  | [] => []
  | v :: rest => v.numbers ++ numbersOfItems rest
termination_by structural items => items
/-- The numbers in members. -/
def numbersOfMembers : List Member → List Number
  | [] => []
  | (_, v) :: rest => v.numbers ++ numbersOfMembers rest
termination_by structural members => members
end

mutual
/-- A function that changes numbers leaves a value as it is if it does so with all its numbers. -/
theorem mapNumbers_eq_self_iff (f : Number → Number) :
    ∀ v : Value, v.mapNumbers f = v ↔ ∀ n ∈ v.numbers, f n = n
  | .number n => by simp only [mapNumbers, numbers, Value.number.injEq, List.forall_mem_singleton]
  | .array items => by
    simp only [mapNumbers, numbers, Value.array.injEq, mapNumbersInItems_eq_self_iff f items]
  | .object members => by
    simp only [mapNumbers, numbers, Value.object.injEq, mapNumbersInMembers_eq_self_iff f members]
  | .null | .bool _ | .string _ => by simp [mapNumbers, numbers]
termination_by structural v => v
theorem mapNumbersInItems_eq_self_iff (f : Number → Number) : ∀ items : List Value,
    mapNumbersInItems f items = items ↔ ∀ n ∈ numbersOfItems items, f n = n
  | [] => by simp [mapNumbersInItems, numbersOfItems]
  | v :: rest => by
    simp only [mapNumbersInItems, numbersOfItems, List.cons.injEq, List.forall_mem_append,
      mapNumbers_eq_self_iff f v, mapNumbersInItems_eq_self_iff f rest]
termination_by structural items => items
theorem mapNumbersInMembers_eq_self_iff (f : Number → Number) : ∀ members : List Member,
    mapNumbersInMembers f members = members ↔ ∀ n ∈ numbersOfMembers members, f n = n
  | [] => by simp [mapNumbersInMembers, numbersOfMembers]
  | (k, v) :: rest => by
    simp only [mapNumbersInMembers, numbersOfMembers, List.cons.injEq, Prod.mk.injEq, true_and,
      List.forall_mem_append, mapNumbers_eq_self_iff f v, mapNumbersInMembers_eq_self_iff f rest]
termination_by structural members => members
end

/-- A value in which no more than so many arrays and objects are nested. -/
inductive Fits : Nat → Value → Prop
  | null {depth : Nat} : Fits depth .null
  | bool {depth : Nat} {b : Bool} : Fits depth (.bool b)
  | number {depth : Nat} {n : Number} : Fits depth (.number n)
  | string {depth : Nat} {s : String} : Fits depth (.string s)
  | array {depth : Nat} {items : List Value} : (∀ v ∈ items, Fits depth v) →
      Fits (depth + 1) (.array items)
  | object {depth : Nat} {members : List Member} : (∀ m ∈ members, Fits depth m.2) →
      Fits (depth + 1) (.object members)

end Value

/-! ## Reading numbers back -/

/-- The number that reading takes the text of a number for. -/
def Number.reread : Number → Number
  | .integer i fits => .integer i fits
  | .real x => .real x.reread

/-- Whole digits with no point and no exponent behind them are a whole number. -/
theorem readMagnitude_decimalDigits {negative : Bool} {n : Nat} {rest : List Char}
    (le : n < twoTo 64) (ends : EndsNumber rest) :
    readMagnitude negative (decimalDigits n ++ rest) = wholeNumber negative n rest := by
  have value : Nat.ofDigitChars 10 (decimalDigits n) 0 = n := Nat.ofDigitChars_ten_toDigits
  rw [readMagnitude_append negative (isWhole_decimalDigits n) ends.endsDigits,
    accumulate_eq (Nat.lt_of_le_of_lt value.le le), value]
  exact finishWhole.eq_4 _ _ _ (ends.ne_cons (by decide)) (ends.ne_cons (by decide))
    (ends.ne_cons (by decide))

theorem wholeNumber_integer {negative : Bool} {n : Nat} {i : Int}
    (same : (if negative then -(n : Int) else n) = i) (notMinusZero : negative = true → 0 < n)
    (fits : minInteger ≤ i ∧ i ≤ maxInteger) (rest : List Char) :
    wholeNumber negative n rest = .ok (.integer i fits, rest) := by
  have known : Number.ofInt? i = some (.integer i fits) := dif_pos fits
  rw [wholeNumber, same, known]
  refine if_neg fun minusZero => ?_
  obtain ⟨isNegative, zero⟩ := Bool.and_eq_true_iff.mp minusZero
  exact (notMinusZero isNegative).ne' (of_decide_eq_true zero)

/-- The text of an integer is read back as the integer. -/
theorem readNumber_integer {i : Int} (fits : minInteger ≤ i ∧ i ≤ maxInteger) {rest : List Char}
    (ends : EndsNumber rest) :
    readNumber ((toString i).toList ++ rest) = .ok (.integer i fits, rest) := by
  have le : i.natAbs < twoTo 64 := by
    have limit : twoTo 64 = 18446744073709551616 := rfl
    have bounds := fits
    rw [minInteger, maxInteger] at bounds
    omega
  rw [toList_toString]
  rcases Int.lt_or_le i 0 with negative | whole
  · rw [if_pos negative, List.append_assoc, List.singleton_append, readNumber,
      readMagnitude_decimalDigits le ends]
    exact wholeNumber_integer (if_pos rfl |>.trans (by omega)) (fun _ => by omega) fits rest
  · have unsigned : readNumber (decimalDigits i.natAbs ++ rest) =
        readMagnitude false (decimalDigits i.natAbs ++ rest) := by
      obtain ⟨c, more, cons⟩ := List.exists_cons_of_ne_nil (@Nat.toDigits_ne_nil i.natAbs 10)
      rw [decimalDigits, cons]
      exact readNumber_of_isDigit (isDigit_of_mem_decimalDigits (cons ▸ List.mem_cons_self)) _
    rw [if_neg (Int.not_lt.mpr whole), List.nil_append, unsigned,
      readMagnitude_decimalDigits le ends]
    exact wholeNumber_integer ((if_neg Bool.false_ne_true).trans (Int.natAbs_of_nonneg whole))
      (fun negative => absurd negative Bool.false_ne_true) fits rest

/-- A scalar that is read by scaling a significand. -/
theorem readScalar_real {text rest : List Char} {significand : Nat} {exponent : Int}
    {x : FiniteDouble} (parts : readScalar text =
      (realOf false significand exponent rest).map fun (n, rest) => (.number n, rest))
    (scaled : scale (.ofNat significand) exponent = some x) :
    readScalar text = .ok (.number (.real x), rest) := by
  rw [parts, realOf, scaled]
  rfl

theorem Number.readScalar_write (n : Number) {rest : List Char} (ends : EndsNumber rest) :
    readScalar (n.write ++ rest) = .ok (.number n.reread, rest) := by
  have read : readNumber (n.write ++ rest) = .ok (n.reread, rest) := by
    cases n with
    | integer i fits => exact readNumber_integer fits ends
    | real x => exact x.readNumber_text_eq ends
  obtain ⟨c, more, cons, begins⟩ := n.isNumber_write.exists_eq_cons
  rw [cons, List.cons_append] at read ⊢
  have number : (c == '-' || c.isDigit) = true := by
    rw [Bool.or_eq_true, beq_iff_eq]
    exact begins
  have other {d : Char} (notNumber : (d == '-' || d.isDigit) = false) : ¬ (c == d) = true := by
    intro same
    rw [beq_iff_eq.mp same, notNumber] at number
    cases number
  rw [readScalar, if_neg (other rfl), if_neg (other rfl), if_neg (other rfl), if_neg (other rfl),
    if_pos number, read]
  rfl

/-! ## Reading data back -/

/-- A number of a document is written as in a document, whether its value is known or not. -/
theorem write_ofNumber (n : Number) : (Datum.ofNumber n).write = n.write := by
  cases n with
  | integer i fits =>
    rw [Datum.ofNumber]
    split
    · rfl
    · exact String.toList_ofList
  | real x => exact String.toList_ofList

/-- A character of a datum is read back from its written form. -/
theorem readQuoted_writeChar (c : Char) (done rest : List Char) :
    readQuoted done (Datum.writeChar c ++ rest) = readQuoted (c :: done) rest := by
  unfold Datum.writeChar
  split
  · next itself =>
    rw [Bool.or_eq_true, beq_iff_eq, beq_iff_eq] at itself
    rcases itself with rfl | rfl <;> exact readQuoted_escape rfl
  · next other =>
    rw [Bool.or_eq_true, beq_iff_eq, beq_iff_eq, not_or] at other
    iterate 3 refine readQuoted_letter (fun _ => rfl) fun _ => ?_
    split
    · next control => exact readQuoted_escape (readEscape_hex control)
    · next printable => exact readQuoted_plain ⟨other.1, other.2, Nat.not_lt.mp printable⟩

theorem readString_writeChar (s : String) (rest : List Char) :
    readString (s.toList.flatMap Datum.writeChar ++ '"' :: rest) = .ok (s, rest) :=
  readString_flatMap_of readQuoted_writeChar s rest

/-- A written string behind its opening quote. -/
theorem dataString_append (s : String) (rest : List Char) :
    Datum.writeString s ++ rest = '"' :: (s.toList.flatMap Datum.writeChar ++ '"' :: rest) := by
  rw [Datum.writeString, List.cons_append, List.append_assoc, List.singleton_append]

theorem readScalar_dataString (s : String) (rest : List Char) :
    readScalar (Datum.writeString s ++ rest) = .ok (.string s, rest) := by
  rw [dataString_append, readScalar]
  simp [readString_writeChar, Except.map]

/-- The value that is read where a value is written. -/
def Value.reread (v : Value) : Value := v.mapNumbers Number.reread

theorem Number.reread_eq_self_iff {n : Number} :
    n.reread = n ↔ ∀ x, .real x = n → x.reread = x := by
  cases n with
  | integer i fits => exact iff_of_true rfl nofun
  | real x => simp [Number.reread]

/-- A value is the same when it is reread if and only if all its doubles are. -/
theorem Value.reread_eq_self_iff {v : Value} :
    v.reread = v ↔ ∀ x, .real x ∈ v.numbers → x.reread = x := by
  rw [Value.reread, mapNumbers_eq_self_iff]
  simp only [Number.reread_eq_self_iff]
  constructor
  · intro kept x mem
    exact kept _ mem x rfl
  · rintro kept _ mem x rfl
    exact kept x mem

theorem endsNumber_writeMoreItems (items : List Datum) (rest : List Char) :
    EndsNumber (Datum.writeMoreItems items ++ rest) := by
  cases items with
  | nil => exact endsNumber_cons (by decide)
  | cons d items => exact endsNumber_cons (by decide)

theorem endsNumber_writeMoreEntries (entries : List (String × Datum)) (rest : List Char) :
    EndsNumber (Datum.writeMoreEntries entries ++ rest) := by
  cases entries with
  | nil => exact endsNumber_cons (by decide)
  | cons entry entries => exact endsNumber_cons (by decide)

open Query.Datum (ofValue ofItems ofMembers writeMoreItems writeMoreEntries)

mutual
/-- The text of a datum that stands for a value begins with the value, but for its doubles. -/
theorem begins_write_ofValue (rest : List Char) : ∀ (v : Value) {depth : Nat}, v.Fits depth →
    EndsNumber rest → Begins depth ((ofValue v).write ++ rest) v.reread rest
  | .null, _, _, _ => .scalar (readScalar_null rest)
  | .bool b, _, _, _ => .scalar (readScalar_bool b rest)
  | .number n, _, _, ends => by
    rw [ofValue, write_ofNumber]
    exact .scalar (n.readScalar_write ends)
  | .string s, _, _, _ => .scalar (readScalar_dataString s rest)
  | .array [], _, .array _, _ => .array (.close (skipBlanks_cons rfl rest))
  | .array (v :: items), _, .array each, _ => by
    have here := begins_write_ofValue _ v (each v List.mem_cons_self)
      (endsNumber_writeMoreItems (ofItems items) rest)
    have following := beginsItems_write_ofItems rest items
      fun w mem => each w (List.mem_cons_of_mem v mem)
    rw [ofValue, ofItems, Datum.write, List.cons_append, List.append_assoc]
    exact .array (.cons here.skipBlanks_eq here following)
  | .object [], _, .object _, _ => .object (.close (skipBlanks_cons rfl rest))
  | .object ((k, v) :: members), _, .object each, _ => by
    have here := begins_write_ofValue _ v (each (k, v) List.mem_cons_self)
      (endsNumber_writeMoreEntries (ofMembers members) rest)
    have following := beginsMembers_write_ofMembers rest members
      fun m mem => each m (List.mem_cons_of_mem (k, v) mem)
    rw [ofValue, ofMembers, Datum.write, List.cons_append, List.append_assoc, List.cons_append,
      List.append_assoc, dataString_append]
    refine .object (.cons (skipBlanks_cons rfl _) (readString_writeChar k _)
      (skipBlanks_cons rfl _) ?_ following)
    rw [here.skipBlanks_eq]
    exact here
termination_by structural v => v
/-- What is written behind an item goes on with the items after it. -/
theorem beginsItems_write_ofItems (rest : List Char) : ∀ (items : List Value) {depth : Nat},
    (∀ v ∈ items, v.Fits depth) → BeginsItems depth false (writeMoreItems (ofItems items) ++ rest)
      (Value.mapNumbersInItems Number.reread items) rest
  | [], _, _ => .close (skipBlanks_cons rfl rest)
  | v :: items, _, each => by
    have here := begins_write_ofValue _ v (each v List.mem_cons_self)
      (endsNumber_writeMoreItems (ofItems items) rest)
    have following := beginsItems_write_ofItems rest items
      fun w mem => each w (List.mem_cons_of_mem v mem)
    rw [ofItems, writeMoreItems, List.cons_append, List.append_assoc]
    exact .next (skipBlanks_cons rfl _) here.skipBlanks_eq here following
termination_by structural items => items
/-- What is written behind a member goes on with the members after it. -/
theorem beginsMembers_write_ofMembers (rest : List Char) : ∀ (members : List Member) {depth : Nat},
    (∀ m ∈ members, m.2.Fits depth) →
      BeginsMembers depth false (writeMoreEntries (ofMembers members) ++ rest)
        (Value.mapNumbersInMembers Number.reread members) rest
  | [], _, _ => .close (skipBlanks_cons rfl rest)
  | (k, v) :: members, _, each => by
    have here := begins_write_ofValue _ v (each (k, v) List.mem_cons_self)
      (endsNumber_writeMoreEntries (ofMembers members) rest)
    have following := beginsMembers_write_ofMembers rest members
      fun m mem => each m (List.mem_cons_of_mem (k, v) mem)
    rw [ofMembers, writeMoreEntries, List.cons_append, List.append_assoc, List.cons_append,
      List.append_assoc, dataString_append]
    refine .next (skipBlanks_cons rfl _) (skipBlanks_cons rfl _) (readString_writeChar k _)
      (skipBlanks_cons rfl _) ?_ following
    rw [here.skipBlanks_eq]
    exact here
termination_by structural members => members
end

end SchemaGrammar.Json
