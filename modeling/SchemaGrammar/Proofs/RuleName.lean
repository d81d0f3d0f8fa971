import SchemaGrammar.Proofs.Registration

/-!
# Names of rules

A rule name is a text of letters, digits and dashes that is not empty (`IsRuleName`). Cleaning a
text that is not empty gives one, and so does putting a decimal suffix behind one, so every
name under which a rule is asked for is a rule name whatever the text was.

The name of the start rule is reserved: `add` gives it to nobody (`Sound.add`), because a
suffixed name ends in a digit.
-/

namespace SchemaGrammar.Gbnf

/-- A text that can stand for a rule: letters, digits and dashes, at least one of them. -/
def IsRuleName (name : String) : Prop := name ≠ "" ∧ ∀ c ∈ name.toList, isNameChar c = true

theorem isRuleName_rootName : IsRuleName rootName := by
  refine ⟨by decide, List.all_eq_true.mp ?_⟩
  decide

theorem isRuleName_spaceName : IsRuleName spaceName := by
  refine ⟨by decide, List.all_eq_true.mp ?_⟩
  decide

/-! ## Cleaned names -/

theorem isNameChar_of_mem_collapseRuns {c : Char} :
    ∀ {inRun : Bool} {text : List Char}, c ∈ collapseRuns inRun text → isNameChar c = true
  | _, [], mem => absurd mem List.not_mem_nil
  | inRun, d :: text, mem => by
    unfold collapseRuns at mem
    split at mem
    · next isName =>
      obtain rfl | mem := List.mem_cons.mp mem
      · exact isName
      · exact isNameChar_of_mem_collapseRuns mem
    · split at mem
      · exact isNameChar_of_mem_collapseRuns mem
      · obtain rfl | mem := List.mem_cons.mp mem
        · decide
        · exact isNameChar_of_mem_collapseRuns mem

/-- Cleaning takes no text to the empty one but the empty one. -/
theorem collapseRuns_ne_nil {text : List Char} (h : text ≠ []) : collapseRuns false text ≠ [] := by
  cases text with
  | nil => exact absurd rfl h
  | cons c text =>
    unfold collapseRuns
    split <;> simp

theorem isNameChar_of_mem_sanitize {name : String} {c : Char} (mem : c ∈ (sanitize name).toList) :
    isNameChar c = true := by
  rw [sanitize, String.toList_ofList] at mem
  exact isNameChar_of_mem_collapseRuns mem

theorem isRuleName_sanitize {name : String} (h : name ≠ "") : IsRuleName (sanitize name) := by
  refine ⟨fun empty => ?_, fun c => isNameChar_of_mem_sanitize⟩
  have cleaned : collapseRuns false name.toList = [] := by
    simpa [sanitize] using congrArg String.toList empty
  exact collapseRuns_ne_nil (fun e => h (String.toList_eq_nil_iff.mp e)) cleaned

/-! ## Suffixed names -/

theorem isNameChar_of_isDigit {c : Char} (h : c.isDigit = true) : isNameChar c = true := by
  simp [isNameChar, Char.isAlphanum, h]

namespace RuleTable

theorem toList_suffixed (name : String) (i : Nat) :
    (suffixed name i).toList = name.toList ++ Nat.toDigits 10 i := by
  rw [suffixed, String.toList_append]
  exact congrArg (name.toList ++ ·) Nat.toList_repr

theorem isNameChar_of_mem_suffixed {name : String} (h : ∀ c ∈ name.toList, isNameChar c = true)
    (i : Nat) : ∀ c ∈ (suffixed name i).toList, isNameChar c = true := by
  intro c mem
  rw [toList_suffixed] at mem
  rcases List.mem_append.mp mem with mem | mem
  · exact h c mem
  · exact isNameChar_of_isDigit (Nat.isDigit_of_mem_toDigits (by decide) (by decide) mem)

theorem isRuleName_suffixed {name : String} (h : IsRuleName name) (i : Nat) :
    IsRuleName (suffixed name i) := by
  refine ⟨fun empty => ?_, isNameChar_of_mem_suffixed h.2 i⟩
  have := congrArg String.toList empty
  rw [toList_suffixed] at this
  exact Nat.toDigits_ne_nil (List.append_eq_nil_iff.mp this).2

/-- A suffixed name ends in a digit, and the name of the start rule does not. -/
theorem suffixed_ne_rootName (name : String) (i : Nat) : suffixed name i ≠ rootName := by
  intro same
  have chars := congrArg String.toList same
  rw [toList_suffixed] at chars
  have digits : Nat.toDigits 10 i ≠ [] := Nat.toDigits_ne_nil
  have last : (Nat.toDigits 10 i).getLast digits = 't' := by
    have := congrArg List.getLast? chars
    rw [List.getLast?_append_of_ne_nil _ digits, List.getLast?_eq_some_getLast digits] at this
    exact Option.some.inj this
  have isDigit := Nat.isDigit_of_mem_toDigits (by decide) (by decide) (List.getLast_mem digits)
  rw [last] at isDigit
  exact absurd isDigit (by decide)

/-! ## The two ways of registering -/

/-- A rule that is asked for under a name, whatever the name, does not get that of the start rule. -/
theorem Sound.add_ne_rootName {table : RuleTable} (sound : table.Sound) (name body : String) :
    (table.add name body).2 ≠ rootName := by
  obtain ⟨-, given⟩ := sound.register (sanitize name) body (sanitize name == rootName)
  unfold RuleTable.add
  rcases given with ⟨given, free⟩ | ⟨i, given⟩
  · rw [given]
    simpa using free
  · rw [given]
    exact suffixed_ne_rootName _ i

/-- A rule that is asked for under a name gets a rule name other than that of the start rule. -/
theorem Sound.add {table : RuleTable} (sound : table.Sound) {name : String} (h : name ≠ "")
    (body : String) :
    table.Registers body (table.add name body).1 (table.add name body).2 ∧
      IsRuleName (table.add name body).2 ∧ (table.add name body).2 ≠ rootName := by
  obtain ⟨registers, given⟩ := sound.register (sanitize name) body (sanitize name == rootName)
  refine ⟨registers, ?_, sound.add_ne_rootName name body⟩
  unfold RuleTable.add
  rcases given with ⟨given, -⟩ | ⟨i, given⟩
  · rw [given]
    exact isRuleName_sanitize h
  · rw [given]
    exact isRuleName_suffixed (isRuleName_sanitize h) i

/-- A start rule gets a rule name. -/
theorem Sound.addRoot {table : RuleTable} (sound : table.Sound) (body : String) :
    table.Registers body (table.addRoot body).1 (table.addRoot body).2 ∧
      IsRuleName (table.addRoot body).2 := by
  obtain ⟨registers, given⟩ := sound.register rootName body false
  refine ⟨registers, ?_⟩
  unfold RuleTable.addRoot
  rcases given with ⟨given, -⟩ | ⟨i, given⟩
  · rw [given]
    exact isRuleName_rootName
  · rw [given]
    exact isRuleName_suffixed isRuleName_rootName i

/-- At first the name of the start rule is free. -/
theorem get?_initial_rootName : initial.get? rootName = none := by
  rw [sound_initial.get?_eq_none_iff]
  intro body mem
  rw [toList_initial] at mem
  exact absurd (Prod.mk.inj (List.mem_singleton.mp mem)).1 (by decide)

/-- A start rule gets the name that is kept for it exactly if the name is free or holds its body. -/
theorem Sound.addRoot_eq_rootName_iff {table : RuleTable} (sound : table.Sound) (body : String) :
    (table.addRoot body).2 = rootName ↔ table.accepts rootName body = true := by
  unfold RuleTable.addRoot RuleTable.register
  rw [Bool.not_false, Bool.true_and]
  split
  · next accepted => exact ⟨fun _ => accepted, fun _ => (sound.settle accepted).2⟩
  · next refused =>
    have given := (sound.settle (sound.accepts_leastSuffix rootName body)).2
    exact ⟨fun same => absurd (given ▸ same) (suffixed_ne_rootName rootName _),
      fun accepted => absurd accepted refused⟩

/-- A body that is registered as a start rule is the start rule afterwards, unless there was one
already. -/
theorem Sound.get?_addRoot {table : RuleTable} (sound : table.Sound) (body : String) :
    (table.addRoot body).1.get? rootName = some ((table.get? rootName).getD body) := by
  have accepted := sound.addRoot_eq_rootName_iff body
  obtain ⟨registers, -⟩ := sound.addRoot body
  by_cases given : (table.addRoot body).2 = rootName
  · have found := registers.found
    rw [given] at found
    rw [found]
    rcases accepts_iff.mp (accepted.mp given) with free | same
    · rw [free, Option.getD_none]
    · rw [same, Option.getD_some]
  · rw [registers.get?_of_ne sound (Ne.symm given)]
    cases held : table.get? rootName with
    | none => exact absurd (accepted.mpr (accepts_iff.mpr (.inl held))) given
    | some body => rfl

end RuleTable

end SchemaGrammar.Gbnf
