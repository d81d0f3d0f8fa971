import SchemaGrammar.Gbnf.Grammar
import SchemaGrammar.Proofs.RuleName

/-!
# Tables over their whole history

A table comes about by registrations, one after the other, whatever names and bodies they ask for.
`consistent_performAll` is what holds of the table at every moment of such a history: what the index
finds is what a search of the list finds (`Consistent`), a registration adds at most one rule, at the
end, and the name it gives means the body it was asked for from then on.

One registration is either of two steps (`RuleTable.Registers`), so a run is followed by induction on
its registrations, with the table's soundness and its growth as the invariant (`Sound.performAll`).
-/

namespace SchemaGrammar.Gbnf

/-! ## Runs of registrations -/

/-- What a table can be asked for: a rule under a name, or a start rule. -/
inductive Registration
  | rule (name body : String)
  | start (body : String)

/-- The body that is registered. -/
def Registration.body : Registration → String
  | rule _ body => body
  | start body => body

namespace RuleTable

/-- Carries out one registration, and says which name was given. -/
def perform (table : RuleTable) : Registration → RuleTable × String
  | .rule name body => table.add name body
  | .start body => table.addRoot body

/-- Carries out registrations, each on the table that the one before left. -/
def performAll (table : RuleTable) (registrations : List Registration) : RuleTable :=
  registrations.foldl (fun table registration => (table.perform registration).1) table

/-- A registration registers its body, under a name of letters, digits and dashes. -/
theorem Sound.perform {table : RuleTable} (sound : table.Sound) (registration : Registration) :
    table.Registers registration.body (table.perform registration).1
        (table.perform registration).2 ∧
      ∀ c ∈ (table.perform registration).2.toList, isNameChar c = true := by
  have asked (name body : String) (reserved : Bool)
      (isName : ∀ c ∈ name.toList, isNameChar c = true) :
      table.Registers body (table.register name body reserved).1
          (table.register name body reserved).2 ∧
        ∀ c ∈ (table.register name body reserved).2.toList, isNameChar c = true := by
    obtain ⟨registers, ⟨given, -⟩ | ⟨i, given⟩⟩ := sound.register name body reserved
    · rw [given] at registers ⊢
      exact ⟨registers, isName⟩
    · rw [given] at registers ⊢
      exact ⟨registers, isNameChar_of_mem_suffixed isName i⟩
  cases registration with
  | rule name body => exact asked _ body _ fun c => isNameChar_of_mem_sanitize
  | start body => exact asked _ body _ isRuleName_rootName.2

/-- A run of registrations keeps a table sound and only adds to it. -/
theorem Sound.performAll {table : RuleTable} (sound : table.Sound) :
    ∀ registrations, (table.performAll registrations).Sound ∧
      table.Extends (table.performAll registrations)
  | [] => ⟨sound, .refl table⟩
  | registration :: more => by
    obtain ⟨registers, -⟩ := sound.perform registration
    obtain ⟨sound', grown⟩ := registers.sound.performAll more
    exact ⟨sound', registers.extends.trans grown⟩

/-- The names of a table are made of letters, digits and dashes. -/
def Spelled (table : RuleTable) : Prop :=
  ∀ rule ∈ table.toList, ∀ c ∈ rule.1.toList, isNameChar c = true

theorem spelled_initial : Spelled initial := by
  intro rule mem
  rw [toList_initial] at mem
  rw [List.mem_singleton.mp mem]
  exact isRuleName_spaceName.2

/-- A run of registrations gives names of letters, digits and dashes only. -/
theorem Spelled.performAll {table : RuleTable} (spelled : table.Spelled) (sound : table.Sound) :
    ∀ registrations, (table.performAll registrations).Spelled
  | [] => spelled
  | registration :: more => by
    obtain ⟨registers, isName⟩ := sound.perform registration
    have spelled' : (table.perform registration).1.Spelled := by
      intro rule mem
      rcases registers.mem_or_eq mem with mem | rfl
      · exact spelled rule mem
      · exact isName
    exact spelled'.performAll registers.sound more

/-! ## The index and the list -/

/-- What the index of a sound table finds is the first rule of the list with the name. -/
theorem Sound.get?_eq_find? {table : RuleTable} (sound : table.Sound) (name : String) :
    table.get? name = (table.toList.find? fun rule => rule.1 == name).map Prod.snd := by
  cases search : table.toList.find? fun rule => rule.1 == name with
  | none =>
    rw [Option.map_none, sound.get?_eq_none_iff]
    intro body mem
    exact List.find?_eq_none.mp search _ mem (beq_self_eq_true name)
  | some rule =>
    have same : rule.1 = name := by simpa using List.find?_some search
    rw [Option.map_some, sound.get?_eq_some_iff, ← same]
    exact List.mem_of_find?_eq_some search

theorem Sound.contains_eq_isSome_get? {table : RuleTable} (sound : table.Sound) (name : String) :
    table.contains name = (table.get? name).isSome := by
  rw [contains, Std.HashMap.contains_eq_isSome_getElem?]
  cases found : table.index[name]? with
  | none => simp [get?, found]
  | some place =>
    obtain ⟨body, here⟩ := (sound name place).mp found
    simp [get?, found, here]

/-- The index of a sound table has a name exactly if a rule of the list has it. -/
theorem Sound.contains_eq_any {table : RuleTable} (sound : table.Sound) (name : String) :
    table.contains name = table.toList.any fun rule => rule.1 == name := by
  rw [sound.contains_eq_isSome_get?, sound.get?_eq_find?, Option.isSome_map, List.isSome_find?]

end RuleTable

theorem lookup_eq_find? (name : String) : ∀ rules : List Rule,
    rules.lookup name = (rules.find? fun rule => rule.1 == name).map Prod.snd
  | [] => rfl
  | (other, body) :: rules => by
    by_cases same : other = name
    · subst same
      simp
    · simp [List.lookup_cons, beq_false_of_ne same, beq_false_of_ne (Ne.symm same),
        lookup_eq_find? name rules]

/-! ## At every moment -/

namespace RuleTable

/-- The list and the index of a table say the same, and the list is that of a grammar. -/
structure Consistent (table : RuleTable) : Prop where
  distinct : (table.toList.map Prod.fst).Nodup
  spelled : ∀ rule ∈ table.toList, ∀ c ∈ rule.1.toList,
    'A' ≤ c ∧ c ≤ 'Z' ∨ 'a' ≤ c ∧ c ≤ 'z' ∨ '0' ≤ c ∧ c ≤ '9' ∨ c = '-'
  first : table.toList.head? = some ("space", "\" \"?")
  found : ∀ name, table.get? name = (table.toList.find? fun rule => rule.1 == name).map Prod.snd
  contained : ∀ name, table.contains name = table.toList.any fun rule => rule.1 == name
  finished : ∀ name, (Grammar.mk table.toList).get? name = table.get? name

theorem isNameChar_iff {c : Char} :
    isNameChar c = true ↔
      'A' ≤ c ∧ c ≤ 'Z' ∨ 'a' ≤ c ∧ c ≤ 'z' ∨ '0' ≤ c ∧ c ≤ '9' ∨ c = '-' := by
  change (decide ('A' ≤ c ∧ c ≤ 'Z') || decide ('a' ≤ c) && decide (c ≤ 'z') ||
    decide ('0' ≤ c) && decide (c ≤ '9') || c == '-') = true ↔ _
  simp only [Bool.or_eq_true, Bool.and_eq_true, decide_eq_true_iff, beq_iff_eq, or_assoc]

/-- A table that has grown from the initial one, is sound and has spelled names is consistent. -/
theorem Sound.consistent {table : RuleTable} (sound : table.Sound) (spelled : table.Spelled)
    (grown : initial.Extends table) : table.Consistent where
  distinct := sound.nodup
  spelled := fun rule mem c memName => isNameChar_iff.mp (spelled rule mem c memName)
  first := by
    rw [Extends, toList_initial] at grown
    obtain ⟨rest, same⟩ := grown
    rw [← same]
    rfl
  found := sound.get?_eq_find?
  contained := sound.contains_eq_any
  finished := fun name => by
    rw [sound.get?_eq_find?]
    exact lookup_eq_find? name table.toList

/-- Whatever is registered from the initial table on, the table is consistent at every moment. The
next registration leaves the list as it is, or appends the body under the name that it gives. In
both cases the list so far begins all later lists, and the name has that body in all later tables. -/
theorem consistent_performAll (registrations : List Registration) :
    (initial.performAll registrations).Consistent ∧ ∀ next : Registration,
      let table := initial.performAll registrations
      let later := (table.perform next).1
      let given := (table.perform next).2
      (later.toList = table.toList ∨ later.toList = table.toList ++ [(given, next.body)]) ∧
        ∀ more, table.toList <+: (later.performAll more).toList ∧
          (later.performAll more).get? given = some next.body := by
  obtain ⟨sound, grown⟩ := sound_initial.performAll registrations
  have spelled := spelled_initial.performAll sound_initial registrations
  refine ⟨sound.consistent spelled grown, fun next => ?_⟩
  obtain ⟨registers, -⟩ := sound.perform next
  refine ⟨?_, fun more => ?_⟩
  · obtain same | ⟨-, appended⟩ := registers.step
    · exact .inl (congrArg toList same)
    · exact .inr ((congrArg toList appended).trans (toList_append _ _ _))
  · obtain ⟨sound', grown'⟩ := registers.sound.performAll more
    exact ⟨registers.extends.trans grown', grown'.get? registers.sound sound' registers.found⟩

end RuleTable

end SchemaGrammar.Gbnf
