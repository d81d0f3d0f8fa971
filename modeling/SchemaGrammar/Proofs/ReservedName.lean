import SchemaGrammar.Proofs.TableHistory

/-!
# The name of the start rule over a table's whole history

The name of the start rule is kept for those who register one. Both ways of registering share one
space of suffixed names, and names are cleaned before they are looked up, so it has to be shown that
nothing else leads to it.

`keepsStartRule_performAll` is what holds after any registrations in any order: no other rule is ever
given the name, the table has it from the first start rule on, and it goes on meaning that rule's body
whatever is registered later, further start rules included. One registration changes what the name
means only if it registers a start rule and there is none yet (`Sound.get?_rootName_perform`), and a
run is followed by induction on its registrations.
-/

namespace SchemaGrammar.Gbnf

/-- The body of a start rule that is registered. -/
def Registration.start? : Registration → Option String
  | rule _ _ => none
  | start body => some body

namespace RuleTable

/-- A registration changes what the name of the start rule means only if it registers a start rule
and is the first to do so. -/
theorem Sound.get?_rootName_perform {table : RuleTable} (sound : table.Sound)
    (registration : Registration) :
    (table.perform registration).1.get? rootName =
      (table.get? rootName).or registration.start? := by
  cases registration with
  | rule name body =>
    obtain ⟨registers, -⟩ := sound.perform (.rule name body)
    rw [registers.get?_of_ne sound (sound.add_ne_rootName name body).symm, Registration.start?,
      Option.or_none]
  | start body =>
    rw [RuleTable.perform, sound.get?_addRoot, Registration.start?]
    cases table.get? rootName <;> rfl

/-- After a run the name means what it meant before, or else the body of the first start rule. -/
theorem Sound.get?_rootName_performAll {table : RuleTable} (sound : table.Sound) :
    ∀ registrations : List Registration, (table.performAll registrations).get? rootName =
      (table.get? rootName).or (registrations.findSome? Registration.start?)
  | [] => Option.or_none.symm
  | registration :: more => by
    have following := (sound.perform registration).1.sound.get?_rootName_performAll more
    rw [sound.get?_rootName_perform, Option.or_assoc] at following
    rw [List.findSome?_cons]
    exact following.trans (congrArg _ (by cases registration.start? <;> rfl))

/-- How a table keeps the name of the start rule, once these registrations have been carried out. -/
structure KeepsStartRule (registrations : List Registration) (table : RuleTable) : Prop where
  /-- No rule that is asked for under a name gets that of the start rule. -/
  refused : ∀ name body, (table.add name body).2 ≠ "root"
  /-- The name is there exactly if a start rule was registered. -/
  contained : table.contains "root" = true ↔ ∃ body, .start body ∈ registrations
  /-- Its body is that of the first one. -/
  first : ∀ before body after, registrations = before ++ .start body :: after →
    (∀ other, .start other ∉ before) → table.get? "root" = some body
  /-- A start rule with another body gets a suffixed name, and the first one is left as it is. -/
  later : ∀ held body, table.get? "root" = some held → body ≠ held →
    (∃ i : Nat, (table.addRoot body).2 = "root" ++ toString i) ∧
      (table.addRoot body).1.get? "root" = some held

/-- Whatever is registered in whatever order, the name of the start rule is kept: it is given for start
rules only, and from the first one on it means the body of that one. -/
theorem keepsStartRule_performAll (registrations : List Registration) :
    KeepsStartRule registrations (initial.performAll registrations) := by
  obtain ⟨sound, -⟩ := sound_initial.performAll registrations
  have meaning := sound_initial.get?_rootName_performAll registrations
  rw [get?_initial_rootName, Option.none_or] at meaning
  refine ⟨sound.add_ne_rootName, ?_, fun before body after split none => ?_,
    fun held body found other => ⟨?_, ?_⟩⟩
  · rw [sound.contains_eq_isSome_get?, show "root" = rootName from rfl, meaning,
      List.findSome?_isSome_iff]
    constructor
    · rintro ⟨registration, mem, isStart⟩
      cases registration with
      | rule name body => cases isStart
      | start body => exact ⟨body, mem⟩
    · rintro ⟨body, mem⟩
      exact ⟨_, mem, rfl⟩
  · rw [show "root" = rootName from rfl, meaning, List.findSome?_eq_some_iff]
    refine ⟨before, .start body, after, split, rfl, fun registration mem => ?_⟩
    cases registration with
    | rule name body => rfl
    | start body => exact absurd mem (none body)
  · obtain ⟨-, ⟨given, -⟩ | suffixed⟩ := sound.register rootName body false
    · -- the name is given only for the body that it has
      rcases accepts_iff.mp ((sound.addRoot_eq_rootName_iff body).mp given) with free | same
      · cases found.symm.trans free
      · exact absurd (Option.some.inj (same.symm.trans found)) other
    · exact suffixed
  · exact (sound.get?_addRoot body).trans (by rw [show rootName = "root" from rfl, found]; rfl)

end RuleTable

end SchemaGrammar.Gbnf
