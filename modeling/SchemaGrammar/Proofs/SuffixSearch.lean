import Mathlib.Logic.Function.Iterate
import Mathlib.Order.Bounds.Defs
import SchemaGrammar.Proofs.TableHistory

/-!
# The search for a suffix ends, and at the least one

A name that cannot be given as it is gets a suffix, and the suffixes are probed in their order. One
probe (`RuleTable.probe`) looks one suffixed name up. It ends the search if the name is free or holds
the body, and otherwise goes on to the next suffix; nothing in it bounds the search. That the search
ends all the same is counted (`RuleTable.Sound.exists_accepts`), and what it ends with is what
registering gives (`Sound.probes_eq`).

`endsAt_performAll` says this of every table that registrations can lead to. A search takes at most
one probe more than there are rules. A registration that cannot have its name takes one for each
suffix up to the least that is usable, gives the name with that suffix, and appends a rule only if
that name was free.
-/

namespace SchemaGrammar.Gbnf

/-- The cleaned name that is asked for. -/
def Registration.asked : Registration → String
  | rule name _ => sanitize name
  | start _ => rootName

/-- Whether the name that is asked for is kept for a start rule. -/
def Registration.isReserved : Registration → Bool
  | rule name _ => sanitize name == rootName
  | start _ => false

namespace RuleTable

/-! ## Probes -/

/-- A search: the suffix that is to be probed next, or the table and the name that it ended with. -/
inductive Search
  | trying (i : Nat)
  | ended (outcome : RuleTable × String)

/-- Probes one suffix. -/
def probe (table : RuleTable) (name body : String) : Search → Search
  | .trying i =>
    match table.get? (suffixed name i) with
    | none => .ended (table.append (suffixed name i) body, suffixed name i)
    | some held =>
      if held == body then .ended (table, suffixed name i) else .trying (i + 1)
  | .ended outcome => .ended outcome

/-- The search after a number of probes. -/
def probes (table : RuleTable) (name body : String) (n : Nat) : Search :=
  (table.probe name body)^[n] (.trying 0)

/-- A probe ends the search exactly at a name that accepts the body, by settling the body there. -/
theorem probe_trying (table : RuleTable) (name body : String) (i : Nat) :
    table.probe name body (.trying i) =
      if table.accepts (suffixed name i) body then .ended (table.settle (suffixed name i) body)
      else .trying (i + 1) := by
  cases found : table.get? (suffixed name i) with
  | none => simp only [probe, accepts, settle, found, if_true]
  | some held => simp only [probe, accepts, settle, found]

theorem probes_succ (table : RuleTable) (name body : String) (n : Nat) :
    table.probes name body (n + 1) = table.probe name body (table.probes name body n) :=
  Function.iterate_succ_apply' _ _ _

/-- Up to the least suffix that is accepted every probe goes on, and the one at that suffix ends the
search. -/
theorem Sound.probes_eq {table : RuleTable} (sound : table.Sound) (name body : String) (n : Nat) :
    table.probes name body n =
      if n ≤ table.leastSuffix name body then .trying n
      else .ended (table.settle (suffixed name (table.leastSuffix name body)) body) := by
  obtain ⟨accepted, -, refused⟩ :=
    sound.leastSuffix_eq_iff.mp (Eq.refl (table.leastSuffix name body))
  induction n with
  | zero => rw [if_pos (Nat.zero_le _)]; rfl
  | succ n ih =>
    rw [probes_succ, ih]
    rcases Nat.lt_trichotomy n (table.leastSuffix name body) with before | same | behind
    · rw [if_pos (Nat.le_of_lt before), if_pos (Nat.succ_le_of_lt before), probe_trying,
        if_neg (Bool.eq_false_iff.mp (refused n before))]
    · rw [if_pos (Nat.le_of_eq same), if_neg (by omega), probe_trying, same, if_pos accepted]
    · rw [if_neg (Nat.not_le.mpr behind), if_neg (by omega)]
      rfl

/-- The least suffix is the least number whose suffixed name is free or holds the body. -/
theorem Sound.isLeast_leastSuffix {table : RuleTable} (sound : table.Sound) (name body : String) :
    IsLeast {i | table.get? (suffixed name i) = none ∨ table.get? (suffixed name i) = some body}
      (table.leastSuffix name body) := by
  obtain ⟨accepted, -, refused⟩ :=
    sound.leastSuffix_eq_iff.mp (Eq.refl (table.leastSuffix name body))
  refine ⟨accepts_iff.mp accepted, fun i usable => Nat.not_lt.mp fun before => ?_⟩
  exact absurd (accepts_iff.mpr usable) (Bool.eq_false_iff.mp (refused i before))

/-! ## Registrations that need a suffix -/

/-- Whether a registration can have the name it asks for: the name is not reserved, and it is free or
holds the body. -/
def Usable (table : RuleTable) (registration : Registration) : Prop :=
  registration.isReserved = false ∧ (table.get? registration.asked = none ∨
    table.get? registration.asked = some registration.body)

theorem perform_eq_register (table : RuleTable) (registration : Registration) :
    table.perform registration =
      table.register registration.asked registration.body registration.isReserved := by
  cases registration <;> rfl

/-- A registration that cannot have its name settles its body under the least suffix. -/
theorem perform_of_not_usable {table : RuleTable} {registration : Registration}
    (h : ¬ table.Usable registration) :
    table.perform registration = table.settle
      (suffixed registration.asked (table.leastSuffix registration.asked registration.body))
      registration.body := by
  rw [perform_eq_register, register, if_neg]
  intro plain
  obtain ⟨free, accepted⟩ := Bool.and_eq_true_iff.mp plain
  exact h ⟨Bool.not_eq_true' _ ▸ free, accepts_iff.mp accepted⟩

/-- How a registration that cannot have its name is given one with the suffix `i`. -/
structure EndsAt (table : RuleTable) (registration : Registration) (i : Nat) : Prop where
  /-- The search goes on at every suffix below. -/
  before : ∀ n ≤ i, table.probes registration.asked registration.body n = .trying n
  /-- At the suffix it ends, with what the registration gives. -/
  ended : table.probes registration.asked registration.body (i + 1) =
    .ended (table.perform registration)
  given : (table.perform registration).2 = registration.asked ++ toString i
  /-- No smaller suffix makes a name that is free or holds the body. -/
  least : IsLeast {j | table.get? (suffixed registration.asked j) = none ∨
    table.get? (suffixed registration.asked j) = some registration.body} i
  /-- A rule is appended if the name was free. If it held the body, nothing changes. -/
  step : table.get? (suffixed registration.asked i) = none ∧
      (table.perform registration).1.toList =
        table.toList ++ [(suffixed registration.asked i, registration.body)] ∨
    table.get? (suffixed registration.asked i) = some registration.body ∧
      (table.perform registration).1 = table

/-- A registration that cannot have its name is given the least suffix. -/
theorem Sound.endsAt {table : RuleTable} (sound : table.Sound) {registration : Registration}
    (h : ¬ table.Usable registration) :
    table.EndsAt registration
      (table.leastSuffix registration.asked registration.body) := by
  have accepted := sound.accepts_leastSuffix registration.asked registration.body
  obtain ⟨-, given⟩ := sound.settle accepted
  refine ⟨fun n before => ?_, ?_, ?_, sound.isLeast_leastSuffix _ _, ?_⟩
  · rw [sound.probes_eq, if_pos before]
  · rw [sound.probes_eq, if_neg (Nat.not_succ_le_self _), perform_of_not_usable h]
  · rw [perform_of_not_usable h]
    exact given
  · rw [perform_of_not_usable h]
    refine (accepts_iff.mp accepted).imp (fun free => ⟨free, ?_⟩) fun held => ⟨held, ?_⟩
    · rw [RuleTable.settle, free]
      exact toList_append table _ _
    · rw [settle_of_get? held]

/-- Whatever was registered before, every search for a suffix ends, after at most one probe more than
there are rules. A registration that cannot have its name ends its search at a suffix, the least under
which the name is free or holds the body, and appends a rule only if the name was free. -/
theorem endsAt_performAll (registrations : List Registration) :
    let table := initial.performAll registrations
    (∀ name body, ∃ n ≤ table.size + 1, ∃ outcome, table.probes name body n = .ended outcome) ∧
      ∀ next : Registration, ¬ table.Usable next → ∃ i ≤ table.size, table.EndsAt next i := by
  intro table
  have sound : table.Sound := (sound_initial.performAll registrations).1
  have bounded (name body : String) : table.leastSuffix name body ≤ table.size :=
    (sound.leastSuffix_eq_iff.mp rfl).2.1
  refine ⟨fun name body => ?_, fun next refused => ⟨_, bounded _ _, sound.endsAt refused⟩⟩
  have ended := sound.probes_eq name body (table.leastSuffix name body + 1)
  rw [if_neg (Nat.not_succ_le_self _)] at ended
  exact ⟨_, Nat.succ_le_succ (bounded name body), _, ended⟩

end RuleTable

end SchemaGrammar.Gbnf
