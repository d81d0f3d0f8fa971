import Mathlib.Data.List.Forall2

/-!
# Steps that stop at the first failure

One step behind another one succeeds if both do, and fails as the first of them that does
(`bind_eq_ok_iff`, `bind_eq_error_iff`). Steps along a list give a result for each item, or the
failure of the first item that has one (`mapM_eq_ok_iff`, `mapM_eq_error_iff`), and so do steps that
go on from each other (`foldlM_eq_error_iff`).
-/

namespace SchemaGrammar

universe u v

variable {ε : Type u} {α β : Type v}

/-- Mapping gives what it is given, mapped, and fails with it. -/
theorem map_eq_ok_iff {outcome : Except ε α} {f : α → β} {b : β} :
    outcome.map f = .ok b ↔ ∃ a, outcome = .ok a ∧ f a = b := by
  cases outcome <;> simp [Except.map]

theorem map_eq_error_iff {outcome : Except ε α} {f : α → β} {e : ε} :
    outcome.map f = .error e ↔ outcome = .error e := by
  cases outcome <;> simp [Except.map]

section MapError

variable {ε' : Type u} {outcome : Except ε α} {f : ε → ε'}

theorem mapError_eq_ok_iff {a : α} : outcome.mapError f = .ok a ↔ outcome = .ok a := by
  cases outcome <;> simp [Except.mapError]

theorem mapError_eq_error_iff {e' : ε'} :
    outcome.mapError f = .error e' ↔ ∃ e, outcome = .error e ∧ f e = e' := by
  cases outcome <;> simp [Except.mapError]

end MapError

section Bind

variable {step : Except ε α} {next : α → Except ε β} {b : β} {e : ε}

theorem bind_eq_ok_iff : step >>= next = .ok b ↔ ∃ a, step = .ok a ∧ next a = .ok b := by
  cases step <;> simp [bind, Except.bind]

theorem bind_eq_error_iff :
    step >>= next = .error e ↔ step = .error e ∨ ∃ a, step = .ok a ∧ next a = .error e := by
  cases step <;> simp [bind, Except.bind]

end Bind

/-- Each result stands beside an item. -/
theorem exists_mem_of_forall₂ {R : α → β → Prop} {items : List α} {results : List β}
    (each : List.Forall₂ R items results) {b : β} (mem : b ∈ results) : ∃ a ∈ items, R a b := by
  induction each with
  | nil => cases mem
  | @cons a c items results here _ ih =>
    rcases List.mem_cons.mp mem with rfl | mem
    · exact ⟨a, List.mem_cons_self, here⟩
    · obtain ⟨other, memItems, there⟩ := ih mem
      exact ⟨other, List.mem_cons_of_mem a memItems, there⟩

/-- Each item stands beside a result. -/
theorem exists_of_mem_forall₂ {R : α → β → Prop} {items : List α} {results : List β}
    (each : List.Forall₂ R items results) {a : α} (mem : a ∈ items) : ∃ b ∈ results, R a b := by
  obtain ⟨b, memResults, there⟩ := exists_mem_of_forall₂ each.flip mem
  exact ⟨b, memResults, there⟩

/-- Results with a property can be had together if each can be had. -/
theorem exists_forall₂_iff {R : α → β → Prop} {P : β → Prop} {items : List α} :
    (∃ results, List.Forall₂ R items results ∧ ∀ b ∈ results, P b) ↔
      ∀ a ∈ items, ∃ b, R a b ∧ P b := by
  induction items with
  | nil => simp
  | cons a rest ih =>
    rw [List.forall_mem_cons, ← ih]
    constructor
    · rintro ⟨_, results, each⟩
      cases results with
      | cons first more =>
        obtain ⟨one, others⟩ := List.forall_mem_cons.mp each
        exact ⟨⟨_, first, one⟩, _, more, others⟩
    · rintro ⟨⟨b, first, one⟩, results, more, others⟩
      exact ⟨b :: results, .cons first more, List.forall_mem_cons.mpr ⟨one, others⟩⟩

/-- Results can be had together if each can be had. -/
theorem exists_forall₂_iff_forall {R : α → β → Prop} {items : List α} :
    (∃ results, List.Forall₂ R items results) ↔ ∀ a ∈ items, ∃ b, R a b := by
  simpa only [implies_true, and_true] using exists_forall₂_iff (R := R) (P := fun _ => True)

/-- A result in the middle has its item in the middle. -/
theorem exists_append_cons_of_forall₂ {R : α → β → Prop} {items : List α} {before : List β} {b : β}
    {behind : List β} (each : List.Forall₂ R items (before ++ b :: behind)) :
    ∃ before' a behind',
      items = before' ++ a :: behind' ∧ R a b ∧ List.Forall₂ R behind' behind := by
  obtain ⟨a, behind', here, more, same⟩ :=
    List.forall₂_cons_right_iff.mp (List.forall₂_drop_append items before (b :: behind) each)
  refine ⟨items.take before.length, a, behind', ?_, here, more⟩
  rw [← same, List.take_append_drop]

/-- Of the items of a list one fails, and each item before it gives a result. -/
def FirstFails (gives : α → β → Prop) (fails : α → ε → Prop) (items : List α) (e : ε) : Prop :=
  ∃ before a after, items = before ++ a :: after ∧
    (∃ results, List.Forall₂ gives before results) ∧ fails a e

section MapM

variable {step : α → Except ε β} {items : List α} {results : List β} {e : ε}

/-- Steps along a list succeed if each does. -/
theorem mapM_eq_ok_iff :
    items.mapM step = .ok results ↔ List.Forall₂ (fun a b => step a = .ok b) items results := by
  induction items generalizing results with
  | nil =>
    rw [List.mapM_nil, List.forall₂_nil_left_iff]
    exact ⟨fun same => (Except.ok.inj same).symm, fun same => same ▸ rfl⟩
  | cons a items ih =>
    rw [List.mapM_cons, bind_eq_ok_iff, List.forall₂_cons_left_iff]
    simp only [bind_eq_ok_iff, ih]
    constructor
    · rintro ⟨b, here, more, behind, same⟩
      exact ⟨b, more, here, behind, (Except.ok.inj same).symm⟩
    · rintro ⟨b, more, here, behind, rfl⟩
      exact ⟨b, here, more, behind, rfl⟩

/-- Steps along a list fail as the first one that fails. -/
theorem mapM_eq_error_iff : items.mapM step = .error e ↔
    FirstFails (fun a b => step a = .ok b) (fun a e => step a = .error e) items e := by
  induction items with
  | nil =>
    rw [List.mapM_nil]
    exact ⟨nofun, fun ⟨before, a, after, same, _⟩ => by simp at same⟩
  | cons first items ih =>
    rw [List.mapM_cons, bind_eq_error_iff]
    constructor
    · rintro (here | ⟨b, here, later⟩)
      · exact ⟨[], first, items, rfl, ⟨[], .nil⟩, here⟩
      · obtain later | ⟨more, -, never⟩ := bind_eq_error_iff.mp later
        · obtain ⟨before, a, after, rfl, ⟨done, each⟩, fails⟩ := ih.mp later
          exact ⟨first :: before, a, after, rfl, ⟨b :: done, .cons here each⟩, fails⟩
        · cases never
    · rintro ⟨before, a, after, same, ⟨done, each⟩, fails⟩
      cases each with
      | nil =>
        obtain ⟨rfl, rfl⟩ := List.cons.inj same
        exact .inl fails
      | @cons _ b before done here each =>
        obtain ⟨rfl, rfl⟩ := List.cons.inj same
        refine .inr ⟨b, here, bind_eq_error_iff.mpr (.inl (ih.mpr ?_))⟩
        exact ⟨before, a, after, rfl, ⟨done, each⟩, fails⟩

end MapM

section FoldlM

variable {step : β → α → Except ε β} {items : List α} {start : β} {e : ε}

/-- Steps that go on from each other fail as the first one that fails. -/
theorem foldlM_eq_error_iff : items.foldlM step start = .error e ↔
    ∃ before a after middle, items = before ++ a :: after ∧
      before.foldlM step start = .ok middle ∧ step middle a = .error e := by
  induction items generalizing start with
  | nil => exact ⟨nofun, fun ⟨before, a, after, _, same, _⟩ => by simp at same⟩
  | cons first items ih =>
    rw [List.foldlM_cons, bind_eq_error_iff]
    constructor
    · rintro (here | ⟨next, here, later⟩)
      · exact ⟨[], first, items, start, rfl, rfl, here⟩
      · obtain ⟨before, a, after, middle, rfl, reached, fails⟩ := ih.mp later
        refine ⟨first :: before, a, after, middle, rfl, ?_, fails⟩
        rw [List.foldlM_cons]
        exact bind_eq_ok_iff.mpr ⟨next, here, reached⟩
    · rintro ⟨before, a, after, middle, same, reached, fails⟩
      cases before with
      | nil =>
        obtain ⟨rfl, rfl⟩ := List.cons.inj same
        obtain rfl := Except.ok.inj reached
        exact .inl fails
      | cons first before =>
        obtain ⟨rfl, rfl⟩ := List.cons.inj same
        rw [List.foldlM_cons] at reached
        obtain ⟨next, here, reached⟩ := bind_eq_ok_iff.mp reached
        exact .inr ⟨next, here, ih.mpr ⟨before, a, after, middle, rfl, reached, fails⟩⟩

end FoldlM

end SchemaGrammar
