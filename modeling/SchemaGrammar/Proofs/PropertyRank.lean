import Mathlib.Data.List.Nodup
import SchemaGrammar.Schema.PropertyOrder

/-!
# The order in which properties stand

Properties stand by rank and then by name. `PropertyOrder.Before` says so of two names, and
`pairwise_sort` and `sort_perm` say that sorting puts properties so and loses none. Since two names
never stand before each other, there is only one such arrangement (`sort_eq_of_perm`): where the
properties stood before has no influence on it.
-/

namespace SchemaGrammar.PropertyOrder

/-- One property may stand before another: its rank is lower, or the ranks are equal and its name is
not the greater one. -/
def Before (order : Option PropertyOrder) (a b : String) : Prop :=
  rankKey order a < rankKey order b ∨ rankKey order a = rankKey order b ∧ a ≤ b

theorem precedes_iff {order : Option PropertyOrder} {a b : String} :
    precedes order a b = true ↔ Before order a b := by
  simp [precedes, Before]

theorem Before.trans {order : Option PropertyOrder} {a b c : String} (h : Before order a b)
    (h' : Before order b c) : Before order a c := by
  rcases h with h | ⟨same, h⟩ <;> rcases h' with h' | ⟨same', h'⟩
  · exact .inl (Int.lt_trans h h')
  · exact .inl (same' ▸ h)
  · exact .inl (same ▸ h')
  · exact .inr ⟨same.trans same', String.le_trans h h'⟩

theorem Before.total (order : Option PropertyOrder) (a b : String) :
    Before order a b ∨ Before order b a := by
  rcases Int.lt_trichotomy (rankKey order a) (rankKey order b) with h | same | h
  · exact .inl (.inl h)
  · exact (String.le_total a b).imp (.inr ⟨same, ·⟩) (.inr ⟨same.symm, ·⟩)
  · exact .inr (.inl h)

theorem Before.antisymm {order : Option PropertyOrder} {a b : String} (h : Before order a b)
    (h' : Before order b a) : a = b := by
  rcases h with h | ⟨same, h⟩ <;> rcases h' with h' | ⟨same', h'⟩
  · exact absurd h' (Int.lt_asymm h)
  · exact absurd same'.symm (Int.ne_of_lt h)
  · exact absurd same.symm (Int.ne_of_lt h')
  · exact String.le_antisymm h h'

variable {α : Type} (order : Option PropertyOrder) (properties : List (String × α))

/-- Sorting loses no property and adds none. -/
theorem sort_perm : (sort order properties).Perm properties := List.mergeSort_perm _ _

/-- Sorted properties stand in their order. -/
theorem pairwise_sort :
    (sort order properties).Pairwise fun p q => Before order p.1 q.1 := by
  have transitive (a b c : String × α) (h : precedes order a.1 b.1 = true)
      (h' : precedes order b.1 c.1 = true) : precedes order a.1 c.1 = true :=
    precedes_iff.mpr ((precedes_iff.mp h).trans (precedes_iff.mp h'))
  have total (a b : String × α) : (precedes order a.1 b.1 || precedes order b.1 a.1) = true := by
    rw [Bool.or_eq_true, precedes_iff, precedes_iff]
    exact Before.total order a.1 b.1
  exact (List.pairwise_mergeSort transitive total properties).imp precedes_iff.mp

/-- Properties of distinct names are sorted in one way only. -/
theorem sort_eq_of_perm {properties properties' : List (String × α)}
    (distinct : (properties.map Prod.fst).Nodup) (perm : properties'.Perm properties) :
    sort order properties' = sort order properties := by
  have perm' : (sort order properties').Perm properties := (sort_perm order properties').trans perm
  have sorted := pairwise_sort order properties
  have sorted' := pairwise_sort order properties'
  refine List.Perm.eq_of_pairwise ?_ sorted' sorted (perm'.trans (sort_perm order properties).symm)
  intro p q mem mem' before behind
  exact List.inj_on_of_nodup_map distinct (perm'.subset mem)
    ((sort_perm order properties).subset mem') (before.antisymm behind)

end SchemaGrammar.PropertyOrder
