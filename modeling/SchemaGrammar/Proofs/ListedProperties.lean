import SchemaGrammar.Proofs.PropertyRank
import SchemaGrammar.Proofs.RuleOrder

/-!
# In which order an object's rule lists its properties

Each object that is visited while a schema is compiled is given a rule of the grammar, and that rule
lists the properties of the object as sorting puts them (`Visited.exists_lists`). What is known of
sorted properties is hence known of the grammar.

A property without a rank counts as one of infinite rank. Among themselves the properties with a
rank stand by rank and the others by name, but between the two kinds infinity is no bound:
`exists_lists_rankedFirst_iff` says when all properties with a rank come first. A rank that is not a
number never allows it, and infinity only for a name below those of the properties without a rank.
-/

namespace SchemaGrammar

open Gbnf (Body Grammar)
open Json (Value)

/-! ## Rules of objects -/

/-- The rule of a name is that of an object with these properties, one after the other. -/
def Gbnf.Grammar.Lists (grammar : Grammar) (name : String) (keys : List String) : Prop :=
  ∃ fields, (Body.object fields).IsNamed ∧ (name, (Body.object fields).text) ∈ grammar.rules ∧
    fields.map Prod.fst = keys

/-- The rule of an object lists the object's properties as sorting puts them. -/
theorem Visited.exists_lists {order : Option PropertyOrder} {schema : Value} {grammar : Grammar}
    {visit : Visit} {properties : List (String × Value)}
    (compiled : compileGrammar order schema = .ok grammar) (visited : Visited order schema visit)
    (classified : SchemaNode.classify visit.schema = .ok (.object properties)) :
    ∃ name, visit.given = .ok name ∧
      grammar.Lists name ((PropertyOrder.sort order properties).map Prod.fst) := by
  obtain ⟨top, given, sameRules⟩ := exists_of_compiled compiled
  obtain ⟨rfl, sound, -, name, givenName⟩ := visited.gives given
  obtain ⟨node, later, names, classified', walked, placed⟩ := Visit.exists_of_given givenName
  obtain rfl := Except.ok.inj (classified.symm.trans classified')
  have emits := emitParts_emits_of_eq sound walked
  obtain ⟨held, areNames⟩ := emits.holds names rfl
  obtain ⟨registers, -⟩ := place_registers emits.sound
    ((SchemaNode.object properties).ownHint visit.hint)
    ((SchemaNode.object properties).body visit.converter.order names)
  rw [placed] at registers
  refine ⟨name, givenName, _, SchemaNode.isNamed_body held areNames,
    visited.mem_rules given sameRules registers.found, List.map_fst_zip ?_⟩
  rw [List.length_map, SchemaNode.length_eq_of_parts held]
  exact le_rfl

/-- Of two members of a list, one stands in front of the other. -/
theorem or_of_pairwise {α : Type} {R : α → α → Prop} {l : List α} (pairs : l.Pairwise R) {a b : α}
    (mem : a ∈ l) (mem' : b ∈ l) (distinct : a ≠ b) : R a b ∨ R b a := by
  have symmetric : Std.Symm fun a b => R a b ∨ R b a := ⟨fun _ _ => Or.symm⟩
  exact (pairs.imp (S := fun a b => R a b ∨ R b a) .inl).forall mem mem' distinct

/-! ## Ranks -/

namespace Double

theorem sortKey_lt_infinity_iff {r : Double} :
    r.sortKey < infinity.sortKey ↔ r ≠ .nan ∧ r ≠ infinity := by
  rcases r with ⟨negative, place, inRange⟩ | negative | _
  · have below : (place : Int) < placeCount := Int.ofNat_lt.mpr inRange
    cases negative <;> simp [sortKey, infinity] <;> omega
  · cases negative <;> simp [sortKey, infinity, placeCount, twoTo]
  · simp [sortKey, infinity]

theorem sortKey_eq_infinity_iff {r : Double} :
    r.sortKey = infinity.sortKey ↔ r = infinity := by
  constructor
  · intro same
    by_contra other
    have notLess : ¬ r.sortKey < infinity.sortKey := same ▸ Int.lt_irrefl _
    rw [sortKey_lt_infinity_iff, not_and, not_not] at notLess
    cases r with
    | nan => exact absurd same (by decide)
    | finite x => exact other (notLess nofun)
    | infinite negative => exact other (notLess nofun)
  · rintro rfl
    rfl

end Double

namespace PropertyOrder

/-- The rank that an order gives to a property. -/
def rank? (order : Option PropertyOrder) (name : String) : Option Double :=
  order.bind (·.lookup name)

variable {order : Option PropertyOrder} {a b : String} {r s : Double}

theorem rankKey_of_rank (ranked : rank? order a = some r) : rankKey order a = r.sortKey :=
  congrArg (fun rank => (rank.getD Double.infinity).sortKey) ranked

theorem rankKey_of_unranked (unranked : rank? order a = none) :
    rankKey order a = Double.infinity.sortKey :=
  congrArg (fun rank => (rank.getD Double.infinity).sortKey) unranked

theorem ne_of_rank (ranked : rank? order a = some r) (unranked : rank? order b = none) : a ≠ b := by
  rintro rfl
  exact absurd (ranked.symm.trans unranked) nofun

/-- Two properties without a rank stand by name. -/
theorem before_unranked_iff (unranked : rank? order a = none) (unranked' : rank? order b = none) :
    Before order a b ↔ a ≤ b := by
  rw [Before, rankKey_of_unranked unranked, rankKey_of_unranked unranked']
  simp

/-- A property with a rank may stand before one without exactly if its rank is below infinity, or is
infinity and its name is the lesser one. -/
theorem before_mixed_iff (ranked : rank? order a = some r) (unranked : rank? order b = none) :
    Before order a b ↔ r ≠ .nan ∧ (r = .infinity → a < b) := by
  have distinct : a ≠ b := ne_of_rank ranked unranked
  rw [Before, rankKey_of_rank ranked, rankKey_of_unranked unranked,
    Double.sortKey_lt_infinity_iff, Double.sortKey_eq_infinity_iff]
  constructor
  · rintro (⟨number, finite⟩ | ⟨rfl, le⟩)
    · exact ⟨number, fun infinite => absurd infinite finite⟩
    · exact ⟨by decide, fun _ => lt_of_le_of_ne le distinct⟩
  · rintro ⟨number, lt⟩
    by_cases infinite : r = .infinity
    · exact .inr ⟨infinite, (lt infinite).le⟩
    · exact .inl ⟨number, infinite⟩

/-- No property without a rank stands before one with a rank. -/
def RankedFirst (order : Option PropertyOrder) (keys : List String) : Prop :=
  keys.Pairwise fun a b => rank? order a = none → rank? order b = none

/-- The properties with a rank stand by rank and then by name, and those without by name. -/
structure StandByRank (order : Option PropertyOrder) (keys : List String) : Prop where
  ranked : keys.Pairwise fun a b => ∀ r s, rank? order a = some r → rank? order b = some s →
    r.sortKey < s.sortKey ∨ r.sortKey = s.sortKey ∧ a ≤ b
  unranked : keys.Pairwise fun a b => rank? order a = none → rank? order b = none → a ≤ b

section Sorted

variable {keys : List String} (sorted : keys.Pairwise (Before order))

include sorted

theorem standByRank_of_sorted : StandByRank order keys := by
  refine ⟨sorted.imp fun {a b} before r s ranked ranked' => ?_,
    sorted.imp fun {a b} before unranked unranked' =>
      (before_unranked_iff unranked unranked').mp before⟩
  rw [← rankKey_of_rank ranked, ← rankKey_of_rank ranked']
  exact before

/-- Where no property without a rank stands in front of one with a rank, the latter may stand before
the former. -/
theorem before_of_rankedFirst (first : RankedFirst order keys) (mem : a ∈ keys) (mem' : b ∈ keys)
    (ranked : rank? order a = some r) (unranked : rank? order b = none) : Before order a b := by
  rcases or_of_pairwise (sorted.and first) mem mem' (ne_of_rank ranked unranked) with
    ⟨before, -⟩ | ⟨-, onlyThen⟩
  · exact before
  · exact absurd (ranked.symm.trans (onlyThen unranked)) nofun

theorem rankedFirst_iff : RankedFirst order keys ↔
    ∀ a ∈ keys, ∀ b ∈ keys, ∀ r, rank? order a = some r → rank? order b = none →
      r ≠ .nan ∧ (r = .infinity → a < b) := by
  constructor
  · intro first a mem b mem' r ranked unranked
    exact (before_mixed_iff ranked unranked).mp
      (before_of_rankedFirst sorted first mem mem' ranked unranked)
  · intro allowed
    refine sorted.imp_of_mem fun {a b} mem mem' before unranked => ?_
    cases ranked : rank? order b with
    | none => rfl
    | some r =>
      have before' := (before_mixed_iff ranked unranked).mpr (allowed b mem' a mem r ranked unranked)
      exact absurd (before'.antisymm before) (ne_of_rank ranked unranked)

end Sorted

end PropertyOrder

open PropertyOrder

/-- The rule of every object lists each property once, those with a rank by rank and the others by
name. All properties with a rank come first exactly if none of them has a rank that is not a number,
or infinity and a name above that of a property without a rank. -/
theorem exists_lists_rankedFirst_iff {order : Option PropertyOrder} {schema : Value}
    {grammar : Grammar} {visit : Visit} {properties : List (String × Value)}
    (compiled : compileGrammar order schema = .ok grammar) (visited : Visited order schema visit)
    (classified : SchemaNode.classify visit.schema = .ok (.object properties)) :
    ∃ name keys, visit.given = .ok name ∧ grammar.Lists name keys ∧
      keys.Perm (properties.map Prod.fst) ∧ StandByRank order keys ∧
      (RankedFirst order keys ↔ ∀ a ∈ keys, ∀ b ∈ keys, ∀ r,
        rank? order a = some r → rank? order b = none → r ≠ .nan ∧ (r = .infinity → a < b)) := by
  obtain ⟨name, given, lists⟩ := visited.exists_lists compiled classified
  have sorted : ((sort order properties).map Prod.fst).Pairwise (Before order) :=
    List.pairwise_map.mpr (pairwise_sort order properties)
  exact ⟨name, _, given, lists, (sort_perm order properties).map Prod.fst,
    standByRank_of_sorted sorted, rankedFirst_iff sorted⟩

/-- The rank infinity ties with having none: with `b=inf` the property `a`, which has no rank, comes
before `b`. -/
theorem exists_lists_rankedFirst_iff_infinite :
    let order : PropertyOrder := [("b", .infinity)]
    let schema : Value := .object [("type", .string "object"), ("properties", .object
      [("a", .object [("type", .string "string")]), ("b", .object [("type", .string "string")])])]
    PropertyOrder.parse "b=inf" = .ok order ∧
    ∃ grammar, compileGrammar (some order) schema = .ok grammar ∧
      ∃ name keys, (Visit.ofSchema (some order) schema).given = .ok name ∧
        grammar.Lists name keys ∧ keys.Perm ["a", "b"] ∧ ¬ RankedFirst (some order) keys := by
  intro order schema
  have parsed : PropertyOrder.parse "b=inf" = .ok order := by cbv
  obtain ⟨grammar, compiled⟩ : ∃ grammar, compileGrammar (some order) schema = .ok grammar :=
    ⟨_, by cbv⟩
  have top : Visited (some order) schema (.ofSchema (some order) schema) := .refl
  obtain ⟨name, keys, given, lists, perm, -, first⟩ := exists_lists_rankedFirst_iff compiled top rfl
  refine ⟨parsed, grammar, compiled, name, keys, given, lists, perm, fun holds => ?_⟩
  have above : ("b" : String) < "a" := (first.mp holds "b" (perm.mem_iff.mpr (by decide)) "a"
    (perm.mem_iff.mpr (by decide)) .infinity rfl rfl).2 rfl
  exact absurd above (by decide)

end SchemaGrammar
