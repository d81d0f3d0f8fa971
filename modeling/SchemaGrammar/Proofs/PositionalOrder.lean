import SchemaGrammar.Proofs.ListedProperties
import SchemaGrammar.Proofs.DistinctKeys
import SchemaGrammar.Proofs.NearestPlace
import SchemaGrammar.Proofs.Pieces

/-!
# An order that is a list of names

A list of distinct names, written between commas, is an order that ranks each name by its position in
the list (`parse_names`). In the rule of every object the properties of the list then come first, in
the order of the list, and the others follow by name (`exists_lists_inListOrder`).

Positions are ranks, and ranks are doubles. A natural number up to `2 ^ 53` is a double itself, so
the ranks of the positions ascend as the positions do (`Double.sortKey_ofNat_lt`), and all lie below
infinity, the rank of a property that is not listed. The next number is no double
(`Double.ofNat_next`), so `2 ^ 53 + 1` names are the most that can be told apart; more of them fill
no memory.
-/

namespace SchemaGrammar

open Gbnf (Grammar)
open Json (Value)

/-! ## Natural numbers as doubles -/

namespace Double

/-- Up to `2 ^ 53` the places of natural numbers ascend. -/
theorem wholePlace_lt_wholePlace {m n : Nat} (less : m < n) (exact : n ≤ 2 ^ 53) :
    wholePlace m < wholePlace n := by
  rw [← quantaAt_strictMono.lt_iff_lt, quantaAt_wholePlace exact,
    quantaAt_wholePlace (less.le.trans exact)]
  exact Nat.mul_lt_mul_of_pos_right less quantaPerUnit_pos

theorem le_tenTo_of_le {n : Nat} (exact : n ≤ 2 ^ 53) : n ≤ tenTo 308 :=
  calc n ≤ 2 ^ 53 := exact
    _ ≤ tenTo 16 := by decide
    _ ≤ tenTo 308 := tenTo_le (by decide)

theorem sortKey_ofNat {n : Nat} (exact : n ≤ 2 ^ 53) : (ofNat n).sortKey = wholePlace n := by
  have place : nearestPlace (n * quantaPerUnit) 1 < placeCount :=
    wholePlace_lt_placeCount (le_tenTo_of_le exact)
  rw [ofNat, ofRatio, nearest, atPlace, dif_pos place]
  rfl

theorem sortKey_ofNat_lt {m n : Nat} (less : m < n) (exact : n ≤ 2 ^ 53) :
    (ofNat m).sortKey < (ofNat n).sortKey := by
  rw [sortKey_ofNat exact, sortKey_ofNat (less.le.trans exact)]
  exact Int.ofNat_lt.mpr (wholePlace_lt_wholePlace less exact)

theorem sortKey_ofNat_lt_infinity {n : Nat} (exact : n ≤ 2 ^ 53) :
    (ofNat n).sortKey < infinity.sortKey := by
  rw [sortKey_ofNat exact]
  exact Int.ofNat_lt.mpr (wholePlace_lt_placeCount (le_tenTo_of_le exact))

/-- The next natural number is no double, and is rounded to the last one that is known to be one. -/
theorem ofNat_next : ofNat (2 ^ 53 + 1) = ofNat (2 ^ 53) := by decide +kernel

end Double

/-! ## Reading a list of names -/

namespace PropertyOrder

/-- A name that stands for itself in a written order. -/
structure IsPlain (name : String) : Prop where
  notEmpty : name ≠ ""
  noComma : ',' ∉ name.toList
  noSign : '=' ∉ name.toList
  trimmed : Text.trim name.toList = name.toList

theorem isPlain_iff {name : String} : IsPlain name ↔ name ≠ "" ∧ ',' ∉ name.toList ∧
    '=' ∉ name.toList ∧ Text.trim name.toList = name.toList :=
  ⟨fun plain => ⟨plain.notEmpty, plain.noComma, plain.noSign, plain.trimmed⟩,
    fun ⟨notEmpty, noComma, noSign, trimmed⟩ => ⟨notEmpty, noComma, noSign, trimmed⟩⟩

instance (name : String) : Decidable (IsPlain name) := decidable_of_iff _ isPlain_iff.symm

theorem IsPlain.toList_ne_nil {name : String} (plain : IsPlain name) : name.toList ≠ [] :=
  fun empty => plain.notEmpty (String.toList_eq_nil_iff.mp empty)

/-- A plain name is ranked by its position. -/
theorem IsPlain.readEntry {name : String} (plain : IsPlain name) (position : Nat) :
    readEntry position name.toList = .ok (name, .ofNat position) := by
  have noSign : Text.splitFirst? '=' name.toList = none := by
    have allPass : name.toList.dropWhile (· != '=') = [] := by
      rw [List.dropWhile_eq_nil_iff]
      exact fun c mem => bne_iff_ne.mpr fun same => plain.noSign (same ▸ mem)
    rw [Text.splitFirst?, allPass]
  rw [PropertyOrder.readEntry, noSign]
  dsimp only
  rw [String.ofList_toList]

/-- The entries of plain names between commas are the names. -/
theorem entries_intercalate {names : List String} (plain : ∀ name ∈ names, IsPlain name) :
    entries (",".intercalate names).toList = names.map String.toList := by
  rcases eq_or_ne names [] with rfl | notEmpty
  · rfl
  · have pieces : Text.split ',' (",".intercalate names).toList = names.map String.toList :=
      Text.split_intercalate notEmpty fun name mem => (plain name mem).noComma
    have trimmed : (names.map String.toList).map Text.trim = names.map String.toList := by
      rw [List.map_map]
      exact List.map_congr_left fun name mem => (plain name mem).trimmed
    rw [entries, pieces, trimmed, List.filter_eq_self]
    intro entry inEntries
    obtain ⟨name, mem, rfl⟩ := List.mem_map.mp inEntries
    rw [Bool.not_eq_true', List.isEmpty_eq_false_iff]
    exact (plain name mem).toList_ne_nil

/-- The order that ranks names by their positions, from a position on. -/
def ofNames (start : Nat) (names : List String) : PropertyOrder :=
  (names.zipIdx start).map fun (name, position) => (name, .ofNat position)

theorem keys_ofNames (start : Nat) (names : List String) :
    (ofNames start names).map Prod.fst = names := by
  rw [ofNames, List.map_map]
  exact List.zipIdx_map_fst start names

theorem mapM_readEntry {names : List String} (plain : ∀ name ∈ names, IsPlain name) :
    ∀ start, (((names.map String.toList).zipIdx start).mapM fun (entry, position) =>
      readEntry position entry) = .ok (ofNames start names) := by
  induction names with
  | nil => exact fun _ => rfl
  | cons name names ih =>
    intro start
    rw [List.map_cons, List.zipIdx_cons, List.mapM_cons,
      ih (fun other mem => plain other (List.mem_cons_of_mem _ mem)) (start + 1)]
    dsimp only
    rw [(plain name List.mem_cons_self).readEntry]
    rfl

/-- Distinct plain names between commas are read as the order of their positions. -/
theorem parse_names {names : List String} (plain : ∀ name ∈ names, IsPlain name)
    (distinct : names.Nodup) : parse (",".intercalate names) = .ok (ofNames 0 names) := by
  have nodup : (([] ++ ofNames 0 names).map Prod.fst).Nodup := by
    rw [List.nil_append, keys_ofNames]
    exact distinct
  rw [parse, entries_intercalate plain, mapM_readEntry plain 0, Except.map,
    Keyed.extend_eq_append _ [] nodup, List.nil_append]

/-! ## Ranks of listed names -/

/-- A name of the list has the rank of its first position. -/
theorem lookup_ofNames {names : List String} {name : String} (mem : name ∈ names) :
    ∀ start, (ofNames start names).lookup name = some (.ofNat (start + names.idxOf name)) := by
  induction names with
  | nil => cases mem
  | cons first names ih =>
    intro start
    rw [ofNames, List.zipIdx_cons, List.map_cons, List.lookup_cons]
    by_cases same : name = first
    · subst same
      rw [beq_self_eq_true, List.idxOf_cons_self]
      rfl
    · have inRest : name ∈ names := (List.mem_cons.mp mem).resolve_left same
      rw [beq_false_of_ne same, List.idxOf_cons_ne names (Ne.symm same),
        show start + (names.idxOf name).succ = start + 1 + names.idxOf name by omega]
      exact ih inRest (start + 1)

theorem rank?_ofNames {names : List String} {name : String} (mem : name ∈ names) :
    rank? (some (ofNames 0 names)) name = some (.ofNat (names.idxOf name)) := by
  rw [rank?, Option.bind_some, lookup_ofNames mem, Nat.zero_add]

theorem rank?_ofNames_eq_none {names : List String} {name : String} (notMem : name ∉ names) :
    rank? (some (ofNames 0 names)) name = none := by
  have absent : ∀ entry ∈ ofNames 0 names, (name != entry.1) = true := by
    refine fun entry mem => bne_iff_ne.mpr fun same => notMem ?_
    rw [← keys_ofNames 0 names, same]
    exact List.mem_map_of_mem mem
  exact List.lookup_eq_none_iff.mpr absent

/-- Of two names of the list the one with the lower position stands first. -/
theorem idxOf_le_of_before {names : List String} (exact : names.length ≤ 2 ^ 53 + 1) {a b : String}
    (mem : a ∈ names) (mem' : b ∈ names) (before : Before (some (ofNames 0 names)) a b) :
    names.idxOf a ≤ names.idxOf b := by
  by_contra above
  have inRange : names.idxOf a ≤ 2 ^ 53 :=
    Nat.le_of_lt_succ ((List.idxOf_lt_length_of_mem mem).trans_le exact)
  have less := Double.sortKey_ofNat_lt (Nat.lt_of_not_le above) inRange
  rw [Before, rankKey_of_rank (rank?_ofNames mem), rankKey_of_rank (rank?_ofNames mem')] at before
  rcases before with less' | ⟨same, -⟩
  · exact absurd less' (Int.lt_asymm less)
  · exact absurd same.symm (Int.ne_of_lt less)

/-- A name of the list stands before any name that is not in it. -/
theorem not_before_listed {names : List String} (exact : names.length ≤ 2 ^ 53 + 1) {a b : String}
    (notMem : a ∉ names) (mem : b ∈ names) : ¬ Before (some (ofNames 0 names)) a b := by
  have inRange : names.idxOf b ≤ 2 ^ 53 :=
    Nat.le_of_lt_succ ((List.idxOf_lt_length_of_mem mem).trans_le exact)
  have less := Double.sortKey_ofNat_lt_infinity inRange
  rw [Before, rankKey_of_unranked (rank?_ofNames_eq_none notMem),
    rankKey_of_rank (rank?_ofNames mem)]
  rintro (less' | ⟨same, -⟩)
  · exact absurd less' (Int.lt_asymm less)
  · exact absurd same.symm (Int.ne_of_lt less)

/-- Names stand as a list says: those of the list first, in its order, and the others by name. -/
structure InListOrder (names listed others : List String) : Prop where
  inList : ∀ name ∈ listed, name ∈ names
  byPosition : listed.Pairwise fun a b => names.idxOf a ≤ names.idxOf b
  notInList : ∀ name ∈ others, name ∉ names
  byName : others.Pairwise (· ≤ ·)

end PropertyOrder

/-- Where no member that lacks a property stands in front of one that has it, those that have it
come first. -/
theorem filter_append_filter_not {α : Type} {p : α → Bool} {l : List α}
    (first : l.Pairwise fun a b => p a = false → p b = false) :
    l.filter p ++ l.filter (!p ·) = l := by
  induction first with
  | nil => rfl
  | @cons a l behind _ ih =>
    cases has : p a with
    | true =>
      rw [List.filter_cons_of_pos has, List.filter_cons_of_neg (by simp [has]), List.cons_append, ih]
    | false =>
      have none : l.filter p = [] :=
        List.filter_eq_nil_iff.mpr fun b mem => Bool.eq_false_iff.mp (behind b mem has)
      rw [none, List.nil_append] at ih
      rw [List.filter_cons_of_neg (Bool.eq_false_iff.mp has), none, List.nil_append,
        List.filter_cons_of_pos (by simp [has]), ih]

open PropertyOrder

/-- Names that are sorted by the order of a list stand as the list says. -/
theorem PropertyOrder.exists_inListOrder {names keys : List String}
    (exact : names.length ≤ 2 ^ 53 + 1)
    (sorted : keys.Pairwise (Before (some (ofNames 0 names)))) :
    ∃ listed others, keys = listed ++ others ∧ InListOrder names listed others := by
  have first : keys.Pairwise fun a b => decide (a ∈ names) = false → decide (b ∈ names) = false := by
    refine sorted.imp fun {a b} before notMem => decide_eq_false fun mem => ?_
    exact not_before_listed exact (of_decide_eq_false notMem) mem before
  refine ⟨keys.filter fun name => decide (name ∈ names),
    keys.filter fun name => !decide (name ∈ names), (filter_append_filter_not first).symm,
    ?_, ?_, ?_, ?_⟩
  · exact fun name mem => of_decide_eq_true (List.mem_filter.mp mem).2
  · refine (sorted.filter _).imp_of_mem fun {a b} mem mem' before => ?_
    exact idxOf_le_of_before exact (of_decide_eq_true (List.mem_filter.mp mem).2)
      (of_decide_eq_true (List.mem_filter.mp mem').2) before
  · exact fun name mem => by simpa using (List.mem_filter.mp mem).2
  · refine (sorted.filter _).imp_of_mem fun {a b} mem mem' before => ?_
    have unlisted : a ∉ names := by simpa using (List.mem_filter.mp mem).2
    have unlisted' : b ∉ names := by simpa using (List.mem_filter.mp mem').2
    exact (before_unranked_iff (rank?_ofNames_eq_none unlisted)
      (rank?_ofNames_eq_none unlisted')).mp before

/-- Distinct plain names between commas are an order, and in every schema that compiles under it the
rule of every object lists the properties of the list first, in the order of the list, and then the
others by name, each of them once. -/
theorem exists_lists_inListOrder {names : List String} (plain : ∀ name ∈ names, IsPlain name)
    (distinct : names.Nodup) (exact : names.length ≤ 2 ^ 53 + 1) :
    ∃ order, PropertyOrder.parse (",".intercalate names) = .ok order ∧
      ∀ schema grammar, compileGrammar (some order) schema = .ok grammar →
        ∀ visit properties, Visited (some order) schema visit →
          SchemaNode.classify visit.schema = .ok (.object properties) →
          ∃ name listed others, visit.given = .ok name ∧ grammar.Lists name (listed ++ others) ∧
            (listed ++ others).Perm (properties.map Prod.fst) ∧
            InListOrder names listed others := by
  refine ⟨ofNames 0 names, parse_names plain distinct, ?_⟩
  intro schema grammar compiled visit properties visited classified
  obtain ⟨name, given, lists⟩ := visited.exists_lists compiled classified
  have sorted : ((sort (some (ofNames 0 names)) properties).map Prod.fst).Pairwise
      (Before (some (ofNames 0 names))) := List.pairwise_map.mpr (pairwise_sort _ properties)
  have perm := (sort_perm (some (ofNames 0 names)) properties).map Prod.fst
  obtain ⟨listed, others, split, inOrder⟩ := exists_inListOrder exact sorted
  rw [split] at lists perm
  exact ⟨name, listed, others, given, lists, perm, inOrder⟩

/-- Of the list `c,x,a` an object with the properties `a`, `b` and `c` has two. -/
theorem exists_lists_inListOrder_overlapping :
    let names := ["c", "x", "a"]
    let order : PropertyOrder := [("c", .finite ⟨false, 0, by decide⟩),
      ("x", .finite ⟨false, 0x3ff0000000000000, by decide⟩),
      ("a", .finite ⟨false, 0x4000000000000000, by decide⟩)]
    let schema : Value := .object [("type", .string "object"), ("properties", .object
      [("a", .object [("type", .string "string")]), ("b", .object [("type", .string "null")]),
        ("c", .object [("type", .string "number")])])]
    (∀ name ∈ names, IsPlain name) ∧ names.Nodup ∧ names.length ≤ 2 ^ 53 + 1 ∧
    PropertyOrder.parse "c,x,a" = .ok order ∧
    ∃ grammar name listed others, compileGrammar (some order) schema = .ok grammar ∧
      (Visit.ofSchema (some order) schema).given = .ok name ∧
      grammar.Lists name (listed ++ others) ∧ (listed ++ others).Perm ["a", "b", "c"] ∧
      InListOrder names listed others := by
  intro names order schema
  have plain : ∀ name ∈ names, IsPlain name := by decide
  have distinct : names.Nodup := by decide
  have exact : names.length ≤ 2 ^ 53 + 1 := by decide
  have positions : ofNames 0 names = order := by decide +kernel
  have parsed : PropertyOrder.parse "c,x,a" = .ok order := positions ▸ parse_names plain distinct
  obtain ⟨order', parsed', listing⟩ := exists_lists_inListOrder plain distinct exact
  obtain rfl : order = order' := Except.ok.inj (parsed.symm.trans parsed')
  obtain ⟨grammar, compiled⟩ : ∃ grammar, compileGrammar (some order) schema = .ok grammar :=
    ⟨_, by cbv⟩
  obtain ⟨name, listed, others, given, lists, perm, inOrder⟩ :=
    listing schema grammar compiled (.ofSchema _ schema) _ .refl rfl
  exact ⟨plain, distinct, exact, parsed, grammar, name, listed, others, compiled, given, lists, perm,
    inOrder⟩

end SchemaGrammar
