import Mathlib.Data.List.DropRight
import SchemaGrammar.Proofs.DistinctKeys
import SchemaGrammar.Proofs.FirstFailure
import SchemaGrammar.Proofs.Pieces
import SchemaGrammar.Schema.PropertyOrder

/-!
# What a written order means

A written order is a list of entries between commas. `exists_parse_outcome` says what comes of every
text. The entries are its pieces, trimmed, without those that are empty (`AreEntries`). The first
entry that is faulty (`IsFaulty`) is reported. If there is none, then the text is read, and each
name has the rank of its last entry (`IsOrderOf`): its own, or its position among all entries.

Nothing of this speaks of how a text is gone through. The pieces are those that give the text when
they are joined, a trimmed text is what is left between blanks, and the sign of an entry is the
first one. A text has its entries in one way only (`areEntries_iff`), and an entry is faulty or
gives a rank exactly as it is read (`readEntry_eq_error_iff`, `readEntry_eq_ok_iff`).
-/

namespace SchemaGrammar

/-! ## Trimmed texts -/

namespace Text

/-- What is left of a text without the blanks at its two ends. -/
structure IsTrimmed (text trimmed : List Char) : Prop where
  blanks : ∃ before behind, text = before ++ (trimmed ++ behind) ∧
    (∀ c ∈ before, isBlank c = true) ∧ ∀ c ∈ behind, isBlank c = true
  first : ∀ c ∈ trimmed.head?, isBlank c = false
  last : ∀ c ∈ trimmed.getLast?, isBlank c = false

theorem trim_eq (text : List Char) :
    trim text = (text.dropWhile isBlank).rdropWhile isBlank := rfl

theorem isTrimmed_trim (text : List Char) : IsTrimmed text (trim text) where
  blanks := by
    refine ⟨text.takeWhile isBlank, (text.dropWhile isBlank).rtakeWhile isBlank, ?_,
      fun _ => List.mem_takeWhile_imp, fun _ => List.mem_rtakeWhile_imp⟩
    rw [trim_eq, List.rdropWhile_append_rtakeWhile, List.takeWhile_append_dropWhile]
  first c mem := by
    obtain ⟨behind, same⟩ := List.rdropWhile_prefix isBlank (l := text.dropWhile isBlank)
    have begins : (text.dropWhile isBlank).head? = some c := by
      rw [← same, List.head?_append]
      exact congrArg (·.or behind.head?) mem
    simpa [begins] using List.head?_dropWhile_not isBlank text
  last c mem := by
    obtain ⟨notEmpty, rfl⟩ := List.mem_getLast?_eq_getLast mem
    exact Bool.eq_false_iff.mpr (List.rdropWhile_last_not isBlank _ notEmpty)

theorem IsTrimmed.eq_trim {text trimmed : List Char} (isTrimmed : IsTrimmed text trimmed) :
    trimmed = trim text := by
  obtain ⟨⟨before, behind, rfl, areBlank, areBlank'⟩, first, last⟩ := isTrimmed
  have behindTrimmed : (trimmed ++ behind).rdropWhile isBlank = trimmed := by
    have kept : trimmed.reverse.dropWhile isBlank = trimmed.reverse := by
      cases reversed : trimmed.reverse with
      | nil => rfl
      | cons c rest =>
        have ends : c ∈ trimmed.getLast? := by
          rw [List.getLast?_eq_head?_reverse, reversed]
          rfl
        rw [List.dropWhile_cons_of_neg (by simp [last c ends])]
    rw [List.rdropWhile, List.reverse_append, List.dropWhile_append_of_pos, kept,
      List.reverse_reverse]
    exact fun c mem => areBlank' c (List.mem_reverse.mp mem)
  rw [trim_eq, List.dropWhile_append_of_pos areBlank]
  cases trimmed with
  | nil =>
    rw [List.nil_append, List.dropWhile_eq_nil_iff.mpr areBlank']
    rfl
  | cons c rest =>
    rw [List.cons_append, List.dropWhile_cons_of_neg (by simp [first c rfl]), ← List.cons_append,
      behindTrimmed]

/-- A text is trimmed to one text only. -/
theorem isTrimmed_iff {text trimmed : List Char} : IsTrimmed text trimmed ↔ trim text = trimmed :=
  ⟨fun isTrimmed => isTrimmed.eq_trim.symm, fun same => same ▸ isTrimmed_trim text⟩

end Text

/-! ## The last of several values -/

namespace Keyed

variable {α : Type}

/-- Under a key stands what was set last, or what was there before. -/
theorem lookup_extend (key : String) (pairs : List (String × α)) : ∀ entries : Keyed α,
    (entries.extend pairs).lookup key = (pairs.reverse.lookup key).or (entries.lookup key) := by
  induction pairs with
  | nil => exact fun _ => rfl
  | cons pair pairs ih =>
    intro entries
    have step : entries.extend (pair :: pairs) = (entries.set pair.1 pair.2).extend pairs := rfl
    rw [step, ih, lookup_set, List.reverse_cons, List.lookup_append, Option.or_assoc]
    congr 1
    obtain ⟨other, value⟩ := pair
    rw [List.lookup_cons, List.lookup_nil]
    by_cases same : key = other
    · rw [if_pos (beq_iff_eq.mpr same), beq_iff_eq.mpr same, Option.some_or]
    · rw [if_neg (mt beq_iff_eq.mp same), beq_false_of_ne same, Option.none_or]

/-- Of the values that are set under a key the last one counts. -/
theorem lookup_extend_nil_eq_some_iff {pairs : List (String × α)} {key : String} {value : α} :
    (extend [] pairs).lookup key = some value ↔ ∃ before behind,
      pairs = before ++ (key, value) :: behind ∧ ∀ pair ∈ behind, pair.1 ≠ key := by
  rw [lookup_extend, List.lookup_nil, Option.or_none, List.lookup_eq_some_iff]
  constructor
  · rintro ⟨behind, before, reversed, others⟩
    refine ⟨before.reverse, behind.reverse, ?_, fun pair mem => ?_⟩
    · rw [← List.reverse_reverse pairs, reversed, List.reverse_append, List.reverse_cons,
        List.append_assoc, List.singleton_append]
    · exact (bne_iff_ne.mp (others pair (List.mem_reverse.mp mem))).symm
  · rintro ⟨before, behind, rfl, others⟩
    refine ⟨behind.reverse, before.reverse, ?_, fun pair mem => ?_⟩
    · rw [List.reverse_append, List.reverse_cons, List.append_assoc, List.singleton_append]
    · exact bne_iff_ne.mpr (others pair (List.mem_reverse.mp mem)).symm

end Keyed

namespace PropertyOrder

open Text (IsTrimmed isTrimmed_iff)

/-! ## Entries -/

/-- The entries of a written order: its pieces between commas, trimmed, without the empty ones. -/
def AreEntries (text : List Char) (entries : List (List Char)) : Prop :=
  ∃ pieces trimmed, [','].intercalate pieces = text ∧ pieces ≠ [] ∧
    (∀ piece ∈ pieces, ',' ∉ piece) ∧ List.Forall₂ IsTrimmed pieces trimmed ∧
    entries = trimmed.filter (· ≠ [])

theorem entries_eq_filter (text : List Char) :
    entries text = ((Text.split ',' text).map Text.trim).filter (· ≠ []) := by
  rw [entries]
  congr 1
  funext entry
  cases entry <;> rfl

theorem areEntries_entries (text : List Char) : AreEntries text (entries text) := by
  refine ⟨Text.split ',' text, (Text.split ',' text).map Text.trim, Text.intercalate_split ',' text,
    Text.split_ne_nil ',' text, fun _ => Text.notMem_of_mem_split, ?_, entries_eq_filter text⟩
  rw [List.forall₂_map_right_iff]
  exact List.forall₂_same.mpr fun piece _ => Text.isTrimmed_trim piece

/-- A text has its entries in one way only. -/
theorem areEntries_iff {text : List Char} {found : List (List Char)} :
    AreEntries text found ↔ entries text = found := by
  refine ⟨?_, fun same => same ▸ areEntries_entries text⟩
  rintro ⟨pieces, trimmed, rfl, notEmpty, noComma, each, rfl⟩
  have all : pieces.map Text.trim = trimmed := by
    rw [← List.forall₂_eq_eq_eq, List.forall₂_map_left_iff]
    exact each.imp fun _ _ => isTrimmed_iff.mp
  rw [entries_eq_filter, Text.split_intercalate_pieces notEmpty noComma, all]

/-- What is wrong with an entry that has a sign: the rank behind the first sign is no number, or
else there is no name before it. -/
inductive IsFaulty : List Char → OrderError → Prop
  | badRank {name rank number : List Char} : '=' ∉ name → IsTrimmed rank number →
      Double.ofLiteral? number = none →
      IsFaulty (name ++ '=' :: rank) (.badRank (String.ofList (name ++ '=' :: rank)) number.isEmpty)
  | noName {name rank number : List Char} {x : Double} : '=' ∉ name → IsTrimmed rank number →
      Double.ofLiteral? number = some x → IsTrimmed name [] →
      IsFaulty (name ++ '=' :: rank) (.noName (String.ofList (name ++ '=' :: rank)))

/-- The name of an entry that is not faulty, and its rank: the one behind its first sign, or the
entry's position if it has no sign. -/
inductive Ranks (position : Nat) : List Char → String → Double → Prop
  | byPosition {name : List Char} : '=' ∉ name →
      Ranks position name (String.ofList name) (.ofNat position)
  | bySign {name rank trimmed number : List Char} {x : Double} : '=' ∉ name →
      IsTrimmed name trimmed → trimmed ≠ [] → IsTrimmed rank number →
      Double.ofLiteral? number = some x →
      Ranks position (name ++ '=' :: rank) (String.ofList trimmed) x

theorem readEntry_eq_error_iff {position : Nat} {entry : List Char} {e : OrderError} :
    readEntry position entry = .error e ↔ IsFaulty entry e := by
  constructor
  · intro failed
    unfold readEntry at failed
    split at failed
    · cases failed
    · next name rank cut =>
      obtain ⟨notMem, rfl⟩ := Text.splitFirst?_eq_some_iff.mp cut
      dsimp only at failed
      split at failed
      · next noNumber =>
        obtain rfl := Except.error.inj failed
        exact .badRank notMem (Text.isTrimmed_trim rank) noNumber
      · next x number =>
        split at failed
        · next empty =>
          obtain rfl := Except.error.inj failed
          exact .noName notMem (Text.isTrimmed_trim rank) number
            (isTrimmed_iff.mpr (List.isEmpty_iff.mp empty))
        · cases failed
  · rintro (⟨notMem, trimmed, noNumber⟩ | ⟨notMem, trimmed, number, empty⟩)
    · obtain rfl := trimmed.eq_trim
      rw [readEntry, Text.splitFirst?_eq_some_iff.mpr ⟨notMem, rfl⟩]
      dsimp only
      rw [noNumber]
    · obtain rfl := trimmed.eq_trim
      rw [readEntry, Text.splitFirst?_eq_some_iff.mpr ⟨notMem, rfl⟩]
      dsimp only
      rw [number, isTrimmed_iff.mp empty]
      rfl

theorem readEntry_eq_ok_iff {position : Nat} {entry : List Char} {name : String} {rank : Double} :
    readEntry position entry = .ok (name, rank) ↔ Ranks position entry name rank := by
  constructor
  · intro read
    unfold readEntry at read
    split at read
    · next noSign =>
      obtain ⟨rfl, rfl⟩ := Prod.mk.inj (Except.ok.inj read)
      exact .byPosition (Text.splitFirst?_eq_none_iff.mp noSign)
    · next name rank cut =>
      obtain ⟨notMem, rfl⟩ := Text.splitFirst?_eq_some_iff.mp cut
      dsimp only at read
      split at read
      · cases read
      · next x number =>
        split at read
        · cases read
        · next notEmpty =>
          obtain ⟨rfl, rfl⟩ := Prod.mk.inj (Except.ok.inj read)
          exact .bySign notMem (Text.isTrimmed_trim name)
            (fun empty => notEmpty (List.isEmpty_iff.mpr empty)) (Text.isTrimmed_trim rank) number
  · rintro (notMem | ⟨notMem, trimmed, notEmpty, trimmed', number⟩)
    · rw [readEntry, Text.splitFirst?_eq_none_iff.mpr notMem]
    · obtain rfl := trimmed.eq_trim
      obtain rfl := trimmed'.eq_trim
      rw [readEntry, Text.splitFirst?_eq_some_iff.mpr ⟨notMem, rfl⟩]
      dsimp only
      rw [number]
      dsimp only
      rw [if_neg fun empty => notEmpty (List.isEmpty_iff.mp empty)]

/-- The name of an entry does not depend on its position. -/
theorem Ranks.exists_at {position : Nat} {entry : List Char} {name : String} {rank : Double}
    (ranks : Ranks position entry name rank) (other : Nat) :
    ∃ rank, Ranks other entry name rank := by
  cases ranks with
  | byPosition noSign => exact ⟨_, .byPosition noSign⟩
  | bySign notMem trimmed notEmpty trimmed' number =>
    exact ⟨_, .bySign notMem trimmed notEmpty trimmed' number⟩

/-! ## The whole list -/

/-- Of some entries this is the first one that is faulty, and what is wrong with it. -/
def FirstFault (entries : List (List Char)) (e : OrderError) : Prop :=
  ∃ before entry behind, entries = before ++ entry :: behind ∧ IsFaulty entry e ∧
    ∀ other ∈ before, ∀ e, ¬ IsFaulty other e

/-- Of some entries this is the last one for a name, and the rank that it gives at its position. -/
def LastRank (entries : List (List Char)) (name : String) (rank : Double) : Prop :=
  ∃ before entry behind, entries = before ++ entry :: behind ∧
    Ranks before.length entry name rank ∧
    ∀ other ∈ behind, ∀ position rank, ¬ Ranks position other name rank

/-- An order has each name of the entries once, with the rank of the last entry for it. -/
structure IsOrderOf (entries : List (List Char)) (order : PropertyOrder) : Prop where
  distinct : (order.map Prod.fst).Nodup
  ranks : ∀ name rank, order.lookup name = some rank ↔ LastRank entries name rank

section Reading

variable {entries : List (List Char)}

/-- Reads entries, each at its position. -/
def readEntries (entries : List (List Char)) : Except OrderError (List (String × Double)) :=
  entries.zipIdx.mapM fun (entry, position) => readEntry position entry

theorem firstFault_of_readEntries {e : OrderError} (failed : readEntries entries = .error e) :
    FirstFault entries e := by
  obtain ⟨before, ⟨entry, position⟩, behind, same, ⟨results, each⟩, here⟩ :=
    mapM_eq_error_iff.mp failed
  refine ⟨before.map Prod.fst, entry, behind.map Prod.fst, ?_, readEntry_eq_error_iff.mp here, ?_⟩
  · rw [← List.zipIdx_map_fst 0 entries, same, List.map_append, List.map_cons]
  · intro other mem e faulty
    obtain ⟨⟨other, position⟩, inBefore, rfl⟩ := List.mem_map.mp mem
    obtain ⟨pair, -, read⟩ := exists_of_mem_forall₂ each inBefore
    cases read.symm.trans (readEntry_eq_error_iff.mpr faulty)

theorem not_isFaulty_of_readEntries {pairs : List (String × Double)}
    (read : readEntries entries = .ok pairs) : ∀ entry ∈ entries, ∀ e, ¬ IsFaulty entry e := by
  intro entry mem e faulty
  rw [← List.zipIdx_map_fst 0 entries] at mem
  obtain ⟨⟨entry, position⟩, inEntries, rfl⟩ := List.mem_map.mp mem
  obtain ⟨pair, -, here⟩ := exists_of_mem_forall₂ (mapM_eq_ok_iff.mp read) inEntries
  cases here.symm.trans (readEntry_eq_error_iff.mpr faulty)

/-- The last pair with a name comes of the last entry for it. -/
theorem lastRank_iff {pairs : List (String × Double)} (read : readEntries entries = .ok pairs)
    {name : String} {rank : Double} : LastRank entries name rank ↔ ∃ before behind,
      pairs = before ++ (name, rank) :: behind ∧ ∀ pair ∈ behind, pair.1 ≠ name := by
  have each := mapM_eq_ok_iff.mp read
  constructor
  · rintro ⟨before, entry, behind, rfl, ranks, others⟩
    rw [List.zipIdx_append, List.zipIdx_cons, Nat.zero_add] at each
    obtain ⟨before', pair, behind', rfl, here, more⟩ := exists_append_cons_of_forall₂ each.flip
    obtain rfl := Except.ok.inj (here.symm.trans (readEntry_eq_ok_iff.mpr ranks))
    refine ⟨before', behind', rfl, fun pair mem same => ?_⟩
    obtain ⟨⟨other, position⟩, inBehind, there⟩ := exists_mem_of_forall₂ more.flip mem
    refine others other ?_ position pair.2 (same ▸ readEntry_eq_ok_iff.mp there)
    rw [← List.zipIdx_map_fst (before.length + 1) behind]
    exact List.mem_map_of_mem inBehind
  · rintro ⟨before, behind, rfl, others⟩
    obtain ⟨_, placed, _, split, here, more⟩ := exists_append_cons_of_forall₂ each
    obtain ⟨front, tail, rfl, rfl, inTail⟩ := List.zipIdx_eq_append_iff.mp split
    obtain ⟨entry, last, rfl, rfl, rfl⟩ := List.zipIdx_eq_cons_iff.mp inTail.symm
    rw [Nat.zero_add] at here more
    refine ⟨front, entry, last, rfl, readEntry_eq_ok_iff.mp here, fun other mem _ _ ranks => ?_⟩
    rw [← List.zipIdx_map_fst (front.length + 1) last] at mem
    obtain ⟨⟨other, position⟩, inLast, rfl⟩ := List.mem_map.mp mem
    obtain ⟨pair, inBehind, there⟩ := exists_of_mem_forall₂ more inLast
    obtain ⟨rank, ranks⟩ := ranks.exists_at position
    obtain rfl := Except.ok.inj (there.symm.trans (readEntry_eq_ok_iff.mpr ranks))
    exact others _ inBehind rfl

end Reading

/-- What comes of a text as a written order. Either an entry is faulty, and the first such entry is
reported, or none is, and the order that is read gives every name the rank of its last entry. -/
theorem exists_parse_outcome (text : String) : ∃ entries, AreEntries text.toList entries ∧
    ((∃ e, parse text = .error e ∧ FirstFault entries e) ∨
      ∃ order, parse text = .ok order ∧ (∀ entry ∈ entries, ∀ e, ¬ IsFaulty entry e) ∧
        IsOrderOf entries order) := by
  have parsed : parse text = (readEntries (entries text.toList)).map (Keyed.extend []) := rfl
  refine ⟨entries text.toList, areEntries_entries text.toList, ?_⟩
  cases read : readEntries (entries text.toList) with
  | error e => exact .inl ⟨e, by rw [parsed, read]; rfl, firstFault_of_readEntries read⟩
  | ok pairs =>
    refine .inr ⟨Keyed.extend [] pairs, by rw [parsed, read]; rfl, not_isFaulty_of_readEntries read,
      Keyed.nodup_extend pairs [] List.nodup_nil, fun name rank => ?_⟩
    rw [Keyed.lookup_extend_nil_eq_some_iff, lastRank_iff read]

end PropertyOrder

end SchemaGrammar
