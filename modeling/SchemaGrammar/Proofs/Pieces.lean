import Mathlib.Data.List.Infix
import Mathlib.Data.List.TakeWhile
import SchemaGrammar.Text.Split

/-!
# Pieces of a text, put together and taken apart

Texts without the separator that are joined by it are the pieces of what comes out
(`split_intercalate_pieces`). It is enough to know what the first piece is: a text up to the
separator (`split_append`), or else the whole text (`split_of_notMem`). Behind other pieces the last
one is empty only if the text ends in a separator (`suffix_of_split`). Conversely no piece of a text
has the separator, and joined by it they are the text (`intercalate_split`).
-/

namespace SchemaGrammar.Text

theorem split_ne_nil (separator : Char) (text : List Char) : split separator text ≠ [] := by
  cases text with
  | nil => exact List.cons_ne_nil _ _
  | cons c rest =>
    rw [split]
    split
    · exact List.cons_ne_nil _ _
    · split <;> exact List.cons_ne_nil _ _

/-- What stands before a separator is the first piece. -/
theorem split_append {separator : Char} {piece : List Char} (notMem : separator ∉ piece)
    (rest : List Char) :
    split separator (piece ++ separator :: rest) = piece :: split separator rest := by
  induction piece with
  | nil =>
    rw [List.nil_append, split]
    cases pieces : split separator rest with
    | nil => exact absurd pieces (split_ne_nil separator rest)
    | cons piece more =>
      dsimp only
      rw [if_pos (beq_self_eq_true separator)]
  | cons c piece ih =>
    have different : (c == separator) = false :=
      beq_false_of_ne fun same => notMem (same ▸ List.mem_cons_self)
    rw [List.cons_append, split, ih fun mem => notMem (List.mem_cons_of_mem c mem)]
    dsimp only
    rw [different, if_neg Bool.false_ne_true]

/-- A text without the separator is one piece. -/
theorem split_of_notMem {separator : Char} {text : List Char} (notMem : separator ∉ text) :
    split separator text = [text] := by
  induction text with
  | nil => rfl
  | cons c text ih =>
    have different : (c == separator) = false :=
      beq_false_of_ne fun same => notMem (same ▸ List.mem_cons_self)
    rw [split, ih fun mem => notMem (List.mem_cons_of_mem c mem)]
    dsimp only
    rw [different, if_neg Bool.false_ne_true]

/-- A separator ends an empty piece in front, and any other character begins the first piece. -/
theorem exists_split_cons (separator c : Char) (rest : List Char) :
    ∃ piece more, split separator rest = piece :: more ∧
      split separator (c :: rest) =
        if c == separator then [] :: piece :: more else (c :: piece) :: more := by
  obtain ⟨piece, more, pieces⟩ := List.exists_cons_of_ne_nil (split_ne_nil separator rest)
  refine ⟨piece, more, pieces, ?_⟩
  rw [split, pieces]

theorem notMem_of_mem_split {separator : Char} {text piece : List Char}
    (mem : piece ∈ split separator text) : separator ∉ piece := by
  induction text generalizing piece with
  | nil =>
    rw [split, List.mem_singleton] at mem
    exact mem ▸ List.not_mem_nil
  | cons c rest ih =>
    obtain ⟨first, more, inRest, inAll⟩ := exists_split_cons separator c rest
    rw [inAll] at mem
    split at mem
    · rcases List.mem_cons.mp mem with rfl | mem
      · exact List.not_mem_nil
      · exact ih (inRest ▸ mem)
    · next different =>
      rcases List.mem_cons.mp mem with rfl | mem
      · have behind := ih (inRest ▸ List.mem_cons_self)
        refine List.not_mem_cons_of_ne_of_not_mem (fun same => ?_) behind
        exact different (beq_iff_eq.mpr same.symm)
      · exact ih (inRest ▸ List.mem_cons_of_mem first mem)

/-- The pieces of a text, joined by the separator, are the text. -/
theorem intercalate_split (separator : Char) (text : List Char) :
    [separator].intercalate (split separator text) = text := by
  induction text with
  | nil => rfl
  | cons c rest ih =>
    obtain ⟨first, more, inRest, inAll⟩ := exists_split_cons separator c rest
    rw [inRest] at ih
    rw [inAll]
    split
    · next same =>
      rw [List.intercalate_cons_cons, ih, List.nil_append, beq_iff_eq.mp same,
        List.singleton_append]
    · cases more with
      | nil => rw [List.intercalate_singleton] at ih ⊢; rw [ih]
      | cons next more =>
        rw [List.intercalate_cons_cons] at ih ⊢
        rw [List.cons_append, List.cons_append, ih]

/-- Only a text that ends in a separator has an empty last piece behind others. -/
theorem suffix_of_split {separator : Char} {text : List Char} {pieces : List (List Char)}
    (cut : split separator text = pieces ++ [[]]) (notEmpty : pieces ≠ []) :
    [separator] <:+ text := by
  induction text generalizing pieces with
  | nil => simp [split, notEmpty] at cut
  | cons c rest ih =>
    obtain ⟨piece, more, inRest, inAll⟩ := exists_split_cons separator c rest
    obtain ⟨first, pieces, rfl⟩ := List.exists_cons_of_ne_nil notEmpty
    rw [inAll, List.cons_append] at cut
    split at cut
    · next same =>
      obtain ⟨-, behind⟩ := List.cons.inj cut
      rw [behind] at inRest
      by_cases alone : pieces = []
      · cases rest with
        | nil => exact beq_iff_eq.mp same ▸ List.suffix_rfl
        | cons d rest =>
          obtain ⟨_, _, -, again⟩ := exists_split_cons separator d rest
          rw [alone, again] at inRest
          split at inRest <;> simp at inRest
      · exact (ih inRest alone).trans (List.suffix_cons c rest)
    · obtain ⟨-, rfl⟩ := List.cons.inj cut
      exact (ih inRest (List.cons_ne_nil piece pieces)).trans (List.suffix_cons c rest)

/-- A list with separators is its first text, and then each further text behind a separator. -/
theorem toList_intercalate_cons (separator : String) :
    ∀ (text : String) (texts : List String), (separator.intercalate (text :: texts)).toList =
      text.toList ++ texts.flatMap fun more => separator.toList ++ more.toList
  | text, [] => by rw [String.intercalate_singleton, List.flatMap_nil, List.append_nil]
  | text, more :: texts => by
    rw [String.intercalate_cons_cons, String.toList_append, String.toList_append,
      toList_intercalate_cons separator more texts, List.flatMap_cons, List.append_assoc,
      List.append_assoc]

/-- Pieces without the separator that are joined by it are the pieces of what comes out. -/
theorem split_intercalate_pieces {separator : Char} {pieces : List (List Char)}
    (notEmpty : pieces ≠ []) (notMem : ∀ piece ∈ pieces, separator ∉ piece) :
    split separator ([separator].intercalate pieces) = pieces := by
  induction pieces with
  | nil => exact absurd rfl notEmpty
  | cons piece more ih =>
    have first := notMem piece List.mem_cons_self
    cases more with
    | nil => rw [List.intercalate_singleton, split_of_notMem first]
    | cons next more =>
      rw [List.intercalate_cons_cons, List.append_assoc, List.singleton_append, split_append first,
        ih (List.cons_ne_nil _ _) fun other mem => notMem other (List.mem_cons_of_mem piece mem)]

/-- Texts joined by a separator that none of them has are the pieces of what comes out. -/
theorem split_intercalate {separator : Char} {texts : List String} (notEmpty : texts ≠ [])
    (notMem : ∀ text ∈ texts, separator ∉ text.toList) :
    split separator ((String.singleton separator).intercalate texts).toList =
      texts.map String.toList := by
  rw [String.toList_intercalate, String.toList_singleton]
  refine split_intercalate_pieces (mt List.map_eq_nil_iff.mp notEmpty) fun piece mem => ?_
  obtain ⟨text, inTexts, rfl⟩ := List.mem_map.mp mem
  exact notMem text inTexts

/-! ## The first separator -/

theorem splitFirst?_eq_none_iff {separator : Char} {text : List Char} :
    splitFirst? separator text = none ↔ separator ∉ text := by
  unfold splitFirst?
  split
  · next none =>
    refine iff_of_true rfl fun mem => ?_
    simpa using List.dropWhile_eq_nil_iff.mp none separator mem
  · next some =>
    refine iff_of_false (Option.some_ne_none _) fun notMem => ?_
    have none : text.dropWhile (· != separator) = [] :=
      List.dropWhile_eq_nil_iff.mpr fun c mem => bne_iff_ne.mpr fun same => notMem (same ▸ mem)
    rw [none] at some
    cases some

/-- A text is split at the first separator that it has. -/
theorem splitFirst?_eq_some_iff {separator : Char} {text before behind : List Char} :
    splitFirst? separator text = some (before, behind) ↔
      separator ∉ before ∧ text = before ++ separator :: behind := by
  constructor
  · intro cut
    unfold splitFirst? at cut
    split at cut
    · cases cut
    · next c rest found =>
      obtain ⟨rfl, rfl⟩ := Prod.mk.inj (Option.some.inj cut)
      have isSeparator : c = separator := by
        have first := List.head?_dropWhile_not (· != separator) text
        rw [found] at first
        simpa using first
      refine ⟨fun mem => by simpa using List.mem_takeWhile_imp mem, ?_⟩
      rw [← isSeparator, ← found, isSeparator, List.takeWhile_append_dropWhile]
  · rintro ⟨notMem, rfl⟩
    have passes : ∀ c ∈ before, (c != separator) = true :=
      fun c mem => bne_iff_ne.mpr fun same => notMem (same ▸ mem)
    rw [splitFirst?, List.dropWhile_append_of_pos passes, List.takeWhile_append_of_pos passes]
    simp

end SchemaGrammar.Text
