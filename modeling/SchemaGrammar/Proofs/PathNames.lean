import Mathlib.Data.List.DropRight
import SchemaGrammar.Files.Path
import SchemaGrammar.Proofs.Pieces

/-!
# The names of a path

A path is its names with slashes between them (`intercalate_segments`), so names tell how it begins
and ends (`startsWith_slash_iff`, `endsWith_slash_iff`). The path of the directory above begins
where the path does, and the names in it that move are those of the path but the last
(`moves_of_parent?_eq_some`).
-/

namespace SchemaGrammar.Files

section Names

variable {path above name : String} {names : List String}

theorem segments_ne_nil (path : String) : segments path ≠ [] :=
  mt List.map_eq_nil_iff.mp (Text.split_ne_nil '/' path.toList)

theorem slash_notMem_of_mem_segments (mem : name ∈ segments path) : '/' ∉ name.toList := by
  obtain ⟨piece, inSplit, rfl⟩ := List.mem_map.mp mem
  rw [String.toList_ofList]
  exact Text.notMem_of_mem_split inSplit

/-- Names without slashes are the names of the path that they make. -/
theorem segments_intercalate (notEmpty : names ≠ [])
    (noSlash : ∀ name ∈ names, '/' ∉ name.toList) : segments ("/".intercalate names) = names := by
  have cut : Text.split '/' ("/".intercalate names).toList = names.map String.toList :=
    @Text.split_intercalate '/' names notEmpty noSlash
  rw [segments, cut, List.map_map]
  exact (List.map_congr_left fun name _ => String.ofList_toList).trans (List.map_id names)

/-- A path is made of its names. -/
theorem intercalate_segments (path : String) : "/".intercalate (segments path) = path := by
  have pieces : (segments path).map String.toList = Text.split '/' path.toList := by
    rw [segments, List.map_map]
    exact (List.map_congr_left fun piece _ => String.toList_ofList).trans (List.map_id _)
  have joined := Text.intercalate_split '/' path.toList
  rw [← pieces] at joined
  refine String.toList_inj.mp ?_
  rw [String.toList_intercalate]
  exact joined

theorem startsWith_slash_iff :
    path.startsWith "/" = true ↔ ∃ second more, segments path = "" :: second :: more := by
  rw [← String.startsWith_toSlice, String.Slice.startsWith_string_iff, String.copy_toSlice]
  obtain ⟨first, more, parts⟩ := List.exists_cons_of_ne_nil (segments_ne_nil path)
  have noSlash : '/' ∉ first.toList :=
    slash_notMem_of_mem_segments (parts ▸ List.mem_cons_self)
  have chars : path.toList =
      first.toList ++ more.flatMap fun name => "/".toList ++ name.toList := by
    rw [← Text.toList_intercalate_cons, ← parts, intercalate_segments]
  rw [parts, chars]
  constructor
  · intro begins
    have empty : first = "" := by
      refine String.toList_eq_nil_iff.mp (List.eq_nil_iff_forall_not_mem.mpr fun c mem => ?_)
      obtain ⟨d, rest, same⟩ := List.exists_cons_of_ne_nil (List.ne_nil_of_mem mem)
      rw [same, List.cons_append] at begins
      obtain ⟨slash, -⟩ := List.cons_prefix_cons.mp begins
      exact noSlash (same ▸ slash ▸ List.mem_cons_self)
    cases more with
    | nil =>
      rw [empty] at begins
      exact absurd (List.prefix_nil.mp begins) (List.cons_ne_nil _ _)
    | cons second more => exact ⟨second, more, by rw [empty]⟩
  · rintro ⟨second, rest, same⟩
    obtain ⟨rfl, rfl⟩ := List.cons.inj same
    exact List.prefix_append _ _

theorem endsWith_slash_iff :
    path.endsWith "/" = true ↔ ∃ before, before ≠ [] ∧ segments path = before ++ [""] := by
  rw [← String.endsWith_toSlice, String.Slice.endsWith_string_iff, String.copy_toSlice]
  constructor
  · intro ends
    rcases List.eq_nil_or_concat (segments path) with none | ⟨before, last, parts⟩
    · exact absurd none (segments_ne_nil path)
    rw [List.concat_eq_append] at parts
    have mem : last ∈ segments path := by simp [parts]
    have noSlash : '/' ∉ last.toList := slash_notMem_of_mem_segments mem
    have isSuffix : last.toList <:+ path.toList := by
      rw [← intercalate_segments path, parts]
      cases before with
      | nil => rw [List.nil_append, String.intercalate_singleton]
      | cons first more =>
        rw [String.intercalate_append_of_ne_nil (List.cons_ne_nil first more)
          (List.cons_ne_nil last []), String.intercalate_singleton, String.toList_append]
        exact List.suffix_append _ _
    have empty : last = "" := by
      refine String.toList_eq_nil_iff.mp (by_contra fun hasChars => noSlash ?_)
      have short : "/".toList.length ≤ last.toList.length := List.length_pos_iff.mpr hasChars
      exact (List.suffix_of_suffix_length_le ends isSuffix short).mem List.mem_cons_self
    refine ⟨before, fun alone => ?_, empty ▸ parts⟩
    rw [alone, List.nil_append, empty] at parts
    have nothing := intercalate_segments path
    rw [parts, String.intercalate_singleton] at nothing
    rw [← nothing] at ends
    exact absurd (List.suffix_nil.mp ends) (List.cons_ne_nil _ _)
  · rintro ⟨before, notEmpty, parts⟩
    have pieces : Text.split '/' path.toList = before.map String.toList ++ [[]] := by
      have same := congrArg (List.map String.toList) parts
      rw [segments, List.map_map] at same
      simpa using same
    exact Text.suffix_of_split pieces (mt List.map_eq_nil_iff.mp notEmpty)

/-! ## The directory above -/

theorem moving_append (names more : List String) :
    moving (names ++ more) = moving names ++ moving more := List.filter_append ..

theorem moving_cons_of_moves (moves : staysPut name = false) (names : List String) :
    moving (name :: names) = name :: moving names :=
  List.filter_cons_of_pos (by simp [moves])

theorem moving_singleton (moves : staysPut name = false) : moving [name] = [name] :=
  moving_cons_of_moves moves []

theorem moving_eq_nil (stay : ∀ name ∈ names, staysPut name = true) : moving names = [] :=
  List.filter_eq_nil_iff.mpr fun name mem => by simp [stay name mem]

/-- Before the last name that moves are the others that do, and behind it names that stay. -/
theorem exists_of_moving_eq {before : List String} {last : String}
    (moved : moving names = before ++ [last]) :
    ∃ front behind, names = front ++ last :: behind ∧ moving front = before ∧
      staysPut last = false ∧ ∀ name ∈ behind, staysPut name = true := by
  obtain ⟨front, more, rfl, kept, rest⟩ := List.filter_eq_append_iff.mp moved
  obtain ⟨stay, behind, rfl, stays, moves, none⟩ := List.filter_eq_cons_iff.mp rest
  refine ⟨front ++ stay, behind, (List.append_assoc ..).symm, ?_, by simpa using moves, ?_⟩
  · have gone : moving stay = [] := moving_eq_nil fun name mem => by simpa using stays name mem
    rw [moving_append, gone, List.append_nil]
    exact kept
  · exact fun name mem => by simpa using List.filter_eq_nil_iff.mp none name mem

theorem moving_rdropWhile (names : List String) :
    moving (names.rdropWhile staysPut) = moving names := by
  have stay : ∀ name ∈ names.rtakeWhile staysPut, staysPut name = true :=
    fun name mem => List.mem_rtakeWhile_imp mem
  conv_rhs => rw [← List.rdropWhile_append_rtakeWhile (l := names) (p := staysPut), moving_append,
    moving_eq_nil stay, List.append_nil]

/-- What is left out at the end of names does not move. -/
theorem moving_withoutTrailing (names : List String) :
    moving (withoutTrailing names) = moving names := by
  cases names with
  | nil => rfl
  | cons first rest =>
    rw [← List.singleton_append, moving_append, ← moving_rdropWhile rest, ← moving_append]
    rfl

/-- The last of several names that are left moves. -/
theorem moves_last_withoutTrailing {before : List String} {last : String} (notEmpty : before ≠ [])
    (parts : withoutTrailing names = before ++ [last]) : staysPut last = false := by
  cases names with
  | nil => simp [withoutTrailing] at parts
  | cons first rest =>
    obtain ⟨_, more, rfl⟩ := List.exists_cons_of_ne_nil notEmpty
    have kept : rest.rdropWhile staysPut = more ++ [last] := (List.cons.inj parts).2
    have moves := List.rdropWhile_last_not staysPut rest (by simp [kept])
    simpa [kept] using moves

/-- What is left of names is among them. -/
theorem withoutTrailing_prefix (names : List String) : withoutTrailing names <+: names := by
  cases names with
  | nil => exact List.prefix_rfl
  | cons first rest => exact List.cons_prefix_cons.mpr ⟨rfl, List.rdropWhile_prefix staysPut rest⟩

/-- Names that are left make a path that begins as the names do. -/
theorem startsWith_intercalate {first : String} {rest : List String}
    (several : first :: rest ≠ [""]) (noSlash : ∀ name ∈ first :: rest, '/' ∉ name.toList) :
    ("/".intercalate (first :: rest)).startsWith "/" = true ↔ first = "" := by
  rw [startsWith_slash_iff, segments_intercalate (List.cons_ne_nil first rest) noSlash]
  constructor
  · rintro ⟨second, more, same⟩
    exact (List.cons.inj same).1
  · rintro rfl
    obtain ⟨second, more, rfl⟩ := List.exists_cons_of_ne_nil fun none => several (none ▸ rfl)
    exact ⟨second, more, rfl⟩

theorem withoutTrailing_ne_nil (path : String) : withoutTrailing (segments path) ≠ [] := by
  obtain ⟨first, rest, parts⟩ := List.exists_cons_of_ne_nil (segments_ne_nil path)
  rw [parts]
  exact List.cons_ne_nil _ _

/-- A path has one name left and no written directory above, or several of which the last one moves
and the others make the directory above. -/
theorem parent?_cases (path : String) :
    (∃ only, withoutTrailing (segments path) = [only] ∧
      parent? path = if only.isEmpty then none else some "") ∨
    ∃ first more last, withoutTrailing (segments path) = first :: more ++ [last] ∧
      staysPut last = false ∧
      parent? path = some (joined (withoutTrailing (first :: more))) := by
  rcases List.eq_nil_or_concat (withoutTrailing (segments path)) with nothing | ⟨before, last, left⟩
  · exact absurd nothing (withoutTrailing_ne_nil path)
  rw [List.concat_eq_append] at left
  cases before with
  | nil => exact .inl ⟨last, left, by rw [parent?, left]; rfl⟩
  | cons first more =>
    refine .inr ⟨first, more, last, left,
      moves_last_withoutTrailing (List.cons_ne_nil first more) left, ?_⟩
    obtain ⟨second, rest, behind⟩ := List.exists_cons_of_ne_nil
      (List.append_ne_nil_of_right_ne_nil more (List.cons_ne_nil last []))
    rw [parent?, left, List.cons_append, behind]
    dsimp only
    rw [← behind, ← List.cons_append, List.dropLast_concat]

/-- A path without a directory above does not move. -/
theorem moves_of_parent?_eq_none (nowhere : parent? path = none) : moves path = [] := by
  have all : moving (withoutTrailing (segments path)) = moves path := moving_withoutTrailing _
  obtain ⟨only, alone, parent⟩ | ⟨first, more, last, -, -, parent⟩ := parent?_cases path
  · rw [nowhere] at parent
    split at parent
    · next empty =>
      rw [alone, String.isEmpty_iff.mp empty] at all
      exact all.symm
    · cases parent
  · cases nowhere.symm.trans parent

/-- The path of the directory above moves as a path does before its last move, and it begins where
the path does. -/
theorem moves_of_parent?_eq_some (parent : parent? path = some above) :
    moves above = (moves path).dropLast ∧
      (above.startsWith "/" = true ↔ path.startsWith "/" = true) := by
  have all : moving (withoutTrailing (segments path)) = moves path := moving_withoutTrailing _
  have noSlash (name : String) (mem : name ∈ segments path) : '/' ∉ name.toList :=
    slash_notMem_of_mem_segments mem
  have isPrefix := withoutTrailing_prefix (segments path)
  obtain ⟨only, alone, same⟩ | ⟨first, more, last, left, lastMoves, same⟩ := parent?_cases path
  · rw [parent] at same
    split at same
    · cases same
    · next hasChars =>
      obtain rfl := Option.some.inj same
      rw [alone] at all isPrefix
      obtain ⟨rest, parts⟩ := isPrefix
      refine ⟨?_, iff_of_false (fun begins => ?_) fun begins => ?_⟩
      · rw [← all, moving, List.filter_singleton]
        cases staysPut only <;> rfl
      · obtain ⟨_, _, ⟨⟩⟩ := startsWith_slash_iff.mp begins
      · obtain ⟨_, _, same⟩ := startsWith_slash_iff.mp begins
        rw [← parts] at same
        exact hasChars (String.isEmpty_iff.mpr (List.cons.inj same).1)
  · rw [left] at all isPrefix
    rw [moving_append, moving_singleton lastMoves] at all
    obtain ⟨rest, parts⟩ := isPrefix
    have begins : path.startsWith "/" = true ↔ first = "" := by
      rw [← parts] at noSlash
      rw [← intercalate_segments path, ← parts]
      exact startsWith_intercalate (by simp) noSlash
    rw [← all, List.dropLast_concat, begins, ← moving_withoutTrailing (first :: more)]
    obtain ⟨behind, kept, isPrefix⟩ : ∃ behind, withoutTrailing (first :: more) = first :: behind ∧
        behind <+: more := ⟨_, rfl, List.rdropWhile_prefix staysPut more⟩
    have noSlash (name : String) (mem : name ∈ first :: behind) : '/' ∉ name.toList := by
      refine noSlash name (parts ▸ List.mem_append_left _ (List.mem_append_left _ ?_))
      exact (List.cons_prefix_cons.mpr ⟨rfl, isPrefix⟩).mem mem
    obtain rfl := Option.some.inj (parent.symm.trans same)
    rw [kept]
    unfold joined
    split
    · next only =>
      obtain ⟨rfl, rfl⟩ := List.cons.inj only
      exact ⟨rfl, iff_of_true (startsWith_slash_iff.mpr ⟨"", [], rfl⟩) rfl⟩
    · next several =>
      refine ⟨?_, startsWith_intercalate several noSlash⟩
      rw [Files.moves, segments_intercalate (List.cons_ne_nil first behind) noSlash]

end Names

end SchemaGrammar.Files
