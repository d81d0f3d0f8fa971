import SchemaGrammar.Proofs.ReadFile

/-!
# Saved files

A text can be saved under a path that ends in the name of an entry, if no file stands on the way to
where the path leads, and neither is a directory there nor will one be made there on the way
(`Tree.Savable`). Saving then adds the directories that are missing on the way and the file, changes
nothing else, and the text is read under the same path (`Tree.saved_of_write`). Once there are
directories on the whole way, a text is written where the path leads, or it is refused for one of the
reasons in `Tree.Refuses` (`Tree.targets_target`), and then it could not be saved
(`Tree.refuses_of_write`).
-/

namespace SchemaGrammar.Files

/-- A text is read back from the bytes that encode it. -/
theorem textOf?_bytesOf (text : String) : textOf? (bytesOf text) = some text := by
  rw [textOf?, bytesOf, Array.toArray_toList, String.fromUTF8?]
  exact dif_pos text.isValidUTF8

/-! ## How paths end -/

/-- A path ends in the name of an entry: neither in a slash nor in dots. -/
def NamesEntry (path : String) : Prop :=
  ∃ before last, segments path = before ++ [last] ∧ staysPut last = false ∧ last ≠ ".."

/-- A name is the last one of a path, but for empty ones. -/
def EndsIn (path last : String) : Prop :=
  ∃ before behind, segments path = before ++ last :: behind ∧ last ≠ "" ∧
    ∀ name ∈ behind, name = ""

section Endings

variable {path last : String} {before behind : List String}

/-- What is left of a path without empty names at its end. -/
theorem exists_of_dropWhile
    (stripped : (segments path).reverse.dropWhile String.isEmpty = last :: before) :
    ∃ behind, segments path = before.reverse ++ last :: behind ∧ last ≠ "" ∧
      ∀ name ∈ behind, name = "" := by
  refine ⟨((segments path).reverse.takeWhile String.isEmpty).reverse, ?_, ?_, fun name mem => ?_⟩
  · have all := List.takeWhile_append_dropWhile (p := String.isEmpty) (l := (segments path).reverse)
    rw [stripped] at all
    simpa using (congrArg List.reverse all).symm
  · have left : (segments path).reverse.dropWhile String.isEmpty ≠ [] := by
      rw [stripped]
      exact List.cons_ne_nil _ _
    have first := List.head_dropWhile_not String.isEmpty left
    simp only [stripped, List.head_cons] at first
    rintro rfl
    cases first
  · exact String.isEmpty_iff.mp (List.mem_takeWhile_imp (List.mem_reverse.mp mem))

theorem ne_empty_of_dropWhile
    (stripped : (segments path).reverse.dropWhile String.isEmpty = last :: before) : path ≠ "" := by
  rintro rfl
  cases stripped

/-- Empty names at the end of a path do not move. -/
theorem moves_of_segments (parts : segments path = before ++ last :: behind)
    (empty : ∀ name ∈ behind, name = "") : moves path = moving before ++ moving [last] := by
  have stay : moving behind = [] := moving_eq_nil fun name mem => by rw [empty name mem]; rfl
  rw [moves, parts, moving_append, ← List.singleton_append, moving_append, stay, List.append_nil]

theorem not_namesEntry_empty : ¬ NamesEntry "" := by
  rintro ⟨before, last, parts, moves, -⟩
  obtain ⟨-, same⟩ | ⟨-, never⟩ := List.append_eq_singleton_iff.mp parts.symm
  · rw [List.singleton_inj.mp same] at moves
    cases moves
  · exact List.cons_ne_nil _ _ never

/-- The very last name of a path is the last one that is not empty, or it is empty. -/
theorem EndsIn.eq_or_eq {name : String} (ends : EndsIn path name)
    (parts : segments path = before ++ [last]) : last = name ∨ last = "" := by
  obtain ⟨front, behind, parts', -, empty⟩ := ends
  rw [parts] at parts'
  rcases List.eq_nil_or_concat behind with rfl | ⟨more, final, rfl⟩
  · exact .inl (List.singleton_inj.mp (List.append_inj_right' parts' rfl))
  · rw [List.concat_eq_append, ← List.cons_append, ← List.append_assoc] at parts'
    obtain rfl := List.singleton_inj.mp (List.append_inj_right' parts' rfl)
    exact .inr (empty last (by simp))

/-- A path that has empty names at its end ends in a slash. -/
theorem eq_nil_of_endsWith (parts : segments path = before ++ last :: behind)
    (empty : ∀ name ∈ behind, name = "") (noSlash : ¬ path.endsWith "/" = true) : behind = [] := by
  rcases List.eq_nil_or_concat behind with none | ⟨more, final, rfl⟩
  · exact none
  · rw [List.concat_eq_append] at parts empty
    obtain rfl := empty final (by simp)
    rw [← List.cons_append, ← List.append_assoc] at parts
    exact absurd (endsWith_slash_iff.mpr ⟨_, by simp, parts⟩) noSlash

end Endings

namespace Tree

variable {tree ready later : Tree} {path : String}

/-! ## Where a text is written -/

/-- Why a text is not written under a path, in a tree with directories on the whole way: a directory
stands where the path leads, or the path reads as that of a directory. -/
inductive Refuses (tree : Tree) (path : String) : FileError → Prop
  | empty (empty : path = "") : Refuses tree path .missing
  | directory (notEmpty : path ≠ "") (directory : tree.node? (tree.aim path) = some .directory) :
      Refuses tree path .isDirectory
  | slash {last : String} (ends : EndsIn path last) (noDot : last ≠ ".")
      (slash : path.endsWith "/" = true) : Refuses tree path .isDirectory
  | dotMissing (ends : EndsIn path ".") (absent : tree.node? (tree.aim path) = none) :
      Refuses tree path .missing
  | dotFile (ends : EndsIn path ".") (file : tree.IsFile (tree.aim path)) :
      Refuses tree path .notDirectory

/-- What is refused could not be written to a file. -/
theorem Refuses.not_namesEntry {e : FileError} (refuses : tree.Refuses path e)
    (free : tree.node? (tree.aim path) ≠ some .directory) : ¬ NamesEntry path := by
  rintro ⟨before, last, parts, moves, down⟩
  have notDot : ¬ EndsIn path "." := by
    intro ends
    rcases ends.eq_or_eq parts with rfl | rfl <;> cases moves
  cases refuses with
  | empty empty => exact not_namesEntry_empty (empty ▸ ⟨before, last, parts, moves, down⟩)
  | directory _ directory => exact free directory
  | slash _ _ slash =>
    obtain ⟨front, -, parts'⟩ := endsWith_slash_iff.mp slash
    rw [List.singleton_inj.mp (List.append_inj_right' (parts.symm.trans parts') rfl)] at moves
    cases moves
  | dotMissing ends => exact notDot ends
  | dotFile ends => exact notDot ends

section Way

variable (way : ∀ location, tree.OnTheWay path location → tree.node? location = some .directory)

include way

/-- Where a path leads behind names whose moves are all of its moves but the last. -/
theorem walk_before {before : List String} {last : String}
    (moved : moves path = moving before ++ [last]) :
    before.foldlM tree.step (tree.start path) = .ok ((moving before).foldl goes (tree.start path)) ∧
      tree.Standing ((moving before).foldl goes (tree.start path)) ∧
      tree.aim path = goes ((moving before).foldl goes (tree.start path)) last := by
  have onTheWay : (moves path).dropLast = moving before := by rw [moved, List.dropLast_concat]
  have directories (other : Location) (passes : Passes (tree.start path) (moving before) other) :
      tree.node? other = some .directory := way other (by rwa [OnTheWay, onTheWay])
  obtain ⟨walked, standing⟩ := foldlM_step_eq (standing_start tree path) directories
  refine ⟨walked, standing, ?_⟩
  rw [aim, moved, List.foldl_append, List.foldl_cons, List.foldl_nil]

/-- The last move is made if something stands where it leads. -/
theorem step_aim {before : List String} {last : String}
    (moved : moves path = moving before ++ [last]) (lastMoves : staysPut last = false)
    (there : (tree.node? (tree.aim path)).isSome) :
    tree.step ((moving before).foldl goes (tree.start path)) last = .ok (tree.aim path) := by
  obtain ⟨-, standing, leads⟩ := walk_before way moved
  rw [leads] at there ⊢
  exact step_of_isSome standing.here lastMoves there

/-- Where a path that ends in a dot leads to no directory, its names are not followed up to the dot,
or they are followed to a file. -/
theorem refuses_of_dot {before : List String} (ends : EndsIn path ".")
    (moved : moves path = moving before)
    (notDirectory : tree.node? (tree.aim path) ≠ some .directory) :
    ∃ e, tree.Refuses path e ∧
      ((before.foldlM tree.step (tree.start path) = .error e) ∨
        e = .notDirectory ∧ before.foldlM tree.step (tree.start path) = .ok (tree.aim path)) := by
  have standing := standing_start tree path
  rcases List.eq_nil_or_concat (moving before) with nowhere | ⟨moves, last, steps⟩
  · exact absurd standing.here (by rwa [aim, moved, nowhere] at notDirectory)
  rw [List.concat_eq_append] at steps
  -- Behind the last move there may be names that stay, which a file does not let pass.
  obtain ⟨front, behind, rfl, rfl, moves, -⟩ := exists_of_moving_eq steps
  obtain ⟨walked, standing, leads⟩ := walk_before way (moved.trans steps)
  have down : last ≠ ".." := by
    rintro rfl
    exact notDirectory (leads ▸ standing.up.here)
  have along : (front ++ last :: behind).foldlM tree.step (tree.start path) =
      tree.step ((moving front).foldl goes (tree.start path)) last >>= behind.foldlM tree.step := by
    rw [List.foldlM_append, walked]
    rfl
  rw [along]
  match stands : tree.node? (tree.aim path) with
  | some .directory => exact absurd stands notDirectory
  | none =>
    rw [leads, goes_down down] at stands
    refine ⟨.missing, .dotMissing ends (by rw [leads, goes_down down, stands]), .inl ?_⟩
    rw [step_of_none standing.here moves down stands]
    rfl
  | some (.file content) =>
    refine ⟨.notDirectory, .dotFile ends ⟨content, stands⟩, ?_⟩
    rw [step_aim way (moved.trans steps) moves (by rw [stands]; rfl)]
    cases behind with
    | nil => exact .inr ⟨rfl, rfl⟩
    | cons name behind =>
      refine .inl (bind_eq_error_iff.mpr (.inr ⟨_, rfl, ?_⟩))
      rw [List.foldlM_cons, step_of_not_directory notDirectory]
      rfl

/-- A path that ends in a dot and leads to a directory is followed to it before the dot. -/
theorem walk_of_dot {before : List String} (moved : moves path = moving before)
    (directory : tree.node? (tree.aim path) = some .directory) :
    before.foldlM tree.step (tree.start path) = .ok (tree.aim path) := by
  have directories (other : Location) (passes : Passes (tree.start path) (moving before) other) :
      tree.node? other = some .directory := by
    rw [← moved] at passes
    obtain onTheWay | rfl := passes.before_or_at_end
    · exact way other onTheWay
    · exact directory
  rw [(foldlM_step_eq (standing_start tree path) directories).1, aim, moved]

/-- What is written to under a path: the entry to which it leads, or nothing for a reason. -/
inductive Targets (tree : Tree) (path : String) : Except FileError Location → Prop
  | entry (named : NamesEntry path) (free : tree.node? (tree.aim path) ≠ some .directory) :
      Targets tree path (.ok (tree.aim path))
  | refused {e : FileError} (refuses : tree.Refuses path e) : Targets tree path (.error e)

section Ending

variable {last : String} {before : List String}
  (stripped : (segments path).reverse.dropWhile String.isEmpty = last :: before)

include stripped

theorem targets_of_dot (dot : last = ".") : tree.Targets path (tree.target path) := by
  subst dot
  obtain ⟨behind, parts, someName, allEmpty⟩ := exists_of_dropWhile stripped
  have ends : EndsIn path "." := ⟨before.reverse, behind, parts, someName, allEmpty⟩
  have moved : moves path = moving before.reverse :=
    (moves_of_segments parts allEmpty).trans (List.append_nil _)
  have notEmpty := ne_empty_of_dropWhile stripped
  rw [target, if_neg (mt String.isEmpty_iff.mp notEmpty), stripped]
  dsimp only
  by_cases directory : tree.node? (tree.aim path) = some .directory
  · rw [walk_of_dot way moved directory]
    dsimp only
    rw [isDirectory_iff.mpr directory, if_neg (by simp), if_pos (by simp)]
    exact .refused (.directory notEmpty directory)
  · obtain ⟨e, refuses, failed | ⟨rfl, walked⟩⟩ := refuses_of_dot way ends moved directory
    · rw [failed]
      exact .refused refuses
    · rw [walked]
      dsimp only
      rw [if_pos (by simpa [isDirectory] using directory)]
      exact .refused refuses

theorem targets_of_ne_dot (noDot : last ≠ ".") : tree.Targets path (tree.target path) := by
  obtain ⟨behind, parts, someName, allEmpty⟩ := exists_of_dropWhile stripped
  have ends : EndsIn path last := ⟨before.reverse, behind, parts, someName, allEmpty⟩
  have lastMoves : staysPut last = false := by simp [staysPut, someName, noDot]
  have moved := moves_of_segments parts allEmpty
  rw [moving_singleton lastMoves] at moved
  obtain ⟨walked, standing, leads⟩ := walk_before way moved
  have there : tree.isDirectory ((moving before.reverse).foldl goes (tree.start path)) = true :=
    isDirectory_iff.mpr standing.here
  have notEmpty := ne_empty_of_dropWhile stripped
  rw [target, if_neg (mt String.isEmpty_iff.mp notEmpty), stripped]
  dsimp only
  rw [walked]
  dsimp only
  rw [there, if_neg (by simp)]
  by_cases up : last = ".."
  · subst up
    rw [if_pos (by simp)]
    exact .refused (.directory notEmpty (leads ▸ standing.up.here))
  rw [goes_down up] at leads
  rw [← leads]
  by_cases slash : path.endsWith "/" = true
  · rw [if_pos (by simp [slash])]
    exact .refused (.slash ends noDot slash)
  rw [if_neg (by simp [slash, noDot, up])]
  by_cases directory : tree.node? (tree.aim path) = some .directory
  · rw [if_pos (isDirectory_iff.mpr directory)]
    exact .refused (.directory notEmpty directory)
  · rw [if_neg (mt isDirectory_iff.mp directory)]
    have alone := eq_nil_of_endsWith parts allEmpty slash
    exact .entry ⟨before.reverse, last, alone ▸ parts, lastMoves, up⟩ directory

end Ending

/-- A text is written where the path leads, or it is refused. -/
theorem targets_target : tree.Targets path (tree.target path) := by
  match stripped : (segments path).reverse.dropWhile String.isEmpty with
  | [] =>
    have nowhere : moves path = [] := moving_eq_nil fun name mem => by
      have isEmpty := List.dropWhile_eq_nil_iff.mp stripped name (List.mem_reverse.mpr mem)
      rw [staysPut, isEmpty, Bool.true_or]
    rw [target, stripped]
    split
    · next empty => exact .refused (.empty (String.isEmpty_iff.mp empty))
    · next notEmpty =>
      have directory : tree.node? (tree.aim path) = some .directory := by
        rw [aim, nowhere]
        exact (standing_start tree path).here
      exact .refused (.directory (mt String.isEmpty_iff.mpr notEmpty) directory)
  | last :: before =>
    by_cases dot : last = "."
    · exact targets_of_dot way stripped dot
    · exact targets_of_ne_dot way stripped dot

/-- The text of a file is read under a path that leads to it and ends in its name. -/
theorem reads_of_namesEntry {text : String} (named : NamesEntry path)
    (holds : tree.node? (tree.aim path) = some (.file (bytesOf text))) :
    tree.Reads path (.ok text) := by
  have notEmpty : path ≠ "" := by
    rintro rfl
    exact not_namesEntry_empty named
  obtain ⟨before, last, parts, lastMoves, -⟩ := named
  have moved : moves path = moving before ++ [last] := by
    rw [moves, parts, moving_append, moving_singleton lastMoves]
  have followed : (segments path).foldlM tree.step (tree.start path) = .ok (tree.aim path) := by
    rw [parts, List.foldlM_append, (walk_before way moved).1]
    refine bind_eq_ok_iff.mpr ⟨_, rfl, ?_⟩
    rw [List.foldlM_cons, step_aim way moved lastMoves (by rw [holds]; rfl)]
    rfl
  exact .text notEmpty (foldlM_step_eq_ok_iff.mp followed) holds (textOf?_bytesOf text)

end Way

/-! ## Saving -/

/-- A text can be saved under a path. -/
structure Savable (tree : Tree) (path : String) : Prop where
  named : NamesEntry path
  clear : tree.Clear (tree.start path) (moves path).dropLast
  free : tree.node? (tree.aim path) ≠ some .directory
  apart : ¬ tree.OnTheWay path (tree.aim path)

/-- A text has been saved under a path: the file to which the path leads holds it, the directories
that were missing on the way have been made, and nothing else has changed. -/
structure Saved (tree : Tree) (path text : String) (later : Tree) : Prop where
  workingDirectory : later.workingDirectory = tree.workingDirectory
  holds : later.node? (tree.aim path) = some (.file (bytesOf text))
  reads : later.Reads path (.ok text)
  made : ∀ location, tree.OnTheWay path location → tree.node? location = none →
    later.node? location = some .directory
  kept : ∀ location, location ≠ tree.aim path →
    (tree.OnTheWay path location → tree.node? location ≠ none) →
    later.node? location = tree.node? location

section SameDirectory

variable (same : later.workingDirectory = tree.workingDirectory) (path : String)

include same

theorem start_congr : later.start path = tree.start path := by rw [start, start, same]

theorem aim_congr : later.aim path = tree.aim path := by rw [aim, aim, start_congr same]

theorem onTheWay_congr (location : Location) :
    later.OnTheWay path location ↔ tree.OnTheWay path location := by
  rw [OnTheWay, OnTheWay, start_congr same]

end SameDirectory

section Ready

variable (clear : tree.Clear (tree.start path) (moves path).dropLast)
  (furnished : tree.Furnished (tree.OnTheWay path) ready)

include clear furnished

/-- There are directories on the whole way once the missing ones have been made. -/
theorem node?_of_onTheWay {location : Location} (onTheWay : tree.OnTheWay path location) :
    ready.node? location = some .directory := by
  match stands : tree.node? location with
  | none => exact furnished.made location onTheWay stands
  | some (.file content) => exact absurd ⟨content, stands⟩ (clear location onTheWay)
  | some .directory => rw [furnished.kept location fun _ => by rw [stands]; nofun, stands]

theorem way_of_furnished (location : Location) (onTheWay : ready.OnTheWay path location) :
    ready.node? location = some .directory :=
  node?_of_onTheWay clear furnished
    ((onTheWay_congr furnished.workingDirectory path location).mp onTheWay)

/-- A directory stands where the path leads if it did before, or if it has been made on the way. -/
theorem node?_aim_ne_iff : ready.node? (ready.aim path) ≠ some .directory ↔
    tree.node? (tree.aim path) ≠ some .directory ∧ ¬ tree.OnTheWay path (tree.aim path) := by
  rw [aim_congr furnished.workingDirectory]
  by_cases onTheWay : tree.OnTheWay path (tree.aim path)
  · exact iff_of_false (not_not_intro (node?_of_onTheWay clear furnished onTheWay))
      fun both => both.2 onTheWay
  · rw [furnished.kept _ fun there => absurd there onTheWay]
    exact (and_iff_left onTheWay).symm

/-- What is written on a clear way could be saved, and it has been. -/
theorem saved_of_write {text : String} (success : ready.write path text = .ok later) :
    tree.Savable path ∧ tree.Saved path text later := by
  have same := furnished.workingDirectory
  obtain ⟨location, found, rfl⟩ := map_eq_ok_iff.mp success
  have targets := targets_target (way_of_furnished clear furnished)
  rw [found] at targets
  obtain ⟨named, free⟩ := targets
  obtain ⟨free', apart⟩ := (node?_aim_ne_iff clear furnished).mp free
  rw [aim_congr same] at free ⊢
  have put := node?_put (.file (bytesOf text)) free
  have here : (ready.put (tree.aim path) (.file (bytesOf text))).node? (tree.aim path) =
      some (.file (bytesOf text)) := by rw [put, if_pos rfl]
  have way (other : Location) (onTheWay : tree.OnTheWay path other) :
      (ready.put (tree.aim path) (.file (bytesOf text))).node? other = some .directory := by
    rw [put, if_neg, node?_of_onTheWay clear furnished onTheWay]
    rintro rfl
    exact apart onTheWay
  refine ⟨⟨named, clear, free', apart⟩, same, here, ?_, fun other onTheWay _ => way other onTheWay,
    fun other elsewhere there => ?_⟩
  · refine reads_of_namesEntry (fun other onTheWay => way other ?_) named ?_
    · exact (onTheWay_congr same path other).mp onTheWay
    · exact (congrArg _ (aim_congr same path)).trans here
  · rw [put, if_neg elsewhere]
    exact furnished.kept other there

/-- What is not written on a clear way could not be saved, and was refused for a reason. -/
theorem refuses_of_write {text : String} {e : FileError}
    (failed : ready.write path text = .error e) : ready.Refuses path e ∧ ¬ tree.Savable path := by
  have targets := targets_target (way_of_furnished clear furnished)
  rw [map_eq_error_iff.mp failed] at targets
  obtain _ | refuses := targets
  refine ⟨refuses, fun savable => refuses.not_namesEntry ?_ savable.named⟩
  exact (node?_aim_ne_iff clear furnished).mpr ⟨savable.free, savable.apart⟩

end Ready

end Tree

end SchemaGrammar.Files
