import SchemaGrammar.Proofs.FileTree

/-!
# The paths of entries

An entry below the working directory has a path, which is the names that lead to it between slashes
(`pathOf`); dots are a path of the working directory (`Spells`). In a tree whose entries lie in
directories and have proper names (`Tree.IsSound`) a path leads to the location that it spells
(`Spells.locate_eq_ok_iff`), and what is found there goes by its own path (`Spells.entryPath_eq`).
-/

namespace SchemaGrammar.Files

/-- What may stand between the slashes of a path. -/
def IsPart (part : String) : Prop := part ≠ "" ∧ '/' ∉ part.toList

instance (part : String) : Decidable (IsPart part) := inferInstanceAs (Decidable (_ ∧ _))

/-- What may be the name of an entry. -/
def IsName (name : String) : Prop := staysPut name = false ∧ name ≠ ".." ∧ '/' ∉ name.toList

instance (name : String) : Decidable (IsName name) := inferInstanceAs (Decidable (_ ∧ _ ∧ _))

/-- The path of the names that lead somewhere. -/
def pathOf (parts : List String) : String := "/".intercalate parts

section Parts

variable {parts others : List String} {part name : String}

theorem isPart_dot : IsPart "." := by decide +kernel

theorem isPart_dots : IsPart ".." := by decide +kernel

theorem IsName.isPart (isName : IsName name) : IsPart name := by
  obtain ⟨moves, -, noSlash⟩ := isName
  refine ⟨fun empty => ?_, noSlash⟩
  rw [empty, staysPut] at moves
  exact absurd moves (by decide)

theorem IsName.ne_dot (isName : IsName name) : name ≠ "." := by
  rintro rfl
  exact absurd isName (by decide +kernel)

theorem pathOf_append (notEmpty : parts ≠ []) (part : String) :
    pathOf (parts ++ [part]) = pathOf parts ++ "/" ++ part := by
  rw [pathOf, String.intercalate_append_of_ne_nil notEmpty (List.cons_ne_nil part []),
    String.intercalate_singleton, pathOf]

/-- The parts of a path can be read off it. -/
theorem segments_pathOf (notEmpty : parts ≠ []) (areParts : ∀ part ∈ parts, IsPart part) :
    segments (pathOf parts) = parts :=
  segments_intercalate notEmpty fun part mem => (areParts part mem).2

theorem pathOf_inj (notEmpty : parts ≠ []) (areParts : ∀ part ∈ parts, IsPart part)
    (notEmpty' : others ≠ []) (areParts' : ∀ part ∈ others, IsPart part) :
    pathOf parts = pathOf others ↔ parts = others := by
  refine ⟨fun same => ?_, congrArg pathOf⟩
  rw [← segments_pathOf notEmpty areParts, same, segments_pathOf notEmpty' areParts']

/-- A path does not end in a slash. -/
theorem getLast?_pathOf (notEmpty : parts ≠ []) (areParts : ∀ part ∈ parts, IsPart part) :
    ∃ c, (pathOf parts).toList.getLast? = some c ∧ c ≠ '/' := by
  obtain ⟨before, last, rfl⟩ := List.eq_nil_or_concat parts |>.resolve_left notEmpty
  rw [List.concat_eq_append] at areParts ⊢
  obtain ⟨hasChars, noSlash⟩ := areParts last (by simp)
  obtain ⟨c, ends⟩ := Option.isSome_iff_exists.mp
    (List.getLast?_isSome.mpr (mt String.toList_eq_nil_iff.mp hasChars))
  have inLast : c ∈ last.toList := List.mem_of_getLast? ends
  refine ⟨c, ?_, fun same => noSlash (same ▸ inLast)⟩
  cases before with
  | nil => rwa [List.nil_append, pathOf, String.intercalate_singleton]
  | cons first more =>
    rw [pathOf_append (List.cons_ne_nil first more), String.toList_append, List.getLast?_append,
      ends, Option.some_or]

/-- A path does not begin with a slash. -/
theorem head?_pathOf (notEmpty : parts ≠ []) (areParts : ∀ part ∈ parts, IsPart part) :
    ∃ c, (pathOf parts).toList.head? = some c ∧ c ≠ '/' := by
  obtain ⟨first, more, rfl⟩ := List.exists_cons_of_ne_nil notEmpty
  obtain ⟨hasChars, noSlash⟩ := areParts first List.mem_cons_self
  obtain ⟨c, rest, chars⟩ := List.exists_cons_of_ne_nil (mt String.toList_eq_nil_iff.mp hasChars)
  refine ⟨c, ?_, fun same => noSlash ?_⟩
  · rw [pathOf, Text.toList_intercalate_cons, chars, List.cons_append, List.head?_cons]
  · rw [chars, same]
    exact List.mem_cons_self

theorem pathOf_ne_empty (notEmpty : parts ≠ []) (areParts : ∀ part ∈ parts, IsPart part) :
    pathOf parts ≠ "" := by
  intro empty
  obtain ⟨c, begins, -⟩ := head?_pathOf notEmpty areParts
  rw [empty] at begins
  cases begins

theorem endsWith_pathOf (notEmpty : parts ≠ []) (areParts : ∀ part ∈ parts, IsPart part) :
    (pathOf parts).endsWith "/" = false := by
  refine Bool.eq_false_iff.mpr fun slash => ?_
  obtain ⟨before, -, same⟩ := endsWith_slash_iff.mp slash
  rw [segments_pathOf notEmpty areParts] at same
  exact (areParts "" (by simp [same])).1 rfl

theorem startsWith_pathOf (notEmpty : parts ≠ []) (areParts : ∀ part ∈ parts, IsPart part) :
    (pathOf parts).startsWith "/" = false := by
  refine Bool.eq_false_iff.mpr fun slash => ?_
  obtain ⟨second, more, same⟩ := startsWith_slash_iff.mp slash
  rw [segments_pathOf notEmpty areParts] at same
  exact (areParts "" (by simp [same])).1 rfl

/-- A name below a path comes behind its parts. -/
theorem join_pathOf (notEmpty : parts ≠ []) (areParts : ∀ part ∈ parts, IsPart part)
    (name : String) : join (pathOf parts) name = pathOf (parts ++ [name]) := by
  have hasChars : (pathOf parts).isEmpty = false :=
    Bool.eq_false_iff.mpr (mt String.isEmpty_iff.mp (pathOf_ne_empty notEmpty areParts))
  rw [join, hasChars, endsWith_pathOf notEmpty areParts, pathOf_append notEmpty]
  rfl

/-- Only dots spell the working directory. -/
theorem isWorkingDirectory_pathOf (notEmpty : parts ≠ []) (areParts : ∀ part ∈ parts, IsPart part) :
    isWorkingDirectory (pathOf parts) = true ↔ ∀ part ∈ parts, part = "." := by
  rw [isWorkingDirectory, segments_pathOf notEmpty areParts, Bool.and_eq_true, List.all_eq_true]
  constructor
  · rintro ⟨-, stay⟩ part mem
    have here := stay part mem
    rw [staysPut, Bool.or_eq_true, String.isEmpty_iff, beq_iff_eq] at here
    exact here.resolve_left (areParts part mem).1
  · intro dots
    obtain ⟨first, more, rfl⟩ := List.exists_cons_of_ne_nil notEmpty
    refine ⟨?_, fun part mem => ?_⟩
    · rw [dots first List.mem_cons_self]
      rfl
    · rw [dots part mem]
      rfl

theorem start_pathOf (tree : Tree) (notEmpty : parts ≠ [])
    (areParts : ∀ part ∈ parts, IsPart part) :
    tree.start (pathOf parts) = tree.workingDirectory := by
  rw [Tree.start, startsWith_pathOf notEmpty areParts]
  rfl

end Parts

/-! ## Sound trees -/

namespace Tree

/-- What stands at a location below the working directory. -/
def below? (tree : Tree) (location : Location) : Option Node :=
  tree.node? (tree.workingDirectory ++ location)

/-- Everything in a tree is led to by proper names and lies in a directory. -/
def IsSound (tree : Tree) : Prop :=
  ∀ location ∈ tree.locations,
    (∀ name ∈ location, IsName name) ∧ tree.node? location.dropLast = some .directory

instance (tree : Tree) : Decidable tree.IsSound :=
  inferInstanceAs (Decidable (∀ location ∈ tree.locations, _ ∧ _))

section Sound

variable {tree : Tree} {location below : Location} {name : String}

theorem mem_wayTo_iff : location ∈ wayTo below ↔ location <+: below := by
  rw [wayTo, List.mem_map]
  constructor
  · rintro ⟨count, -, rfl⟩
    exact List.take_prefix count below
  · intro isPrefix
    refine ⟨location.length, List.mem_range.mpr (Nat.lt_succ_of_le isPrefix.length_le), ?_⟩
    exact (List.prefix_iff_eq_take.mp isPrefix).symm

theorem isSome_node?_iff : (tree.node? location).isSome ↔ location ∈ tree.locations := by
  rw [locations, List.mem_append, mem_wayTo_iff, node?]
  split
  · next above => exact iff_of_true rfl (.inl above)
  · next notAbove =>
    rw [or_iff_right notAbove, List.lookup_isSome_iff, List.mem_map]
    exact exists_congr fun entry => and_congr_right fun _ => beq_iff_eq.trans eq_comm

theorem below?_nil : tree.below? [] = some .directory := by
  rw [below?, List.append_nil]
  exact if_pos List.prefix_rfl

theorem below?_append (location : Location) (name : String) :
    tree.below? (location ++ [name]) =
      tree.node? (tree.workingDirectory ++ location ++ [name]) := by
  rw [below?, List.append_assoc]

/-- The names that lead to an entry are proper names. -/
theorem IsSound.isName (sound : tree.IsSound) (present : (tree.below? location).isSome) :
    ∀ name ∈ location, IsName name :=
  fun name mem => (sound _ (isSome_node?_iff.mp present)).1 name (List.mem_append_right _ mem)

/-- What an entry lies in is a directory. -/
theorem IsSound.directory (sound : tree.IsSound)
    (present : (tree.below? (location ++ [name])).isSome) :
    tree.below? location = some .directory := by
  rw [below?_append] at present
  have held := (sound _ (isSome_node?_iff.mp present)).2
  rwa [List.dropLast_concat] at held

/-- Whatever lies above an entry is there. -/
theorem IsSound.isSome_of_prefix (sound : tree.IsSound) (isAbove : location <+: below)
    (present : (tree.below? below).isSome) : (tree.below? location).isSome := by
  obtain ⟨more, rfl⟩ := isAbove
  induction more using List.reverseRecOn with
  | nil => rwa [List.append_nil] at present
  | append_singleton more last ih =>
    rw [← List.append_assoc] at present
    refine ih ?_
    rw [sound.directory present]
    rfl

/-- An entry is not deeper than the tree. -/
theorem length_le_depth (present : (tree.below? location).isSome) :
    location.length ≤ tree.depth := by
  have deepest (locations : List Location) (start : Nat) :
      start ≤ locations.foldl (fun deepest location => max deepest location.length) start ∧
        ∀ location ∈ locations, location.length ≤
          locations.foldl (fun deepest location => max deepest location.length) start := by
    induction locations generalizing start with
    | nil => exact ⟨le_rfl, nofun⟩
    | cons first locations ih =>
      obtain ⟨fromStart, each⟩ := ih (max start first.length)
      refine ⟨(le_max_left _ _).trans fromStart, List.forall_mem_cons.mpr ⟨?_, each⟩⟩
      exact (le_max_right _ _).trans fromStart
  have fromRoot := (deepest tree.locations 0).2 _ (isSome_node?_iff.mp present)
  rw [List.length_append] at fromRoot
  exact (Nat.le_add_left _ _).trans fromRoot

/-- A proper name leads from a directory to the entry of that name. -/
theorem step_eq_ok_iff (isName : IsName name) {next : Location} :
    tree.step location name = .ok next ↔ tree.node? location = some .directory ∧
      (tree.node? (location ++ [name])).isSome ∧ next = location ++ [name] := by
  obtain ⟨moves, down, -⟩ := isName
  by_cases directory : tree.node? location = some .directory
  · cases stands : tree.node? (location ++ [name]) with
    | none => simp [step_of_none directory moves down stands]
    | some node =>
      rw [step_of_isSome directory moves (by rw [goes_down down, stands]; rfl), goes_down down]
      simp [directory, eq_comm]
  · simp [step_of_not_directory directory, directory]

/-- Names are followed from the working directory to the location that they make, if something
stands there. -/
theorem IsSound.foldlM_step_eq_ok_iff (sound : tree.IsSound)
    (areNames : ∀ name ∈ location, IsName name) {next : Location} :
    location.foldlM tree.step tree.workingDirectory = .ok next ↔
      (tree.below? location).isSome ∧ next = tree.workingDirectory ++ location := by
  induction location using List.reverseRecOn generalizing next with
  | nil =>
    rw [below?_nil, List.append_nil]
    exact ⟨fun same => ⟨rfl, (Except.ok.inj same).symm⟩, fun ⟨_, same⟩ => same ▸ rfl⟩
  | append_singleton location name ih =>
    have isName := areNames name (by simp)
    rw [List.foldlM_append, bind_eq_ok_iff, below?_append, ← List.append_assoc]
    simp only [ih fun other mem => areNames other (List.mem_append_left _ mem), List.foldlM_cons,
      List.foldlM_nil, bind_pure]
    constructor
    · rintro ⟨_, ⟨-, rfl⟩, stepped⟩
      exact ((step_eq_ok_iff isName).mp stepped).2
    · rintro ⟨present, rfl⟩
      have isDirectory := sound.directory (below?_append location name ▸ present)
      exact ⟨_, ⟨isDirectory ▸ rfl, rfl⟩,
        (step_eq_ok_iff isName).mpr ⟨isDirectory, present, rfl⟩⟩

end Sound

end Tree

/-! ## Spelling locations -/

/-- A path spells a location: by the names that lead there, or by dots if it is the working
directory. -/
inductive Spells : String → Location → Prop
  | dots (more : Nat) : Spells (pathOf (List.replicate (more + 1) ".")) []
  | names {location : Location} (notEmpty : location ≠ []) : Spells (pathOf location) location

theorem spells_dot : Spells "." [] := by
  have dot := Spells.dots 0
  rwa [List.replicate_one, pathOf, String.intercalate_singleton] at dot

section Spells

variable {tree : Tree} {path : String} {location other : Location} {name : String}

theorem areParts_dots (more : Nat) : ∀ part ∈ List.replicate (more + 1) ".", IsPart part :=
  fun _ mem => List.eq_of_mem_replicate mem ▸ isPart_dot

theorem areParts_names (areNames : ∀ name ∈ location, IsName name) :
    ∀ part ∈ location, IsPart part :=
  fun name mem => (areNames name mem).isPart

/-- The names of an entry spell nothing else. -/
theorem Spells.pathOf_eq_iff (spells : Spells path location)
    (areNames : ∀ name ∈ location, IsName name) (notEmpty : other ≠ [])
    (areNames' : ∀ name ∈ other, IsName name) : pathOf other = path ↔ other = location := by
  cases spells with
  | dots more =>
    rw [pathOf_inj notEmpty (areParts_names areNames') (by simp) (areParts_dots more)]
    refine iff_of_false (fun same => ?_) notEmpty
    have first : "." ∈ other := same ▸ List.mem_cons_self
    exact (areNames' _ first).ne_dot rfl
  | names notEmpty' =>
    exact pathOf_inj notEmpty (areParts_names areNames') notEmpty' (areParts_names areNames)

/-- What is found in a directory goes by the names that lead there. -/
theorem Spells.entryPath_eq (spells : Spells path location)
    (areNames : ∀ name ∈ location, IsName name) (name : String) :
    entryPath path name = pathOf (location ++ [name]) := by
  cases spells with
  | dots more =>
    have stays : isWorkingDirectory (pathOf (List.replicate (more + 1) ".")) = true :=
      (isWorkingDirectory_pathOf (by simp) (areParts_dots more)).mpr
        fun _ mem => List.eq_of_mem_replicate mem
    rw [entryPath, if_pos stays, List.nil_append, pathOf, String.intercalate_singleton]
  | names notEmpty =>
    have moves : ¬ isWorkingDirectory (pathOf location) = true := by
      rw [isWorkingDirectory_pathOf notEmpty (areParts_names areNames)]
      obtain ⟨first, more, rfl⟩ := List.exists_cons_of_ne_nil notEmpty
      exact fun dots => (areNames first List.mem_cons_self).ne_dot (dots first List.mem_cons_self)
    rw [entryPath, if_neg moves, join_pathOf notEmpty (areParts_names areNames)]

theorem foldlM_step_dots (tree : Tree) (count : Nat) :
    (List.replicate count ".").foldlM tree.step tree.workingDirectory =
      .ok tree.workingDirectory := by
  have directory : tree.node? tree.workingDirectory = some .directory := if_pos List.prefix_rfl
  induction count with
  | zero => rfl
  | succ count ih =>
    rw [List.replicate_succ, List.foldlM_cons, Tree.step_of_staysPut directory rfl]
    exact ih

/-- A path leads to the location that it spells, if something stands there. -/
theorem Spells.locate_eq_ok_iff (spells : Spells path location) (sound : tree.IsSound)
    (areNames : ∀ name ∈ location, IsName name) {place : Location} :
    tree.locate path = .ok place ↔
      (tree.below? location).isSome ∧ place = tree.workingDirectory ++ location := by
  have locate {parts : List String} (notEmpty : parts ≠ [])
      (areParts : ∀ part ∈ parts, IsPart part) :
      tree.locate (pathOf parts) = parts.foldlM tree.step tree.workingDirectory := by
    rw [Tree.locate, segments_pathOf notEmpty areParts, start_pathOf tree notEmpty areParts, if_neg]
    exact mt String.isEmpty_iff.mp (pathOf_ne_empty notEmpty areParts)
  cases spells with
  | dots more =>
    rw [locate (by simp) (areParts_dots more), foldlM_step_dots, Tree.below?_nil, List.append_nil]
    exact ⟨fun same => ⟨rfl, (Except.ok.inj same).symm⟩, fun ⟨_, same⟩ => same ▸ rfl⟩
  | names notEmpty =>
    rw [locate notEmpty (areParts_names areNames), sound.foldlM_step_eq_ok_iff areNames]

theorem Spells.kind_isSome_iff (spells : Spells path location) (sound : tree.IsSound)
    (areNames : ∀ name ∈ location, IsName name) :
    (tree.kind path).isSome ↔ (tree.below? location).isSome := by
  rw [Tree.kind]
  constructor
  · intro there
    split at there
    · cases there
    · next located => exact ((spells.locate_eq_ok_iff sound areNames).mp located).1
  · intro present
    rw [(spells.locate_eq_ok_iff sound areNames).mpr ⟨present, rfl⟩]
    rfl

theorem Spells.kind_eq_directory_iff (spells : Spells path location) (sound : tree.IsSound)
    (areNames : ∀ name ∈ location, IsName name) :
    tree.kind path = some .directory ↔ tree.below? location = some .directory := by
  rw [Tree.kind]
  constructor
  · intro there
    split at there
    · cases there
    · next located =>
      obtain ⟨-, rfl⟩ := (spells.locate_eq_ok_iff sound areNames).mp located
      split at there
      · next isDirectory => exact beq_iff_eq.mp isDirectory
      · cases there
  · intro isDirectory
    rw [(spells.locate_eq_ok_iff sound areNames).mpr ⟨isDirectory ▸ rfl, rfl⟩]
    exact congrArg some (if_pos (beq_iff_eq.mpr isDirectory))

/-- A name is listed for a path if an entry of that name lies where the path leads. -/
theorem mem_names_iff_of_locate {place : Location} (located : tree.locate path = .ok place) :
    name ∈ tree.names path ↔
      ∃ other ∈ tree.locations, other.dropLast = place ∧ other.getLast? = some name := by
  rw [Tree.names, located]
  simp only [List.mem_eraseDups, List.mem_filterMap, beq_iff_eq]
  refine exists_congr fun other => and_congr_right fun _ => ?_
  split
  · next inside => exact (and_iff_right inside).symm
  · next outside => exact iff_of_false nofun fun both => outside both.1

/-- The names in a directory are those of the entries in it. -/
theorem Spells.mem_names_iff (spells : Spells path location) (sound : tree.IsSound)
    (areNames : ∀ name ∈ location, IsName name) :
    name ∈ tree.names path ↔ (tree.below? (location ++ [name])).isSome := by
  rw [Tree.below?_append, Tree.isSome_node?_iff]
  constructor
  · intro listed
    cases located : tree.locate path with
    | error e =>
      rw [Tree.names, located] at listed
      cases listed
    | ok place =>
      obtain ⟨-, rfl⟩ := (spells.locate_eq_ok_iff sound areNames).mp located
      obtain ⟨other, mem, inside, named⟩ := (mem_names_iff_of_locate located).mp listed
      have whole := List.dropLast_append_getLast? name named
      rw [inside] at whole
      exact whole ▸ mem
  · intro present
    have there : (tree.below? location).isSome := by
      have stands := Tree.isSome_node?_iff.mpr present
      rw [sound.directory ((Tree.below?_append location name).symm ▸ stands)]
      rfl
    have located := (spells.locate_eq_ok_iff sound areNames).mpr ⟨there, rfl⟩
    exact (mem_names_iff_of_locate located).mpr
      ⟨_, present, List.dropLast_concat, List.getLast?_concat⟩

end Spells

end SchemaGrammar.Files
