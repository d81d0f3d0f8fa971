import SchemaGrammar.Files.Tree
import SchemaGrammar.Proofs.FirstFailure
import SchemaGrammar.Proofs.PathNames

/-!
# Ways through a tree

Where names lead is told by the names alone (`goes`). Where directories stand on the whole way
(`Tree.Standing`), a path is followed to the place to which its names lead (`Tree.foldlM_step_eq`).
Making directories along a way either finds no file on it, and then there are directories on all of
it, or it stops at the first file, and what has been made by then stays
(`Tree.attempt_makeDirectories`). Whatever else stands in the tree is left as it is
(`Tree.Furnished`).
-/

namespace SchemaGrammar.Files

/-! ## Where names lead -/

/-- Follows one name, whatever stands there. -/
def goes (location : Location) (name : String) : Location :=
  if name == ".." then location.dropLast else location ++ [name]

/-- A location is passed by names that begin at another one. -/
def Passes (start : Location) (names : List String) (location : Location) : Prop :=
  ∃ more, more <+: names ∧ more.foldl goes start = location

section Passes

variable {start location : Location} {name : String} {names : List String}

theorem goes_down (down : name ≠ "..") (location : Location) :
    goes location name = location ++ [name] := if_neg (by simpa using down)

theorem passes_nil : Passes start [] location ↔ location = start := by
  constructor
  · rintro ⟨more, isPrefix, rfl⟩
    rw [List.prefix_nil.mp isPrefix, List.foldl_nil]
  · rintro rfl
    exact ⟨[], List.prefix_rfl, rfl⟩

theorem passes_start (start : Location) (names : List String) : Passes start names start :=
  ⟨[], List.nil_prefix, rfl⟩

theorem passes_cons : Passes start (name :: names) location ↔
    location = start ∨ Passes (goes start name) names location := by
  constructor
  · rintro ⟨more, within, rfl⟩
    obtain rfl | ⟨more, rfl, isPrefix⟩ := List.prefix_cons_iff.mp within
    · exact .inl rfl
    · exact .inr ⟨more, isPrefix, rfl⟩
  · rintro (rfl | ⟨more, isPrefix, rfl⟩)
    · exact passes_start location (name :: names)
    · exact ⟨name :: more, List.cons_prefix_cons.mpr ⟨rfl, isPrefix⟩, rfl⟩

/-- What is passed is passed before the last name, or it is where all names lead. -/
theorem Passes.before_or_at_end (passes : Passes start names location) :
    Passes start names.dropLast location ∨ location = names.foldl goes start := by
  obtain ⟨more, isPrefix, rfl⟩ := passes
  rcases List.eq_nil_or_concat names with rfl | ⟨before, last, rfl⟩
  · exact .inr (by rw [List.prefix_nil.mp isPrefix])
  · rw [List.concat_eq_append] at isPrefix ⊢
    obtain rfl | isPrefix := List.prefix_concat_iff.mp isPrefix
    · exact .inr rfl
    · exact .inl ⟨more, by rwa [List.dropLast_concat], rfl⟩

end Passes

namespace Tree

variable {tree later : Tree} {location start : Location} {name : String} {names : List String}

/-- Where a path leads by its names alone. -/
def aim (tree : Tree) (path : String) : Location := (moves path).foldl goes (tree.start path)

/-- A location is on the way to where a path leads, before its last name. -/
def OnTheWay (tree : Tree) (path : String) : Location → Prop :=
  Passes (tree.start path) (moves path).dropLast

/-- A file stands at a location. -/
def IsFile (tree : Tree) (location : Location) : Prop :=
  ∃ content, tree.node? location = some (.file content)

/-! ## Entries -/

theorem isDirectory_iff :
    tree.isDirectory location = true ↔ tree.node? location = some .directory := beq_iff_eq

/-- What is put where no directory stands is there afterwards, and the rest of the tree stays. -/
theorem node?_put (node : Node) (free : tree.node? location ≠ some .directory) (other : Location) :
    (tree.put location node).node? other =
      if other = location then some node else tree.node? other := by
  have below : ¬ location <+: tree.workingDirectory := fun above => free (if_pos above)
  have others (apart : other ≠ location) :
      (tree.entries.filter (·.1 != location)).lookup other = tree.entries.lookup other := by
    induction tree.entries with
    | nil => rfl
    | cons entry entries ih =>
      obtain ⟨key, node⟩ := entry
      by_cases same : key = location
      · rw [List.filter_cons_of_neg (by simp [same]), ih, List.lookup_cons,
          beq_false_of_ne (same ▸ apart)]
      · rw [List.filter_cons_of_pos (by simp [same]), List.lookup_cons, List.lookup_cons, ih]
  by_cases here : other = location
  · rw [if_pos here, here, put, node?, if_neg below, List.lookup_cons, beq_self_eq_true]
  · rw [if_neg here, node?, node?]
    refine if_congr Iff.rfl rfl ?_
    rw [put, List.lookup_cons, beq_false_of_ne here]
    exact others here

theorem isFile_put_directory (absent : tree.node? location = none) (other : Location) :
    (tree.put location .directory).IsFile other ↔ tree.IsFile other := by
  rw [IsFile, IsFile, node?_put .directory (by rw [absent]; nofun)]
  split
  · next here => rw [here, absent]; exact ⟨nofun, nofun⟩
  · exact Iff.rfl

/-- Directories stand from the root to a location. -/
def Standing (tree : Tree) (location : Location) : Prop :=
  ∀ above, above <+: location → tree.node? above = some .directory

theorem Standing.here (standing : tree.Standing location) :
    tree.node? location = some .directory := standing location List.prefix_rfl

theorem Standing.up (standing : tree.Standing location) : tree.Standing location.dropLast :=
  fun above isPrefix => standing above (isPrefix.trans (List.dropLast_prefix location))

theorem Standing.down (standing : tree.Standing location)
    (directory : tree.node? (location ++ [name]) = some .directory) :
    tree.Standing (location ++ [name]) := by
  intro above isPrefix
  obtain rfl | isPrefix := List.prefix_concat_iff.mp isPrefix
  · exact directory
  · exact standing above isPrefix

/-- Following a name to a directory is standing there. -/
theorem Standing.goes (standing : tree.Standing location)
    (directory : tree.node? (goes location name) = some .directory) :
    tree.Standing (goes location name) := by
  unfold Files.goes at directory ⊢
  split
  · exact standing.up
  · next down =>
    rw [if_neg down] at directory
    exact standing.down directory

theorem Standing.put (standing : tree.Standing location) {other : Location} (node : Node)
    (free : tree.node? other ≠ some .directory) : (tree.put other node).Standing location := by
  intro above isPrefix
  have directory := standing above isPrefix
  rw [node?_put node free, if_neg, directory]
  rintro rfl
  exact free directory

theorem standing_start (tree : Tree) (path : String) : tree.Standing (tree.start path) := by
  intro above isPrefix
  unfold start at isPrefix
  split at isPrefix
  · exact if_pos (isPrefix.trans List.nil_prefix)
  · exact if_pos isPrefix

/-! ## Following names -/

theorem step_of_not_directory (notDirectory : tree.node? location ≠ some .directory) :
    tree.step location name = .error .notDirectory := by
  rw [step, Bool.eq_false_iff.mpr (mt isDirectory_iff.mp notDirectory)]
  rfl

section Step

variable (directory : tree.node? location = some .directory)

include directory

theorem step_of_staysPut (stays : staysPut name = true) :
    tree.step location name = .ok location := by
  rw [step, isDirectory_iff.mpr directory, if_neg (by simp), if_pos stays]

theorem step_of_isSome (moves : staysPut name = false)
    (there : (tree.node? (goes location name)).isSome = true) :
    tree.step location name = .ok (goes location name) := by
  rw [step, isDirectory_iff.mpr directory, if_neg (by simp), moves, if_neg Bool.false_ne_true]
  unfold goes at there ⊢
  split
  · rfl
  · next down =>
    rw [if_neg down] at there
    rw [if_pos there]

theorem step_of_none (moves : staysPut name = false) (down : name ≠ "..")
    (missing : tree.node? (location ++ [name]) = none) :
    tree.step location name = .error .missing := by
  rw [step, isDirectory_iff.mpr directory, if_neg (by simp), moves, if_neg Bool.false_ne_true,
    if_neg (by simpa using down), missing]
  rfl

end Step

/-- Where there are directories on the whole way, names are followed to where they lead. -/
theorem foldlM_step_eq (standing : tree.Standing location)
    (way : ∀ other, Passes location (moving names) other → tree.node? other = some .directory) :
    names.foldlM tree.step location = .ok ((moving names).foldl goes location) ∧
      tree.Standing ((moving names).foldl goes location) := by
  induction names generalizing location with
  | nil => exact ⟨rfl, standing⟩
  | cons name names ih =>
    rw [List.foldlM_cons]
    cases moves : staysPut name with
    | true =>
      have same : moving (name :: names) = moving names := List.filter_cons_of_neg (by simp [moves])
      rw [same] at way ⊢
      rw [step_of_staysPut standing.here moves]
      exact ih standing way
    | false =>
      rw [moving_cons_of_moves moves] at way ⊢
      have next := way (goes location name) (passes_cons.mpr (.inr (passes_start _ _)))
      rw [step_of_isSome standing.here moves (by rw [next]; rfl)]
      exact ih (standing.goes next) fun other passes => way other (passes_cons.mpr (.inr passes))

/-! ## Making directories -/

/-- Directories have been made at new locations where nothing stood, and nothing else is changed. -/
structure Furnished (tree : Tree) (new : Location → Prop) (later : Tree) : Prop where
  workingDirectory : later.workingDirectory = tree.workingDirectory
  made : ∀ location, new location → tree.node? location = none →
    later.node? location = some .directory
  kept : ∀ location, (new location → tree.node? location ≠ none) →
    later.node? location = tree.node? location

/-- No file stands where names pass. -/
def Clear (tree : Tree) (start : Location) (names : List String) : Prop :=
  ∀ location, Passes start names location → ¬ tree.IsFile location

/-- Names lead to a file before they are at their end, or there, and directories have been made only
before. Where the last name leads, or once a directory has been made, which it may have been
earlier, the file is already there; anywhere else it is no directory. -/
inductive Obstructed (tree : Tree) (start : Location) (earlier : Prop) :
    List String → FileError → Tree → Prop
  | file {before rest : List String} {name : String} {e : FileError} {left : Tree}
      (clear : tree.Clear start before) (file : tree.IsFile (goes (before.foldl goes start) name))
      (furnished : tree.Furnished (Passes start before) left)
      (told : ((earlier ∨ rest = [] ∨ ∃ other, Passes start before other ∧ tree.node? other = none) ∧
          e = .alreadyThere) ∨
        (¬ (earlier ∨ rest = [] ∨ ∃ other, Passes start before other ∧ tree.node? other = none) ∧
          e = .notDirectory)) :
      Obstructed tree start earlier (before ++ name :: rest) e left

/-- What an attempt to make directories along names comes to. -/
inductive Attempt (tree : Tree) (start : Location) (earlier : Prop) (names : List String) :
    Tree × Except FileError Unit → Prop
  | made {later : Tree} (clear : tree.Clear start names)
      (furnished : tree.Furnished (Passes start names) later) :
      Attempt tree start earlier names (later, .ok ())
  | stopped {e : FileError} {left : Tree}
      (obstructed : tree.Obstructed start earlier names e left) :
      Attempt tree start earlier names (left, .error e)

/-- The file that names lead to is one that they pass. -/
theorem Obstructed.not_clear {earlier : Prop} {e : FileError}
    (obstructed : tree.Obstructed start earlier names e later) : ¬ tree.Clear start names := by
  obtain @⟨before, rest, name, _, _, -, file, -, -⟩ := obstructed
  intro clear
  refine clear _ ⟨before ++ [name], ⟨rest, (List.append_cons before name rest).symm⟩, ?_⟩ file
  rw [List.foldl_append, List.foldl_cons, List.foldl_nil]

section Furnished

variable {new new' : Location → Prop}

/-- It does not matter which locations with something at them count as new. -/
theorem Furnished.congr (furnished : tree.Furnished new later)
    (same : ∀ location, tree.node? location = none → (new location ↔ new' location)) :
    tree.Furnished new' later where
  workingDirectory := furnished.workingDirectory
  made location isNew absent := furnished.made location ((same location absent).mpr isNew) absent
  kept location there := furnished.kept location fun isNew absent =>
    there ((same location absent).mp isNew) absent

/-- Nothing needs to be made where something stands at all new locations. -/
theorem furnished_self (there : ∀ location, new location → tree.node? location ≠ none) :
    tree.Furnished new tree where
  workingDirectory := rfl
  made location isNew absent := absurd absent (there location isNew)
  kept _ _ := rfl

theorem Furnished.of_put (furnished : (tree.put location .directory).Furnished new later)
    (absent : tree.node? location = none) (isNew : new location) : tree.Furnished new later := by
  have free : tree.node? location ≠ some .directory := by rw [absent]; nofun
  have put := node?_put .directory free
  refine ⟨furnished.workingDirectory, fun other newOther absentOther => ?_, fun other there => ?_⟩
  · by_cases here : other = location
    · rw [furnished.kept other fun _ => by rw [put, if_pos here]; nofun, put, if_pos here]
    · exact furnished.made other newOther (by rw [put, if_neg here, absentOther])
  · have apart : other ≠ location := by
      rintro rfl
      exact there isNew absent
    have kept := furnished.kept other fun newOther => by
      rw [put, if_neg apart]
      exact there newOther
    rw [kept, put, if_neg apart]

end Furnished

theorem clear_cons (notFile : ¬ tree.IsFile start) :
    tree.Clear start (name :: names) ↔ tree.Clear (goes start name) names := by
  constructor
  · exact fun clear other passes => clear other (passes_cons.mpr (.inr passes))
  · intro clear other passes
    obtain rfl | passes := passes_cons.mp passes
    · exact notFile
    · exact clear other passes

theorem clear_put_directory (absent : tree.node? location = none) :
    (tree.put location .directory).Clear start names ↔ tree.Clear start names :=
  forall_congr' fun other => imp_congr_right fun _ => not_congr (isFile_put_directory absent other)

section Attempt

variable {earlier : Prop} {result : Tree × Except FileError Unit}
  (directory : tree.node? start = some .directory)

include directory

theorem not_isFile_of_directory : ¬ tree.IsFile start := by
  rintro ⟨content, file⟩
  rw [directory] at file
  cases file

theorem clear_nil : tree.Clear start [] := by
  intro other passes
  obtain rfl := passes_nil.mp passes
  exact not_isFile_of_directory directory

theorem furnished_nil : tree.Furnished (Passes start []) tree := by
  refine furnished_self fun other passes => ?_
  rw [passes_nil.mp passes, directory]
  nofun

/-- An attempt goes on behind a name that leads to a directory. -/
theorem Attempt.behind (attempt : tree.Attempt (goes start name) earlier names result) :
    tree.Attempt start earlier (name :: names) result := by
  have notFile := not_isFile_of_directory directory
  have onward (before : List String) (other : Location) (absent : tree.node? other = none) :
      Passes (goes start name) before other ↔ Passes start (name :: before) other := by
    refine (passes_cons.trans (or_iff_right ?_)).symm
    rintro rfl
    cases directory.symm.trans absent
  cases attempt with
  | made clear furnished =>
    exact .made ((clear_cons notFile).mpr clear) (furnished.congr (onward names))
  | stopped obstructed =>
    obtain @⟨before, rest, next, e, left, clear, file, furnished, told⟩ := obstructed
    have clear' : tree.Clear start (name :: before) := (clear_cons notFile).mpr clear
    refine .stopped (.file clear' file (furnished.congr (onward before)) ?_)
    have same : (∃ other, Passes (goes start name) before other ∧ tree.node? other = none) ↔
        ∃ other, Passes start (name :: before) other ∧ tree.node? other = none :=
      exists_congr fun other => and_congr_left (onward before other)
    rwa [← same]

/-- An attempt goes on behind a name that leads to a directory which has just been made. -/
theorem Attempt.behind_put (absent : tree.node? (goes start name) = none)
    (attempt : (tree.put (goes start name) .directory).Attempt (goes start name) True names
      result) :
    tree.Attempt start earlier (name :: names) result := by
  have notFile := not_isFile_of_directory directory
  have isNew (before : List String) : Passes start (name :: before) (goes start name) :=
    passes_cons.mpr (.inr (passes_start _ _))
  have furnish {before : List String} {later : Tree}
      (furnished : (tree.put (goes start name) .directory).Furnished
        (Passes (goes start name) before) later) :
      tree.Furnished (Passes start (name :: before)) later := by
    refine (furnished.of_put absent (passes_start _ _)).congr fun other absentOther => ?_
    refine (passes_cons.trans (or_iff_right ?_)).symm
    rintro rfl
    cases directory.symm.trans absentOther
  cases attempt with
  | made clear furnished =>
    exact .made ((clear_cons notFile).mpr ((clear_put_directory absent).mp clear))
      (furnish furnished)
  | stopped obstructed =>
    obtain ⟨clear, file, furnished, told⟩ := obstructed
    refine .stopped (.file ((clear_cons notFile).mpr ((clear_put_directory absent).mp clear))
      ((isFile_put_directory absent _).mp file) (furnish furnished) (.inl ?_))
    refine ⟨.inr (.inr ⟨_, isNew _, absent⟩), ?_⟩
    exact told.elim And.right fun never => absurd (.inl trivial) never.1

end Attempt

/-- Making directories comes to one of these. -/
theorem attempt_makeDirectories (names : List String) :
    ∀ (tree : Tree) (start : Location) (made : Bool), tree.Standing start →
      tree.Attempt start (made = true) names (tree.makeDirectories start made names) := by
  induction names with
  | nil =>
    intro tree start made standing
    exact .made (clear_nil standing.here) (furnished_nil standing.here)
  | cons name names ih =>
    intro tree start made standing
    rw [makeDirectories]
    split
    · next up =>
      obtain rfl := beq_iff_eq.mp up
      exact .behind standing.here (ih tree start.dropLast made standing.up)
    · next down =>
      have next : goes start name = start ++ [name] := if_neg down
      dsimp only
      rw [← next]
      match stands : tree.node? (goes start name) with
      | some .directory =>
        exact .behind standing.here (ih tree (goes start name) made (standing.goes stands))
      | some (.file content) =>
        refine .stopped (.file (clear_nil standing.here) ⟨content, stands⟩
          (furnished_nil standing.here) ?_)
        have nothing : ¬ ∃ other, Passes start [] other ∧ tree.node? other = none := by
          rintro ⟨other, passes, absent⟩
          cases standing.here.symm.trans (passes_nil.mp passes ▸ absent)
        have cause : (made || names.isEmpty) = true ↔ made = true ∨ names = [] := by simp
        rw [or_iff_left nothing, ← cause]
        split
        · next there => exact .inl ⟨there, rfl⟩
        · next notThere => exact .inr ⟨notThere, rfl⟩
      | none =>
        have free : tree.node? (goes start name) ≠ some .directory := by rw [stands]; nofun
        have here : (tree.put (goes start name) .directory).node? (goes start name) =
            some .directory := by rw [node?_put .directory free, if_pos rfl]
        refine .behind_put standing.here stands ?_
        simpa only [true_iff] using ih _ _ true ((standing.put .directory free).goes here)

end Tree

end SchemaGrammar.Files
