import SchemaGrammar.Files.Search
import SchemaGrammar.Proofs.NamedPaths

/-!
# Which files a pattern finds

A search goes from directory to directory, by paths. Told by locations below the working directory,
the names of a pattern lead from one to another (`Leads`): a name to the entry that it fits, any
depth to whatever lies further below, and at the working directory a shape that fits a dot may stay
there. In a sound tree a search finds the path of a file just if its names lead there
(`Tree.IsSound.finds`): one step for each kind of component, put together by recursion. The paths
that go through other special entries are found as well, but they are not the path of any entry
(`Strays`).
-/

namespace SchemaGrammar.Files

/-- The names of a pattern lead from one location to another. -/
inductive Leads : Location → List Component → Location → Prop
  | here {location : Location} : Leads location [] location
  | entry {location target : Location} {name : String} {c : Component} {rest : List Component}
      (isName : c ≠ .anyDepth) (fits : c.fits name = true)
      (behind : Leads (location ++ [name]) rest target) : Leads location (c :: rest) target
  | onward {location target : Location} {name : String} {c : Component} {rest : List Component}
      (fits : c.fits name = true) (behind : Leads (location ++ [name]) rest target) :
      Leads location (.anyDepth :: c :: rest) target
  | deeper {location target : Location} {name : String} {rest : List Component}
      (behind : Leads (location ++ [name]) (.anyDepth :: rest) target) :
      Leads location (.anyDepth :: rest) target
  | stay {target : Location} {signs : List Sign} {rest : List Component}
      (special : "." ∈ specialNames signs) (behind : Leads [] rest target) :
      Leads [] (.shape signs :: rest) target

/-- Names lead only further down. -/
theorem Leads.isPrefix {location target : Location} {components : List Component}
    (leads : Leads location components target) : location <+: target := by
  induction leads with
  | here => exact List.prefix_rfl
  | entry _ _ _ ih | onward _ _ ih | deeper _ ih => exact (List.prefix_append _ _).trans ih
  | stay _ _ ih => exact ih

/-- Any depth leads down by at least one name. -/
theorem Leads.length_lt {location target : Location} {rest : List Component}
    (leads : Leads location (.anyDepth :: rest) target) : location.length < target.length := by
  have below {name : String} (isPrefix : location ++ [name] <+: target) :
      location.length < target.length := by
    have length := isPrefix.length_le
    rw [List.length_append, List.length_singleton] at length
    exact length
  cases leads with
  | entry isName => exact absurd rfl isName
  | onward _ behind => exact below behind.isPrefix
  | deeper behind => exact below behind.isPrefix

section Search

variable {tree : Tree} {path found text : String} {signs : List Sign} {c : Component}
  {rest : List Component} {deeper : Nat}

/-- The paths that a search from a directory finds, files and directories alike. -/
def Tree.search (tree : Tree) (path : String) (components : List Component) (deeper : Nat) :
    List String :=
  (tree.reader.searchFrom false path components deeper).run

theorem run_isDirectory (tree : Tree) (path : String) :
    (tree.reader.isDirectory path).run = (tree.kind path == some .directory) := rfl

theorem mem_search_nil : found ∈ tree.search path [] deeper ↔ found = path := by
  rw [Tree.search, Reader.searchFrom]
  exact List.mem_singleton

theorem mem_search_name (isName : IsName text) :
    found ∈ tree.search path (.name text :: rest) deeper ↔
      (tree.kind (entryPath path text)).isSome ∧
        found ∈ tree.search (entryPath path text) rest tree.depth := by
  have plain : (text == "." || text == "..") = false := by
    rw [beq_false_of_ne isName.ne_dot, beq_false_of_ne isName.2.1]
    rfl
  have asked : tree.search path (.name text :: rest) deeper =
      if (tree.kind (entryPath path text)).isSome then
        tree.search (entryPath path text) rest tree.depth
      else [] := by
    rw [Tree.search, Reader.searchFrom, Reader.leads, plain]
    rfl
  rw [asked]
  split
  · next there => exact (and_iff_right there).symm
  · next missing => exact iff_of_false List.not_mem_nil fun found => missing found.1

theorem mem_search_shape : found ∈ tree.search path (.shape signs :: rest) deeper ↔
    tree.kind path = some .directory ∧
      ((∃ name ∈ specialNames signs, found ∈ tree.search (join path name) rest tree.depth) ∨
        ∃ name ∈ tree.names path, fits signs name.toList = true ∧
          found ∈ tree.search (entryPath path name) rest tree.depth) := by
  have asked : tree.search path (.shape signs :: rest) deeper =
      if tree.kind path = some .directory then
        ((specialNames signs).map
            fun name => tree.search (join path name) rest tree.depth).flatten ++
          ((((tree.names path).mergeSort (· ≤ ·)).filter fun name => fits signs name.toList).map
            fun name => tree.search (entryPath path name) rest tree.depth).flatten
      else [] := by
    rw [Tree.search, Reader.searchFrom]
    by_cases isDirectory : tree.kind path = some .directory
    · simp only [run_isDirectory, isDirectory, Bool.not_eq_eq_eq_not, Bool.not_true, bind_pure_comp,
        Id.run_bind, BEq.rfl, Bool.true_eq_false, ↓reduceIte, List.idRun_mapM, Id.run_map]
      rfl
    · simp [run_isDirectory, isDirectory]
  rw [asked]
  split
  · next isDirectory => simp [isDirectory, and_assoc]
  · next other => exact iff_of_false List.not_mem_nil fun found => other found.1

theorem mem_search_anyDepth_zero : found ∉ tree.search path (.anyDepth :: rest) 0 := by
  rw [Tree.search, Reader.searchFrom]
  exact List.not_mem_nil

/-- What any depth finds at an entry without going further down. -/
def Tree.foundAt (tree : Tree) (name entry : String) : List Component → List String
  | [] => if tree.kind entry = some .directory then [entry] else []
  | c :: more => if c.fits name then tree.search entry more tree.depth else []

theorem mem_search_anyDepth_succ : found ∈ tree.search path (.anyDepth :: rest) (deeper + 1) ↔
    tree.kind path = some .directory ∧ ∃ name ∈ tree.names path,
      found ∈ tree.foundAt name (entryPath path name) rest ∨
        found ∈ tree.search (entryPath path name) (.anyDepth :: rest) deeper := by
  have asked : tree.search path (.anyDepth :: rest) (deeper + 1) =
      if tree.kind path = some .directory then
        (((tree.names path).mergeSort (· ≤ ·)).map fun name =>
          tree.foundAt name (entryPath path name) rest ++
            tree.search (entryPath path name) (.anyDepth :: rest) deeper).flatten
      else [] := by
    rw [Tree.search, Reader.searchFrom]
    by_cases isDirectory : tree.kind path = some .directory
    · simp only [run_isDirectory, isDirectory, Bool.not_eq_eq_eq_not, Bool.not_true, bind_pure_comp,
        pure_bind, List.cons_append_fun, List.nil_append, List.nil_append_fun, id_map, Id.run_bind,
        BEq.rfl, Bool.true_eq_false, ↓reduceIte, Id.run_map, List.idRun_mapM]
      refine congrArg List.flatten (List.map_congr_left fun name _ => ?_)
      cases rest with
      | nil =>
        by_cases inside : tree.kind (entryPath path name) = some .directory <;>
          simp [run_isDirectory, Tree.foundAt, inside, Tree.search]
      | cons c more =>
        by_cases fits : c.fits name = true
        · simp only [Tree.foundAt, Tree.search, fits, ↓reduceIte, Id.run_bind, Id.run_map,
            List.append_cancel_right_eq]
          rfl
        · simp [Tree.foundAt, fits, Tree.search]
    · simp [run_isDirectory, isDirectory]
  rw [asked]
  split
  · next isDirectory => simp [isDirectory]
  · next other => exact iff_of_false List.not_mem_nil fun found => other found.1

end Search

/-! ## Paths that stray -/

/-- A path strays from the names of entries: it has dots in it and does not stay where it is. -/
def Strays (path : String) : Prop :=
  ∃ parts, path = pathOf parts ∧ (∀ part ∈ parts, IsPart part) ∧
    (∃ part ∈ parts, part = "." ∨ part = "..") ∧ ∃ part ∈ parts, part ≠ "."

section Strays

variable {tree : Tree} {path found name : String} {signs : List Sign} {location target : Location}

theorem Strays.join (strays : Strays path) (isPart : IsPart name) : Strays (join path name) := by
  obtain ⟨parts, rfl, areParts, ⟨dots, mem, special⟩, moves⟩ := strays
  refine ⟨parts ++ [name], join_pathOf (List.ne_nil_of_mem mem) areParts name, ?_,
    ⟨dots, List.mem_append_left _ mem, special⟩, ?_⟩
  · exact List.forall_mem_append.mpr ⟨areParts, List.forall_mem_singleton.mpr isPart⟩
  · exact moves.imp fun part ⟨mem, other⟩ => ⟨List.mem_append_left _ mem, other⟩

theorem Strays.entry (strays : Strays path) (isName : IsName name) :
    Strays (entryPath path name) := by
  have moves : ¬ isWorkingDirectory path = true := by
    obtain ⟨parts, rfl, areParts, -, part, mem, other⟩ := strays
    rw [isWorkingDirectory_pathOf (List.ne_nil_of_mem mem) areParts]
    exact fun dots => other (dots part mem)
  rw [entryPath, if_neg moves]
  exact strays.join isName.isPart

/-- No entry has a path that strays. -/
theorem not_strays_pathOf (notEmpty : target ≠ []) (areNames : ∀ name ∈ target, IsName name) :
    ¬ Strays (pathOf target) := by
  rintro ⟨parts, same, areParts, ⟨dots, mem, special⟩, -⟩
  obtain rfl := (pathOf_inj notEmpty (areParts_names areNames) (List.ne_nil_of_mem mem) areParts).mp
    same
  exact special.elim (areNames dots mem).ne_dot (areNames dots mem).2.1

theorem isSpecial_of_mem (mem : name ∈ specialNames signs) : name = "." ∨ name = ".." := by
  unfold specialNames at mem
  split at mem
  · have listed := List.mem_of_mem_filter mem
    simp only [List.mem_cons, List.not_mem_nil, or_false] at listed
    exact listed.symm
  · cases mem

theorem isPart_of_mem (mem : name ∈ specialNames signs) : IsPart name := by
  rcases isSpecial_of_mem mem with rfl | rfl
  · exact isPart_dot
  · exact isPart_dots

/-- A further dot stays at the working directory. -/
theorem Spells.join_dot (spells : Spells path []) : Spells (Files.join path ".") [] := by
  cases spells with
  | dots more =>
    rw [join_pathOf (by simp) (areParts_dots more), ← List.replicate_succ']
    exact .dots (more + 1)
  | names notEmpty => exact absurd rfl notEmpty

/-- A special entry strays, unless it is the working directory in itself. -/
theorem Spells.join_special (spells : Spells path location)
    (areNames : ∀ name ∈ location, IsName name) (special : name = "." ∨ name = "..") :
    Strays (Files.join path name) ∨ location = [] ∧ name = "." := by
  have isPart : IsPart name := special.elim (· ▸ isPart_dot) (· ▸ isPart_dots)
  cases spells with
  | dots more =>
    refine special.symm.imp (fun up => ?_) fun dot => ⟨rfl, dot⟩
    rw [join_pathOf (by simp) (areParts_dots more)]
    refine ⟨_, rfl, ?_, ⟨name, by simp, .inr up⟩, ⟨name, by simp, by rw [up]; decide⟩⟩
    exact List.forall_mem_append.mpr ⟨areParts_dots more, List.forall_mem_singleton.mpr isPart⟩
  | names notEmpty =>
    obtain ⟨first, more, rfl⟩ := List.exists_cons_of_ne_nil notEmpty
    rw [join_pathOf notEmpty (areParts_names areNames)]
    refine .inl ⟨_, rfl, ?_, ⟨name, by simp, special⟩, ⟨first, by simp, ?_⟩⟩
    · exact List.forall_mem_append.mpr
        ⟨areParts_names areNames, List.forall_mem_singleton.mpr isPart⟩
    · exact (areNames first List.mem_cons_self).ne_dot

/-- Names listed in a sound tree are proper names, whichever path they are asked for. -/
theorem Tree.IsSound.isName_of_mem_names (sound : tree.IsSound) (mem : name ∈ tree.names path) :
    IsName name := by
  cases located : tree.locate path with
  | error e =>
    rw [Tree.names, located] at mem
    cases mem
  | ok place =>
    obtain ⟨other, there, -, named⟩ := (mem_names_iff_of_locate located).mp mem
    exact (sound other there).1 name (List.mem_of_getLast? named)

end Strays

/-! ## Paths that are found -/

/-- A name that a pattern writes out is a proper name. -/
def Component.IsProper : Component → Prop
  | .name text => IsName text
  | .shape _ | .anyDepth => True

namespace Tree.IsSound

variable {tree : Tree} {target : Location} {content : List UInt8}

/-- A search that has strayed does not come back. -/
theorem strays_of_mem_search (sound : tree.IsSound) :
    ∀ (components : List Component) (deeper : Nat) {path found : String}, Strays path →
      (∀ c ∈ components, c.IsProper) → found ∈ tree.search path components deeper → Strays found
  | [], deeper, path, found, strays, _, mem => mem_search_nil.mp mem ▸ strays
  | .name text :: rest, deeper, path, found, strays, proper, mem => by
    obtain ⟨isName, proper⟩ := List.forall_mem_cons.mp proper
    obtain ⟨-, behind⟩ := (mem_search_name isName).mp mem
    exact sound.strays_of_mem_search rest _ (strays.entry isName) proper behind
  | .shape signs :: rest, deeper, path, found, strays, proper, mem => by
    have proper := (List.forall_mem_cons.mp proper).2
    obtain ⟨-, ⟨name, special, behind⟩ | ⟨name, listed, -, behind⟩⟩ := mem_search_shape.mp mem
    · exact sound.strays_of_mem_search rest _ (strays.join (isPart_of_mem special)) proper behind
    · have isName := sound.isName_of_mem_names listed
      exact sound.strays_of_mem_search rest _ (strays.entry isName) proper behind
  | .anyDepth :: rest, 0, path, found, strays, proper, mem => absurd mem mem_search_anyDepth_zero
  | .anyDepth :: rest, deeper + 1, path, found, strays, proper, mem => by
    obtain ⟨-, name, listed, found⟩ := mem_search_anyDepth_succ.mp mem
    have strays := strays.entry (sound.isName_of_mem_names listed)
    rcases found with found | behind
    · cases rest with
      | nil =>
        rw [Tree.foundAt] at found
        split at found
        · exact List.mem_singleton.mp found ▸ strays
        · cases found
      | cons c more =>
        rw [Tree.foundAt] at found
        split at found
        · have proper := (List.forall_mem_cons.mp (List.forall_mem_cons.mp proper).2).2
          exact sound.strays_of_mem_search more _ strays proper found
        · cases found
    · exact sound.strays_of_mem_search (.anyDepth :: rest) deeper strays proper behind
termination_by components deeper => (components.length, deeper)

end Tree.IsSound

/-- A search finds a file just if the names lead to it, from wherever its path leads. It goes deep
enough. -/
def Finds (tree : Tree) (target : Location) (components : List Component) (deeper : Nat) : Prop :=
  ∀ (path : String) (location : Location), Spells path location → (tree.below? location).isSome →
    target.length ≤ location.length + deeper →
    (pathOf target ∈ tree.search path components deeper ↔ Leads location components target)

section Finds

variable {tree : Tree} {target : Location} {content : List UInt8} {text : String}
  {signs : List Sign} {rest : List Component} {deeper : Nat}

theorem ne_nil_of_file (file : tree.below? target = some (.file content)) : target ≠ [] := by
  rintro rfl
  cases Tree.below?_nil.symm.trans file

/-- What lies above a file is there, and goes by proper names. -/
theorem Leads.isSome (sound : tree.IsSound) (file : tree.below? target = some (.file content))
    {location : Location} {components : List Component}
    (leads : Leads location components target) : (tree.below? location).isSome :=
  sound.isSome_of_prefix leads.isPrefix (file ▸ rfl)

theorem Finds.entry (file : tree.below? target = some (.file content))
    (finds : Finds tree target rest tree.depth) {location : Location} {name : String}
    (there : (tree.below? (location ++ [name])).isSome) :
    pathOf target ∈ tree.search (pathOf (location ++ [name])) rest tree.depth ↔
      Leads (location ++ [name]) rest target :=
  finds _ _ (.names (by simp)) there
    ((Tree.length_le_depth (file ▸ rfl)).trans (Nat.le_add_left _ _))

theorem finds_nil (sound : tree.IsSound) (file : tree.below? target = some (.file content)) :
    Finds tree target [] deeper := by
  intro path location spells present _
  rw [mem_search_nil, spells.pathOf_eq_iff (sound.isName present) (ne_nil_of_file file)
    (sound.isName (file ▸ rfl))]
  constructor
  · rintro rfl
    exact .here
  · intro leads
    cases leads
    rfl

theorem finds_name (sound : tree.IsSound) (file : tree.below? target = some (.file content))
    (isName : IsName text) (finds : Finds tree target rest tree.depth) :
    Finds tree target (.name text :: rest) deeper := by
  intro path location spells present _
  have areNames := sound.isName present
  have areNames' : ∀ name ∈ location ++ [text], IsName name :=
    List.forall_mem_append.mpr ⟨areNames, List.forall_mem_singleton.mpr isName⟩
  rw [mem_search_name isName, spells.entryPath_eq areNames,
    (Spells.names (by simp)).kind_isSome_iff sound areNames']
  constructor
  · rintro ⟨there, found⟩
    exact .entry nofun (beq_self_eq_true text) ((finds.entry file there).mp found)
  · intro leads
    cases leads with
    | entry _ fits behind =>
      obtain rfl := beq_iff_eq.mp fits
      have there := behind.isSome sound file
      exact ⟨there, (finds.entry file there).mpr behind⟩

theorem finds_shape (sound : tree.IsSound) (file : tree.below? target = some (.file content))
    (proper : ∀ c ∈ rest, c.IsProper) (finds : Finds tree target rest tree.depth) :
    Finds tree target (.shape signs :: rest) deeper := by
  intro path location spells present _
  have areNames := sound.isName present
  rw [mem_search_shape, spells.kind_eq_directory_iff sound areNames]
  simp only [spells.entryPath_eq areNames, spells.mem_names_iff sound areNames]
  have deep : target.length ≤ ([] : Location).length + tree.depth :=
    (Tree.length_le_depth (file ▸ rfl)).trans (Nat.le_add_left _ _)
  constructor
  · rintro ⟨-, ⟨name, special, found⟩ | ⟨name, there, fits, found⟩⟩
    · rcases spells.join_special areNames (isSpecial_of_mem special) with strays | ⟨rfl, rfl⟩
      · exact absurd (sound.strays_of_mem_search rest _ strays proper found)
          (not_strays_pathOf (ne_nil_of_file file) (sound.isName (file ▸ rfl)))
      · exact .stay special ((finds _ _ spells.join_dot present deep).mp found)
    · exact .entry nofun fits ((finds.entry file there).mp found)
  · intro leads
    cases leads with
    | entry _ fits behind =>
      have there := behind.isSome sound file
      exact ⟨sound.directory there,
        .inr ⟨_, there, fits, (finds.entry file there).mpr behind⟩⟩
    | stay special behind =>
      have found := (finds _ _ spells.join_dot present deep).mpr behind
      exact ⟨Tree.below?_nil, .inl ⟨".", special, found⟩⟩

theorem finds_anyDepth_zero : Finds tree target (.anyDepth :: rest) 0 := by
  intro path location _ _ enough
  refine iff_of_false mem_search_anyDepth_zero fun leads => ?_
  exact absurd leads.length_lt (Nat.not_lt_of_le enough)

theorem finds_anyDepth_succ (sound : tree.IsSound)
    (file : tree.below? target = some (.file content))
    (onward : ∀ c more, rest = c :: more → Finds tree target more tree.depth)
    (further : Finds tree target (.anyDepth :: rest) deeper) :
    Finds tree target (.anyDepth :: rest) (deeper + 1) := by
  intro path location spells present enough
  have areNames := sound.isName present
  have further {name : String} (there : (tree.below? (location ++ [name])).isSome) :
      pathOf target ∈ tree.search (pathOf (location ++ [name])) (.anyDepth :: rest) deeper ↔
        Leads (location ++ [name]) (.anyDepth :: rest) target := by
    refine further _ _ (.names (by simp)) there ?_
    rw [List.length_append, List.length_singleton]
    omega
  rw [mem_search_anyDepth_succ, spells.kind_eq_directory_iff sound areNames]
  simp only [spells.entryPath_eq areNames, spells.mem_names_iff sound areNames]
  constructor
  · rintro ⟨-, name, there, found | found⟩
    · cases rest with
      | nil =>
        -- Any depth at the end finds directories only.
        rw [Tree.foundAt] at found
        split at found
        · next isDirectory =>
          have areNames' := sound.isName there
          have below : Spells (pathOf (location ++ [name])) (location ++ [name]) :=
            .names (by simp)
          rw [below.kind_eq_directory_iff sound areNames'] at isDirectory
          rw [List.mem_singleton, below.pathOf_eq_iff areNames' (ne_nil_of_file file)
            (sound.isName (file ▸ rfl))] at found
          rw [← found, file] at isDirectory
          cases isDirectory
        · cases found
      | cons c more =>
        rw [Tree.foundAt] at found
        split at found
        · next fits => exact .onward fits (((onward c more rfl).entry file there).mp found)
        · cases found
    · exact .deeper ((further there).mp found)
  · intro leads
    cases leads with
    | entry isName => exact absurd rfl isName
    | @onward _ _ _ c more fits behind =>
      have there := behind.isSome sound file
      refine ⟨sound.directory there, _, there, .inl ?_⟩
      rw [Tree.foundAt, if_pos fits]
      exact ((onward c more rfl).entry file there).mpr behind
    | deeper behind =>
      have there := behind.isSome sound file
      exact ⟨sound.directory there, _, there, .inr ((further there).mpr behind)⟩

/-- In a sound tree a search finds a file just if the names lead to it. -/
theorem Tree.IsSound.finds (sound : tree.IsSound)
    (file : tree.below? target = some (.file content)) :
    ∀ (components : List Component) (deeper : Nat), (∀ c ∈ components, c.IsProper) →
      Finds tree target components deeper
  | [], _, _ => finds_nil sound file
  | .name text :: rest, _, proper =>
    have ⟨isName, proper⟩ := List.forall_mem_cons.mp proper
    finds_name sound file isName (sound.finds file rest _ proper)
  | .shape signs :: rest, _, proper =>
    have proper := (List.forall_mem_cons.mp proper).2
    finds_shape sound file proper (sound.finds file rest _ proper)
  | .anyDepth :: _, 0, _ => finds_anyDepth_zero
  | .anyDepth :: [], deeper + 1, proper =>
    finds_anyDepth_succ sound file nofun (sound.finds file _ deeper proper)
  | .anyDepth :: c :: more, deeper + 1, proper =>
    have proper' := (List.forall_mem_cons.mp (List.forall_mem_cons.mp proper).2).2
    have behind := sound.finds file more tree.depth proper'
    finds_anyDepth_succ sound file (fun _ _ same => (List.cons.inj same).2 ▸ behind)
      (sound.finds file _ deeper proper)
termination_by components deeper => (components.length, deeper)

/-- A pattern finds a file just if its names lead there from the working directory. -/
theorem Tree.IsSound.mem_found_iff (sound : tree.IsSound)
    (file : tree.below? target = some (.file content)) {pattern : Pattern}
    (relative : pattern.fromRoot = false) (notOnlyDirectories : pattern.onlyDirectories = false)
    (proper : ∀ c ∈ pattern.components, c.IsProper) :
    pathOf target ∈ (tree.reader.search pattern).run ↔ Leads [] pattern.components target := by
  rw [Reader.search, relative, notOnlyDirectories]
  split
  · next none =>
    rw [List.isEmpty_iff.mp none]
    refine iff_of_false List.not_mem_nil fun leads => ne_nil_of_file file ?_
    cases leads
    rfl
  · exact sound.finds file pattern.components tree.depth proper "." [] spells_dot
      (Tree.below?_nil ▸ rfl)
      ((Tree.length_le_depth (file ▸ rfl)).trans (Nat.le_add_left _ _))

end Finds

end SchemaGrammar.Files
