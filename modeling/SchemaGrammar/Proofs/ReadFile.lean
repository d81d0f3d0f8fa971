import SchemaGrammar.Proofs.FileTree

/-!
# What is read under a path

The names of a path are followed from directory to directory (`Tree.Enters`), one after the other
(`Tree.Follows`), and the first one that is not followed says why (`Tree.Stops`). A text is read of
the file to which all of them lead, if its bytes encode one. What else there is to tell of reading is
how it fails (`Tree.Reads`), and that something stands wherever a path leads
(`Tree.isSome_of_follows`).
-/

namespace SchemaGrammar.Files.Tree

variable {tree : Tree} {location next : Location} {name path : String} {names : List String}

/-! ## Following names -/

/-- A name of a path leads from a directory to another place. -/
inductive Enters (tree : Tree) (location : Location) : String → Location → Prop
  | stay {name : String} (directory : tree.node? location = some .directory)
      (stays : name = "" ∨ name = ".") : Enters tree location name location
  | up (directory : tree.node? location = some .directory) :
      Enters tree location ".." location.dropLast
  | down {name : String} {node : Node} (directory : tree.node? location = some .directory)
      (moves : name ≠ "" ∧ name ≠ "." ∧ name ≠ "..")
      (there : tree.node? (location ++ [name]) = some node) :
      Enters tree location name (location ++ [name])

/-- Why a name of a path leads nowhere. -/
inductive Stops (tree : Tree) (location : Location) : String → FileError → Prop
  | notDirectory {name : String} (other : tree.node? location ≠ some .directory) :
      Stops tree location name .notDirectory
  | missing {name : String} (directory : tree.node? location = some .directory)
      (moves : name ≠ "" ∧ name ≠ "." ∧ name ≠ "..")
      (nothing : tree.node? (location ++ [name]) = none) : Stops tree location name .missing

/-- Names lead from one place to another, each from where the names before it lead. -/
inductive Follows (tree : Tree) : Location → List String → Location → Prop
  | here {location : Location} : Follows tree location [] location
  | step {location next target : Location} {name : String} {names : List String}
      (enters : tree.Enters location name next) (follows : Follows tree next names target) :
      Follows tree location (name :: names) target

theorem staysPut_iff : staysPut name = true ↔ name = "" ∨ name = "." := by
  rw [staysPut, Bool.or_eq_true, String.isEmpty_iff, beq_iff_eq]

theorem moves_iff : ¬ staysPut name = true ∧ ¬ (name == "..") = true ↔
    name ≠ "" ∧ name ≠ "." ∧ name ≠ ".." := by
  rw [staysPut_iff, not_or, beq_iff_eq, and_assoc]

theorem step_eq_ok_iff_enters :
    tree.step location name = .ok next ↔ tree.Enters location name next := by
  constructor
  · intro stepped
    unfold step at stepped
    split_ifs at stepped with other stays up there
    all_goals
      have directory : tree.node? location = some .directory := by
        simpa [isDirectory] using other
    · obtain rfl := Except.ok.inj stepped
      exact .stay directory (staysPut_iff.mp stays)
    · obtain rfl := Except.ok.inj stepped
      obtain rfl := beq_iff_eq.mp up
      exact .up directory
    · obtain rfl := Except.ok.inj stepped
      obtain ⟨node, stands⟩ := Option.isSome_iff_exists.mp there
      exact .down directory (moves_iff.mp ⟨stays, up⟩) stands
  · rintro (⟨directory, stays⟩ | ⟨directory⟩ | ⟨directory, moves, stands⟩)
    · exact step_of_staysPut directory (staysPut_iff.mpr stays)
    · rw [step, isDirectory_iff.mpr directory]
      rfl
    · obtain ⟨stays, up⟩ := moves_iff.mpr moves
      rw [step, isDirectory_iff.mpr directory, if_neg (by simp), if_neg stays, if_neg up, stands]
      rfl

theorem step_eq_error_iff_stops {e : FileError} :
    tree.step location name = .error e ↔ tree.Stops location name e := by
  constructor
  · intro stopped
    unfold step at stopped
    split_ifs at stopped with other stays up there
    all_goals
      obtain rfl := Except.error.inj stopped
    · exact .notDirectory (by simpa [isDirectory] using other)
    · have directory : tree.node? location = some .directory := by
        simpa [isDirectory] using other
      exact .missing directory (moves_iff.mp ⟨stays, up⟩) (Option.not_isSome_iff_eq_none.mp there)
  · rintro (other | ⟨directory, moves, nothing⟩)
    · exact step_of_not_directory other
    · obtain ⟨stays, up⟩ := moves_iff.mpr moves
      rw [step, isDirectory_iff.mpr directory, if_neg (by simp), if_neg stays, if_neg up, nothing]
      rfl

theorem foldlM_step_eq_ok_iff {target : Location} :
    names.foldlM tree.step location = .ok target ↔ tree.Follows location names target := by
  induction names generalizing location with
  | nil =>
    constructor
    · intro same
      exact Except.ok.inj same ▸ .here
    · rintro ⟨⟩
      rfl
  | cons name names ih =>
    rw [List.foldlM_cons, bind_eq_ok_iff]
    simp only [step_eq_ok_iff_enters, ih]
    constructor
    · rintro ⟨next, enters, follows⟩
      exact .step enters follows
    · rintro (_ | ⟨enters, follows⟩)
      exact ⟨_, enters, follows⟩

/-! ## What stands where names lead -/

/-- Something stands at a location, and directories stand above it. -/
structure Stands (tree : Tree) (location : Location) : Prop where
  there : (tree.node? location).isSome
  above : tree.Standing location.dropLast

theorem Standing.stands (standing : tree.Standing location) : tree.Stands location :=
  ⟨by rw [standing.here]; rfl, standing.up⟩

theorem Stands.standing (stands : tree.Stands location)
    (directory : tree.node? location = some .directory) : tree.Standing location := by
  rcases List.eq_nil_or_concat location with rfl | ⟨before, name, rfl⟩
  · intro above isPrefix
    rwa [List.prefix_nil.mp isPrefix]
  · rw [List.concat_eq_append] at stands directory ⊢
    have above := stands.above
    rw [List.dropLast_concat] at above
    exact above.down directory

theorem Enters.stands (enters : tree.Enters location name next) (stands : tree.Stands location) :
    tree.Stands next := by
  cases enters with
  | stay directory stays => exact stands
  | up directory => exact (stands.standing directory).up.stands
  | down directory moves there =>
    refine ⟨by rw [there]; rfl, ?_⟩
    rw [List.dropLast_concat]
    exact stands.standing directory

theorem Follows.stands (follows : tree.Follows location names next)
    (stands : tree.Stands location) : tree.Stands next := by
  induction follows with
  | here => exact stands
  | step enters _ ih => exact ih (enters.stands stands)

/-! ## Reading -/

/-- What reading the file under a path comes to. -/
inductive Reads (tree : Tree) (path : String) : Except FileError String → Prop
  | empty (empty : path = "") : Reads tree path (.error .missing)
  | stopped {before after : List String} {name : String} {location : Location} {e : FileError}
      (notEmpty : path ≠ "") (names : segments path = before ++ name :: after)
      (follows : tree.Follows (tree.start path) before location)
      (stops : tree.Stops location name e) : Reads tree path (.error e)
  | directory {location : Location} (notEmpty : path ≠ "")
      (follows : tree.Follows (tree.start path) (segments path) location)
      (directory : tree.node? location = some .directory) : Reads tree path (.error .isDirectory)
  | notText {location : Location} {content : List UInt8} (notEmpty : path ≠ "")
      (follows : tree.Follows (tree.start path) (segments path) location)
      (file : tree.node? location = some (.file content)) (notText : textOf? content = none) :
      Reads tree path (.error .notText)
  | text {location : Location} {content : List UInt8} {text : String} (notEmpty : path ≠ "")
      (follows : tree.Follows (tree.start path) (segments path) location)
      (file : tree.node? location = some (.file content)) (isText : textOf? content = some text) :
      Reads tree path (.ok text)

theorem locate_eq_ok_iff (notEmpty : path ≠ "") : tree.locate path = .ok location ↔
    tree.Follows (tree.start path) (segments path) location := by
  rw [locate, if_neg (mt String.isEmpty_iff.mp notEmpty), foldlM_step_eq_ok_iff]

theorem reads_read (tree : Tree) (path : String) : tree.Reads path (tree.read path) := by
  by_cases empty : path = ""
  · subst empty
    exact .empty rfl
  rw [read]
  cases located : tree.locate path with
  | error e =>
    rw [locate, if_neg (mt String.isEmpty_iff.mp empty), foldlM_eq_error_iff] at located
    obtain ⟨before, name, after, location, names, reached, stopped⟩ := located
    exact .stopped empty names (foldlM_step_eq_ok_iff.mp reached)
      (step_eq_error_iff_stops.mp stopped)
  | ok location =>
    have follows := (locate_eq_ok_iff empty).mp located
    have stands := follows.stands (standing_start tree path).stands
    dsimp only
    split
    · next content file =>
      split
      · next text isText => exact .text empty follows file isText
      · next notText => exact .notText empty follows file notText
    · next directory => exact .directory empty follows directory
    · next nothing => exact absurd stands.there (by rw [nothing]; nofun)

/-- Reading comes to what the names of the path and the entries of the tree say. -/
theorem read_eq_iff {result : Except FileError String} :
    tree.read path = result ↔ tree.Reads path result := by
  constructor
  · rintro rfl
    exact reads_read tree path
  · rintro (rfl | ⟨notEmpty, names, follows, stops⟩ | ⟨notEmpty, follows, directory⟩ |
      ⟨notEmpty, follows, file, notText⟩ | ⟨notEmpty, follows, file, isText⟩)
    · rfl
    · have stopped := foldlM_eq_error_iff.mpr ⟨_, _, _, _, names,
        foldlM_step_eq_ok_iff.mpr follows, step_eq_error_iff_stops.mpr stops⟩
      rw [read, locate, if_neg (mt String.isEmpty_iff.mp notEmpty), stopped]
    · rw [read, (locate_eq_ok_iff notEmpty).mpr follows]
      dsimp only
      rw [directory]
    · rw [read, (locate_eq_ok_iff notEmpty).mpr follows]
      dsimp only
      rw [file]
      dsimp only
      rw [notText]
    · rw [read, (locate_eq_ok_iff notEmpty).mpr follows]
      dsimp only
      rw [file]
      dsimp only
      rw [isText]

end SchemaGrammar.Files.Tree
