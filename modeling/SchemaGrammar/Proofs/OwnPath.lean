import Mathlib
import SchemaGrammar.Proofs.FoundPaths
import SchemaGrammar.Proofs.Stages

/-!
# Files that are asked for by their own paths

Whether an input is a path or a pattern is told by its characters, not by what stands there. The
path of a file that has none of the characters of a pattern stands for itself. Any other is read as
a pattern, and finds its file just if it can be read and its names lead there; they do if it has no
opening bracket and no two stars in a row (`IsPlainPattern.leads`). The results of several inputs
follow each other, and the first input without a result fails them all (`resolve_own_paths`).
-/

namespace SchemaGrammar.Files

/-! ## Reading names as patterns -/

section Reading

variable {text written : List Char} {signs : List Sign} {position : Nat} {fresh : Bool}

theorem mapM_literal?_cons_iff {sign : Sign} : (sign :: signs).mapM Sign.literal? = some written ↔
    ∃ c more, sign = .char c ∧ signs.mapM Sign.literal? = some more ∧ written = c :: more := by
  rw [List.mapM_cons]
  cases sign <;> cases signs.mapM Sign.literal? <;> simp [Sign.literal?, eq_comm]

/-- A set is not the sign of a character. -/
theorem literal?_of_readSet {sign : Sign} {behind : List Char}
    (read : readSet text = some (sign, behind)) : sign.literal? = none := by
  unfold readSet at read
  split at read
  next set body marked =>
    have isSet (ranges : List (Char × Char)) : (set ranges).literal? = none := by
      split at marked
      all_goals
        obtain ⟨rfl, -⟩ := Prod.mk.inj marked
        rfl
    split at read
    · cases read
    · split at read
      · cases read
      · obtain ⟨rfl, -⟩ := Prod.mk.inj (Option.some.inj read)
        exact isSet _

/-- Signs that write all characters out are read from just these characters. -/
theorem eq_of_readSigns (read : readSigns position fresh text = .ok signs)
    (literal : signs.mapM Sign.literal? = some written) : written = text := by
  fun_induction readSigns position fresh text generalizing signs written with
  | case1 =>
    obtain rfl := Except.ok.inj read
    exact (Option.some.inj literal).symm
  | case3 | case4 | case7 | case9 => cases read
  | case5 =>
    obtain rfl := Except.ok.inj read
    obtain ⟨c, more, never, -⟩ := mapM_literal?_cons_iff.mp literal
    cases never
  | case2 | case6 | case8 =>
    obtain ⟨behind, -, rfl⟩ := map_eq_ok_iff.mp read
    obtain ⟨c, more, never, -⟩ := mapM_literal?_cons_iff.mp literal
    cases never
  | case10 _ _ _ _ _ set =>
    obtain ⟨behind, -, rfl⟩ := map_eq_ok_iff.mp read
    obtain ⟨c, more, rfl, -⟩ := mapM_literal?_cons_iff.mp literal
    cases literal?_of_readSet set
  | case11 _ _ c rest _ _ _ _ _ ih =>
    obtain ⟨behind, readBehind, rfl⟩ := map_eq_ok_iff.mp read
    obtain ⟨d, more, same, literalBehind, rfl⟩ := mapM_literal?_cons_iff.mp literal
    rw [Sign.char.inj same, ih readBehind literalBehind]

/-- The sign that a character stands for in a text without sets and any depth. -/
def signOf : Char → Sign
  | '?' => .anyChar
  | '*' => .anyText
  | c => .char c

/-- A text has no set and no two stars in a row. -/
def IsPlainPattern (text : List Char) : Prop := '[' ∉ text ∧ ¬ ['*', '*'] <:+: text

theorem IsPlainPattern.mono (plain : IsPlainPattern text) (part : written <:+: text) :
    IsPlainPattern written :=
  ⟨mt (part.mem ·) plain.1, mt (·.trans part) plain.2⟩

theorem IsPlainPattern.readSigns_eq (plain : IsPlainPattern text) :
    readSigns position fresh text = .ok (text.map signOf) := by
  have stars (rest : List Char) : ¬ IsPlainPattern ('*' :: '*' :: rest) :=
    fun plain => plain.2 (List.infix_append [] ['*', '*'] rest)
  fun_induction readSigns position fresh text with
  | case1 => rfl
  | case3 | case4 | case6 | case7 => exact absurd plain (stars _)
  | case5 => exact absurd plain (stars [])
  | case9 | case10 => exact absurd List.mem_cons_self plain.1
  | case2 _ _ rest ih | case8 _ _ rest _ _ ih =>
    rw [ih (plain.mono (List.suffix_cons _ rest).isInfix)]
    rfl
  | case11 _ _ c rest noMark _ _ noStar _ ih =>
    have sign : signOf c = .char c := by
      unfold signOf
      split
      · exact absurd rfl noMark
      · exact absurd rfl noStar
      · rfl
    rw [ih (plain.mono (List.suffix_cons c rest).isInfix), List.map_cons, sign]
    rfl

theorem anyEnd_of_self {p : List Char → Bool} (whole : p text = true) : anyEnd p text = true := by
  cases text with
  | nil => exact whole
  | cons c rest => exact Bool.or_eq_true_iff.mpr (.inl whole)

/-- Characters without sets stand for themselves, whatever else they stand for. -/
theorem fits_map_signOf (text : List Char) : fits (text.map signOf) text = true := by
  induction text with
  | nil => rfl
  | cons c rest ih =>
    rw [List.map_cons]
    unfold signOf
    split
    · exact ih
    · exact Bool.or_eq_true_iff.mpr (.inr (anyEnd_of_self ih))
    · exact Bool.and_eq_true_iff.mpr ⟨beq_self_eq_true c, ih⟩

end Reading

/-! ## The components of a path -/

section Components

variable {name : String} {signs : List Sign} {position : Nat} {fresh : Bool} {c : Component}
  {components : List Component} {location names : Location} {pattern : Pattern}

/-- A name that is written out as a component is the name that was read. -/
theorem isProper_ofSigns (isName : IsName name)
    (read : readSigns position fresh name.toList = .ok signs) :
    (Component.ofSigns signs).IsProper := by
  unfold Component.ofSigns
  split
  · trivial
  · split
    · next written literal =>
      rw [eq_of_readSigns read literal, String.ofList_toList]
      exact isName
    · trivial

/-- A name without sets is read as a component that it fits itself. -/
theorem IsPlainPattern.fits_ofSigns (plain : IsPlainPattern name.toList) :
    Component.ofSigns (name.toList.map signOf) ≠ .anyDepth ∧
      (Component.ofSigns (name.toList.map signOf)).fits name = true := by
  have noDepth : (name.toList.map signOf).contains .anyDepth = false := by
    refine Bool.eq_false_iff.mpr fun mem => ?_
    obtain ⟨c, -, same⟩ := List.mem_map.mp (List.contains_iff_mem.mp mem)
    unfold signOf at same
    split at same <;> cases same
  rw [Component.ofSigns, noDepth, if_neg Bool.false_ne_true]
  split
  · next written literal =>
    have read : readSigns 0 true name.toList = .ok (name.toList.map signOf) := plain.readSigns_eq
    rw [eq_of_readSigns read literal, String.ofList_toList]
    exact ⟨nofun, beq_self_eq_true name⟩
  · exact ⟨nofun, fits_map_signOf name.toList⟩

theorem mem_of_mem_collapse (mem : c ∈ Pattern.collapse components) : c ∈ components := by
  fun_induction Pattern.collapse components with
  | case1 rest ih => exact List.mem_cons_of_mem _ (ih mem)
  | case2 first rest _ ih =>
    rcases List.mem_cons.mp mem with rfl | behind
    · exact List.mem_cons_self
    · exact List.mem_cons_of_mem first (ih behind)
  | case3 => exact mem

theorem collapse_eq_self (noDepth : .anyDepth ∉ components) :
    Pattern.collapse components = components := by
  fun_induction Pattern.collapse components with
  | case1 rest => exact absurd List.mem_cons_self noDepth
  | case2 first rest _ ih => rw [ih (mt (List.mem_cons_of_mem first) noDepth)]
  | case3 => rfl

/-- Components lead along the names that they fit. -/
theorem leads_of_forall₂
    (each : List.Forall₂ (fun c name => c ≠ .anyDepth ∧ c.fits name = true) components names) :
    Leads location components (location ++ names) := by
  induction each generalizing location with
  | nil => exact location.append_nil.symm ▸ .here
  | @cons c name components names fits _ ih =>
    have behind : Leads (location ++ [name]) components (location ++ [name] ++ names) := ih
    rw [List.append_assoc, List.singleton_append] at behind
    exact .entry fits.1 fits.2 behind

theorem pieces_pathOf (notEmpty : names ≠ []) (areNames : ∀ name ∈ names, IsName name) :
    Pattern.pieces (pathOf names).toList = names.map String.toList := by
  have cut : Text.split '/' (pathOf names).toList = names.map String.toList :=
    @Text.split_intercalate '/' names notEmpty fun name mem => (areNames name mem).2.2
  have ends : ((names.map String.toList).getLast? == some []) = false := by
    refine beq_false_of_ne fun last => ?_
    obtain ⟨name, mem, empty⟩ := List.mem_map.mp (List.mem_of_getLast? last)
    exact (areNames name mem).isPart.1 (String.toList_eq_nil_iff.mp empty)
  rw [Pattern.pieces, cut, ends]
  rfl

/-- A path is read as a pattern by reading its names, if it can be read as a whole. -/
theorem parse_pathOf_eq_ok_iff (notEmpty : names ≠ []) (areNames : ∀ name ∈ names, IsName name) :
    Pattern.parse (pathOf names) = .ok pattern ↔
      (∃ whole, readSigns 0 true (pathOf names).toList = .ok whole) ∧
        ∃ signs, names.mapM (fun name => readSigns 0 true name.toList) = .ok signs ∧
          pattern = ⟨false, Pattern.collapse (signs.map .ofSigns), false⟩ := by
  have areParts := areParts_names areNames
  have relative : ((pathOf names).toList.head? == some '/') = false := by
    obtain ⟨c, begins, noSlash⟩ := head?_pathOf notEmpty areParts
    exact beq_false_of_ne (begins ▸ mt Option.some.inj noSlash)
  have notOnly : ((pathOf names).toList.getLast? == some '/') = false := by
    obtain ⟨c, ends, noSlash⟩ := getLast?_pathOf notEmpty areParts
    exact beq_false_of_ne (ends ▸ mt Option.some.inj noSlash)
  simp only [Pattern.parse, relative, notOnly, Bool.false_eq_true, if_false,
    pieces_pathOf notEmpty areNames, List.mapM_map, bind_eq_ok_iff]
  constructor
  · rintro ⟨whole, readWhole, signs, readNames, same⟩
    exact ⟨⟨whole, readWhole⟩, signs, readNames, (Except.ok.inj same).symm⟩
  · rintro ⟨⟨whole, readWhole⟩, signs, readNames, rfl⟩
    exact ⟨whole, readWhole, signs, readNames, rfl⟩

/-- The names of a path that is read as a pattern are proper names where they are written out. -/
theorem isProper_of_parse (notEmpty : names ≠ []) (areNames : ∀ name ∈ names, IsName name)
    (parsed : Pattern.parse (pathOf names) = .ok pattern) :
    ∀ c ∈ pattern.components, c.IsProper := by
  obtain ⟨-, signs, readNames, rfl⟩ := (parse_pathOf_eq_ok_iff notEmpty areNames).mp parsed
  intro c mem
  obtain ⟨read, inSigns, rfl⟩ := List.mem_map.mp (mem_of_mem_collapse mem)
  obtain ⟨name, inNames, readName⟩ := exists_mem_of_forall₂ (mapM_eq_ok_iff.mp readNames) inSigns
  exact isProper_ofSigns (areNames name inNames) readName

/-- A name of a path is a part of its text. -/
theorem isInfix_pathOf (mem : name ∈ names) : name.toList <:+: (pathOf names).toList := by
  cases names with
  | nil => cases mem
  | cons first more =>
    rw [pathOf, Text.toList_intercalate_cons]
    rcases List.mem_cons.mp mem with rfl | mem
    · exact (List.prefix_append _ _).isInfix
    · have piece : "/".toList ++ name.toList ∈ more.map fun part => "/".toList ++ part.toList :=
        List.mem_map.mpr ⟨name, mem, rfl⟩
      exact (List.suffix_append _ _).isInfix.trans
        ((List.infix_of_mem_flatten piece).trans (List.suffix_append _ _).isInfix)

/-- A path without sets and any depth leads to its own names. -/
theorem IsPlainPattern.leads (plain : IsPlainPattern (pathOf names).toList) (notEmpty : names ≠ [])
    (areNames : ∀ name ∈ names, IsName name) :
    ∃ pattern, Pattern.parse (pathOf names) = .ok pattern ∧ Leads [] pattern.components names := by
  have each (name : String) (mem : name ∈ names) : IsPlainPattern name.toList :=
    plain.mono (isInfix_pathOf mem)
  have readNames : names.mapM (fun name => readSigns 0 true name.toList) =
      .ok (names.map fun name => name.toList.map signOf) := by
    refine mapM_eq_ok_iff.mpr (List.forall₂_map_right_iff.mpr (List.forall₂_same.mpr ?_))
    exact fun name mem => (each name mem).readSigns_eq
  refine ⟨_, (parse_pathOf_eq_ok_iff notEmpty areNames).mpr
    ⟨⟨_, plain.readSigns_eq⟩, _, readNames, rfl⟩, ?_⟩
  have fit : List.Forall₂ (fun c name => c ≠ .anyDepth ∧ c.fits name = true)
      ((names.map fun name => name.toList.map signOf).map Component.ofSigns) names := by
    rw [List.map_map]
    refine List.forall₂_map_left_iff.mpr (List.forall₂_same.mpr ?_)
    exact fun name mem => (each name mem).fits_ofSigns
  have noDepth : Component.anyDepth ∉
      (names.map fun name => name.toList.map signOf).map Component.ofSigns := by
    intro mem
    obtain ⟨name, -, other, -⟩ := exists_of_mem_forall₂ fit mem
    exact other rfl
  rw [collapse_eq_self noDepth]
  exact leads_of_forall₂ fit

end Components

/-! ## Inputs -/

/-- The paths that inputs stand for in a tree. -/
def Tree.resolve (tree : Tree) (inputs : List String) : Except InputError (List String) :=
  (tree.reader.resolve inputs).run

section Inputs

variable {tree : Tree} {input : String} {result : List String}

theorem resolve_singleton_eq_ok_iff :
    tree.resolve [input] = .ok result ↔ Command.InputGives tree input result := by
  rw [Tree.resolve, Command.resolve_eq_ok_iff]
  constructor
  · rintro ⟨paths, each, rfl⟩
    obtain ⟨_, _, here, none, rfl⟩ := List.forall₂_cons_left_iff.mp each
    rw [List.forall₂_nil_left_iff.mp none, List.flatten_singleton]
    exact here
  · exact fun gives => ⟨[result], .cons gives .nil, List.flatten_singleton⟩

theorem resolve_singleton_eq_error_iff {e : InputError} :
    tree.resolve [input] = .error e ↔ Command.InputFails tree input e := by
  rw [Tree.resolve, Command.resolve_eq_error_iff]
  constructor
  · rintro ⟨before, first, after, same, -, fails⟩
    cases before with
    | nil => exact (List.cons.inj same).1 ▸ fails
    | cons _ _ => simp at same
  · exact fun fails => ⟨[], input, [], rfl, ⟨[], .nil⟩, fails⟩

/-- A file's own path finds the file if it has no character of a pattern, or if it can be read as a
pattern whose names lead there. -/
theorem exists_inputGives_iff (sound : tree.IsSound) {location : Location} {content : List UInt8}
    (file : tree.below? location = some (.file content)) :
    (∃ result, Command.InputGives tree (pathOf location) result ∧ pathOf location ∈ result) ↔
      isPattern (pathOf location) = false ∨ ∃ pattern,
        Pattern.parse (pathOf location) = .ok pattern ∧ Leads [] pattern.components location := by
  have notEmpty := ne_nil_of_file file
  have areNames : ∀ name ∈ location, IsName name := sound.isName (file ▸ rfl)
  have found {pattern : Pattern} (parsed : Pattern.parse (pathOf location) = .ok pattern) :
      pathOf location ∈ (tree.reader.search pattern).run ↔
        Leads [] pattern.components location := by
    have proper := isProper_of_parse notEmpty areNames parsed
    obtain ⟨-, signs, -, rfl⟩ := (parse_pathOf_eq_ok_iff notEmpty areNames).mp parsed
    exact sound.mem_found_iff file rfl rfl proper
  constructor
  · rintro ⟨result, plain | ⟨-, parsed, -⟩, mem⟩
    · exact .inl plain
    · exact .inr ⟨_, parsed, (found parsed).mp mem⟩
  · intro either
    by_cases isAPattern : isPattern (pathOf location) = true
    · obtain ⟨pattern, parsed, leads⟩ := either.resolve_left (by rw [isAPattern]; nofun)
      have mem := (found parsed).mpr leads
      exact ⟨_, .found isAPattern parsed (List.ne_nil_of_mem mem), mem⟩
    · exact ⟨_, .path (Bool.not_eq_true _ ▸ isAPattern), List.mem_singleton_self _⟩

end Inputs

/-- The results of inputs follow each other, and the first input without a result fails them all.
The path of a file stands for itself if it has no character of a pattern; otherwise it finds the
file just if it can be read as a pattern whose names lead there, as they do if it has no opening
bracket and no two stars in a row. -/
theorem resolve_own_paths {tree : Tree} (sound : tree.IsSound) (inputs : List String) :
    (∀ found, tree.resolve inputs = .ok found ↔ ∃ results,
      List.Forall₂ (fun input result => tree.resolve [input] = .ok result) inputs results ∧
        results.flatten = found) ∧
    (∀ e, tree.resolve inputs = .error e ↔
      FirstFails (fun input result => tree.resolve [input] = .ok result)
        (fun input e => tree.resolve [input] = .error e) inputs e) ∧
    ∀ location content, tree.below? location = some (.file content) →
      (isPattern (pathOf location) = false →
        tree.resolve [pathOf location] = .ok [pathOf location]) ∧
      ((∃ result, tree.resolve [pathOf location] = .ok result ∧ pathOf location ∈ result) ↔
        isPattern (pathOf location) = false ∨ ∃ pattern,
          Pattern.parse (pathOf location) = .ok pattern ∧
            Leads [] pattern.components location) ∧
      (IsPlainPattern (pathOf location).toList →
        ∃ result, tree.resolve [pathOf location] = .ok result ∧ pathOf location ∈ result) := by
  simp only [resolve_singleton_eq_ok_iff, resolve_singleton_eq_error_iff]
  refine ⟨fun found => Command.resolve_eq_ok_iff, fun e => Command.resolve_eq_error_iff, ?_⟩
  intro location content file
  have areNames : ∀ name ∈ location, IsName name := sound.isName (file ▸ rfl)
  refine ⟨.path, exists_inputGives_iff sound file, fun plain => ?_⟩
  exact (exists_inputGives_iff sound file).mpr (.inr (plain.leads (ne_nil_of_file file) areNames))

/-- A brace stands for itself, and a star for itself among others. -/
theorem resolve_own_paths_braces :
    (Tree.ofEntries ["work"] [("d{1}/x*.json", .file [])]).IsSound ∧
      (Tree.ofEntries ["work"] [("d{1}/x*.json", .file [])]).below? ["d{1}", "x*.json"] =
        some (.file []) ∧
      IsPlainPattern (pathOf ["d{1}", "x*.json"]).toList ∧
      ∃ result, (Tree.ofEntries ["work"] [("d{1}/x*.json", .file [])]).resolve
        [pathOf ["d{1}", "x*.json"]] = .ok result ∧ pathOf ["d{1}", "x*.json"] ∈ result := by
  have sound : (Tree.ofEntries ["work"] [("d{1}/x*.json", .file [])]).IsSound := by decide +kernel
  have file : (Tree.ofEntries ["work"] [("d{1}/x*.json", .file [])]).below? ["d{1}", "x*.json"] =
      some (.file []) := by decide +kernel
  have plain : IsPlainPattern (pathOf ["d{1}", "x*.json"]).toList :=
    ⟨by decide +kernel, by decide +kernel⟩
  exact ⟨sound, file, plain, ((resolve_own_paths sound []).2.2 _ _ file).2.2 plain⟩

/-- A digit in brackets stands for the digit alone, so a file of that name is not found. -/
theorem own_path_in_brackets_unresolved :
    (Tree.ofEntries ["work"] [("x[1].json", .file [])]).IsSound ∧
      (Tree.ofEntries ["work"] [("x[1].json", .file [])]).below? ["x[1].json"] = some (.file []) ∧
      (Tree.ofEntries ["work"] [("x[1].json", .file [])]).resolve ["x[1].json"] =
        .error (.noMatch "x[1].json") := by
  refine ⟨by decide +kernel, by decide +kernel, ?_⟩
  cbv

end SchemaGrammar.Files
