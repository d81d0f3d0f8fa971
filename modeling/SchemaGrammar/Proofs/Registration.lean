import SchemaGrammar.Gbnf.RuleTable
import Mathlib.Data.List.Nodup
import Mathlib.Data.List.Perm.Subperm
import Std.Data.String.ToNat

/-!
# What registering does to a rule table

A table keeps its rules twice: as a list in order of registration, and through an index from names
to places. `RuleTable.Sound` says that the two are in step, and under it `get?` is membership in the
list (`Sound.get?_eq_some_iff`), so everything else can be said of the list alone.

Registering a body is one of two steps. Either the table stays as it is and the name given holds the
body already, or one rule is appended under a name that was free. `RuleTable.Registers` is that
statement, and `Sound.registers` proves it for every call. The part that needs an argument is the
search for a suffix: of `size + 1` suffixed names, which are all different, one is free by
counting (`Sound.accepts_leastSuffix`), so the search never comes back with a name that holds
something else.

What a table says it goes on saying: `Extends` orders tables by growth, and `get?` is kept along it.
-/

namespace SchemaGrammar.Gbnf

namespace RuleTable

/-! ## Tables whose index is in step with their list -/

/-- The index sends a name to a place exactly if the rule at that place has the name. So every rule
is found under its name, and no two rules have one name. -/
def Sound (table : RuleTable) : Prop :=
  ∀ (name : String) (place : Nat),
    table.index[name]? = some place ↔ ∃ body, table.rules[place]? = some (name, body)

/-- In a sound table the bodies that are found are those of the listed rules. -/
theorem Sound.get?_eq_some_iff {table : RuleTable} (sound : table.Sound) {name body : String} :
    table.get? name = some body ↔ (name, body) ∈ table.toList := by
  simp only [get?, Option.bind_eq_some_iff, Option.map_eq_some_iff, toList, Array.mem_toList_iff]
  constructor
  · rintro ⟨place, found, rule, listed, rfl⟩
    obtain ⟨held, here⟩ := (sound name place).mp found
    rw [listed] at here
    cases here
    exact Array.mem_of_getElem? listed
  · intro listed
    obtain ⟨place, here⟩ := Array.mem_iff_getElem?.mp listed
    exact ⟨place, (sound name place).mpr ⟨body, here⟩, _, here, rfl⟩

/-- A name is free in a sound table exactly if no listed rule has it. -/
theorem Sound.get?_eq_none_iff {table : RuleTable} (sound : table.Sound) {name : String} :
    table.get? name = none ↔ ∀ body, (name, body) ∉ table.toList := by
  rw [Option.eq_none_iff_forall_ne_some]
  exact forall_congr' fun body => not_congr sound.get?_eq_some_iff

/-- No two rules of a sound table have one name. -/
theorem Sound.nodup {table : RuleTable} (sound : table.Sound) :
    (table.toList.map Prod.fst).Nodup := by
  rw [List.nodup_iff_getElem?_ne_getElem?]
  intro i j before inRange same
  rw [List.length_map] at inRange
  have later : table.rules[j]? = some table.toList[j] := by
    rw [← Array.getElem?_toList]
    exact List.getElem?_eq_getElem inRange
  have earlier : table.rules[i]? = some table.toList[i] := by
    rw [← Array.getElem?_toList]
    exact List.getElem?_eq_getElem (Nat.lt_trans before inRange)
  have sameName : table.toList[i].1 = table.toList[j].1 := by
    simpa [List.getElem?_map, inRange, Nat.lt_trans before inRange] using same
  have foundEarlier := (sound table.toList[i].1 i).mpr ⟨table.toList[i].2, earlier⟩
  have foundLater := (sound table.toList[j].1 j).mpr ⟨table.toList[j].2, later⟩
  rw [sameName, foundLater] at foundEarlier
  exact absurd (Option.some.inj foundEarlier) (Nat.ne_of_gt before)

theorem toList_append (table : RuleTable) (name body : String) :
    (table.append name body).toList = table.toList ++ [(name, body)] := by
  simp only [append, toList, Array.toList_push]

theorem toList_initial : initial.toList = [(spaceName, spaceBody)] := by
  rw [initial, toList_append]
  rfl

/-- Appending under a free name keeps the index in step. -/
theorem Sound.append {table : RuleTable} (sound : table.Sound) {name : String} (body : String)
    (free : table.get? name = none) : (table.append name body).Sound := by
  intro other place
  have index : (table.append name body).index[other]? =
      if name == other then some table.rules.size else table.index[other]? :=
    Std.HashMap.getElem?_insert
  have rules : (table.append name body).rules[place]? =
      if place = table.rules.size then some (name, body) else table.rules[place]? :=
    Array.getElem?_push
  have past : table.rules[table.rules.size]? = none := Array.getElem?_eq_none (Nat.le_refl _)
  rw [index, rules]
  by_cases same : name = other <;> by_cases last : place = table.rules.size
  · subst same last
    simp
  · subst same
    -- the new name is at no earlier place
    have absent : ¬ ∃ held, table.rules[place]? = some (name, held) := fun ⟨held, here⟩ =>
      sound.get?_eq_none_iff.mp free held (Array.mem_toList_iff.mpr (Array.mem_of_getElem? here))
    simp [last, absent, Ne.symm last]
  · subst last
    have absent : table.index[other]? ≠ some table.rules.size := fun found => by
      obtain ⟨held, here⟩ := (sound other _).mp found
      rw [past] at here
      cases here
    simp [same, absent]
  · simp [same, last, sound other place]

/-- The table that every grammar starts from is sound. -/
theorem sound_initial : initial.Sound :=
  Sound.append (fun _ _ => by simp) spaceBody (by simp [get?])

/-! ## Growth -/

/-- Nothing that the first table says is unsaid by the second: its rules come first there. -/
def Extends (table later : RuleTable) : Prop := table.toList <+: later.toList

theorem Extends.refl (table : RuleTable) : table.Extends table := List.prefix_refl _

theorem Extends.trans {first second third : RuleTable} (h : first.Extends second)
    (h' : second.Extends third) : first.Extends third := List.IsPrefix.trans h h'

theorem extends_append (table : RuleTable) (name body : String) :
    table.Extends (table.append name body) := by
  rw [Extends, toList_append]
  exact List.prefix_append _ _

/-- What is found in a table is found in every table that extends it. -/
theorem Extends.get? {table later : RuleTable} (grown : table.Extends later) (sound : table.Sound)
    (sound' : later.Sound) {name body : String} (found : table.get? name = some body) :
    later.get? name = some body :=
  sound'.get?_eq_some_iff.mpr (grown.subset (sound.get?_eq_some_iff.mp found))

/-! ## The search for a suffix -/

theorem accepts_iff {table : RuleTable} {name body : String} :
    table.accepts name body = true ↔ table.get? name = none ∨ table.get? name = some body := by
  unfold accepts
  split
  · next free => simp [free]
  · next held found => simp [found]

theorem suffixed_injective (name : String) : Function.Injective (suffixed name) := by
  intro i j same
  exact Nat.repr_injective ((String.append_right_inj name).mp same)

/-- Of one suffixed name more than there are rules, some accepts the body: the names all differ, and
a name that does not accept is the name of a rule. -/
theorem Sound.exists_accepts {table : RuleTable} (sound : table.Sound) (name body : String) :
    ∃ i ∈ List.range (table.size + 1), table.accepts (suffixed name i) body = true := by
  by_contra none
  simp only [not_exists, not_and, accepts_iff, not_or] at none
  let tried := (List.range (table.size + 1)).map (suffixed name)
  have distinct : tried.Nodup := List.nodup_range.map (suffixed_injective name)
  have taken : tried ⊆ table.toList.map Prod.fst := by
    intro other mem
    obtain ⟨i, inRange, rfl⟩ := List.mem_map.mp mem
    obtain ⟨held, found⟩ := Option.ne_none_iff_exists'.mp (none i inRange).1
    exact List.mem_map_of_mem (f := Prod.fst) (sound.get?_eq_some_iff.mp found)
  have few := (List.subperm_of_subset distinct taken).length_le
  simp only [tried, List.length_map, List.length_range, toList, size, Array.length_toList] at few
  omega

/-- The search is never without a result. -/
theorem Sound.find?_eq_leastSuffix {table : RuleTable} (sound : table.Sound) (name body : String) :
    (List.range (table.size + 1)).find? (fun i => table.accepts (suffixed name i) body) =
      some (table.leastSuffix name body) := by
  have found := List.find?_isSome.mpr (sound.exists_accepts name body)
  obtain ⟨least, search⟩ := Option.isSome_iff_exists.mp found
  rw [leastSuffix, search, Option.getD_some]

/-- The suffix that is chosen gives a name that accepts the body. -/
theorem Sound.accepts_leastSuffix {table : RuleTable} (sound : table.Sound) (name body : String) :
    table.accepts (suffixed name (table.leastSuffix name body)) body = true := by
  have accepted := List.find?_some (sound.find?_eq_leastSuffix name body)
  exact accepted

/-- The suffix that is chosen is the least that gives such a name, and at most the number of rules. -/
theorem Sound.leastSuffix_eq_iff {table : RuleTable} (sound : table.Sound) {name body : String}
    {i : Nat} :
    table.leastSuffix name body = i ↔ table.accepts (suffixed name i) body = true ∧
      i ≤ table.size ∧ ∀ j < i, table.accepts (suffixed name j) body = false := by
  have searched := sound.find?_eq_leastSuffix name body
  have least := @List.find?_range_eq_some (table.size + 1) i
    fun i => table.accepts (suffixed name i) body
  rw [searched, Option.some_inj] at least
  rw [least, List.mem_range, Nat.lt_succ_iff]
  simp only [Bool.not_eq_true']

/-! ## One registration -/

/-- What comes of registering a body: a sound table in which the name given holds the body. Either
the table is the one before, or the rule was appended under a name that was free. -/
structure Registers (table : RuleTable) (body : String) (later : RuleTable) (given : String) :
    Prop where
  sound : later.Sound
  found : later.get? given = some body
  step : later = table ∨ table.get? given = none ∧ later = table.append given body

theorem Registers.extends {table later : RuleTable} {body given : String}
    (registers : table.Registers body later given) : table.Extends later := by
  obtain same | ⟨-, appended⟩ := registers.step
  · exact same ▸ .refl table
  · exact appended ▸ extends_append table given body

/-- A rule of the later table is one of the table before, or the one that was registered. -/
theorem Registers.mem_or_eq {table later : RuleTable} {body given : String}
    (registers : table.Registers body later given) {rule : Rule} (mem : rule ∈ later.toList) :
    rule ∈ table.toList ∨ rule = (given, body) := by
  obtain same | ⟨-, appended⟩ := registers.step
  · exact .inl (same ▸ mem)
  · rw [appended, toList_append] at mem
    exact (List.mem_append.mp mem).imp_right List.mem_singleton.mp

/-- Registering a body changes nothing under any other name. -/
theorem Registers.get?_of_ne {table later : RuleTable} {body given other : String}
    (registers : table.Registers body later given) (sound : table.Sound) (h : other ≠ given) :
    later.get? other = table.get? other := by
  obtain same | ⟨-, appended⟩ := registers.step
  · rw [same]
  · refine Option.ext fun held => ?_
    rw [registers.sound.get?_eq_some_iff, sound.get?_eq_some_iff, appended, toList_append,
      List.mem_append, List.mem_singleton, Prod.mk.injEq]
    exact ⟨fun listed => listed.resolve_right fun last => h last.1, .inl⟩

/-- Settling under a name that accepts the body registers it there. -/
theorem Sound.settle {table : RuleTable} (sound : table.Sound) {name body : String}
    (accepted : table.accepts name body = true) :
    table.Registers body (table.settle name body).1 (table.settle name body).2 ∧
      (table.settle name body).2 = name := by
  unfold RuleTable.settle
  cases found : table.get? name with
  | none =>
    have sound' := sound.append body found
    refine ⟨⟨sound', ?_, .inr ⟨found, rfl⟩⟩, rfl⟩
    rw [sound'.get?_eq_some_iff, toList_append]
    exact List.mem_append_right _ (List.mem_singleton_self _)
  | some held =>
    refine ⟨⟨sound, ?_, .inl rfl⟩, rfl⟩
    rw [accepts_iff, found] at accepted
    simpa [found] using accepted

/-- Every call registers its body, under the name asked for if that is not reserved, or else under a
suffixed form of it. -/
theorem Sound.register {table : RuleTable} (sound : table.Sound) (name body : String)
    (reserved : Bool) :
    table.Registers body (table.register name body reserved).1
        (table.register name body reserved).2 ∧
      ((table.register name body reserved).2 = name ∧ reserved = false ∨
        ∃ i, (table.register name body reserved).2 = suffixed name i) := by
  unfold RuleTable.register
  split
  · next plain =>
    rw [Bool.and_eq_true, Bool.not_eq_true'] at plain
    obtain ⟨registers, given⟩ := sound.settle plain.2
    exact ⟨registers, .inl ⟨given, plain.1⟩⟩
  · obtain ⟨registers, given⟩ := sound.settle (sound.accepts_leastSuffix name body)
    exact ⟨registers, .inr ⟨_, given⟩⟩

/-! ## Registering again -/

/-- What a table holds already, it goes on holding as it is. -/
theorem settle_of_get? {table : RuleTable} {name body : String}
    (held : table.get? name = some body) : table.settle name body = (table, name) := by
  rw [settle, held]

/-- A name that holds another body is refused in every later table. -/
theorem Extends.refuses {table later : RuleTable} (grown : table.Extends later)
    (sound : table.Sound) (sound' : later.Sound) {name body : String}
    (refused : table.accepts name body = false) : later.accepts name body = false := by
  rw [Bool.eq_false_iff, Ne, accepts_iff, not_or] at refused ⊢
  obtain ⟨held, found⟩ := Option.ne_none_iff_exists'.mp refused.1
  rw [found] at refused
  rw [grown.get? sound sound' found]
  exact ⟨Option.some_ne_none held, refused.2⟩

/-- Registering a body again, at any later time, gives the name that it was given at first and leaves
the table as it is. The names that were refused at first are refused again, so the search for a
suffix ends at the same place. -/
theorem Sound.register_again {table later : RuleTable} (sound : table.Sound)
    (sound' : later.Sound) (name body : String) (reserved : Bool)
    (grown : (table.register name body reserved).1.Extends later) :
    later.register name body reserved = (later, (table.register name body reserved).2) := by
  obtain ⟨registers, -⟩ := sound.register name body reserved
  have grownAll : table.Extends later := registers.extends.trans grown
  have held := grown.get? registers.sound sound' registers.found
  have accepted : later.accepts (table.register name body reserved).2 body = true :=
    accepts_iff.mpr (.inr held)
  by_cases plain : (!reserved && table.accepts name body) = true
  · have given : (table.register name body reserved).2 = name := by
      rw [RuleTable.register, if_pos plain]
      exact (sound.settle (Bool.and_eq_true_iff.mp plain).2).2
    rw [given] at held accepted ⊢
    have plainAgain : (!reserved && later.accepts name body) = true :=
      Bool.and_eq_true_iff.mpr ⟨(Bool.and_eq_true_iff.mp plain).1, accepted⟩
    rw [RuleTable.register, if_pos plainAgain, settle_of_get? held]
  · have given : (table.register name body reserved).2 =
        suffixed name (table.leastSuffix name body) := by
      rw [RuleTable.register, if_neg plain]
      exact (sound.settle (sound.accepts_leastSuffix name body)).2
    rw [given] at held accepted ⊢
    have refusedAgain : ¬ (!reserved && later.accepts name body) = true := by
      intro plainLater
      obtain ⟨free, acceptedLater⟩ := Bool.and_eq_true_iff.mp plainLater
      have refused : table.accepts name body = false :=
        Bool.eq_false_iff.mpr fun accepted => plain (Bool.and_eq_true_iff.mpr ⟨free, accepted⟩)
      rw [grownAll.refuses sound sound' refused] at acceptedLater
      cases acceptedLater
    obtain ⟨-, inRange, refused⟩ :=
      sound.leastSuffix_eq_iff.mp (Eq.refl (table.leastSuffix name body))
    have sameSuffix : later.leastSuffix name body = table.leastSuffix name body :=
      sound'.leastSuffix_eq_iff.mpr ⟨accepted, Nat.le_trans inRange grownAll.length_le,
        fun j before => grownAll.refuses sound sound' (refused j before)⟩
    rw [RuleTable.register, if_neg refusedAgain, sameSuffix, settle_of_get? held]

end RuleTable

end SchemaGrammar.Gbnf
