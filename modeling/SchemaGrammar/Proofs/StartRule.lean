import SchemaGrammar.Proofs.Faithful

/-!
# The start rule

The name of the start rule is given under the empty hint only, and the top of a schema is visited
under it. So are other nodes: the hint for a part of the top is the part's word alone, and the name
of a property may be empty. `start_rule_iff` says exactly when this matters. If the top is an object
with a property whose name is empty, then that property's schema is given the name first, and the
grammar's start rule matches a nested schema instead of the whole. In every other case the name is
free when the top is reached, and the last rule of the grammar is the top's own body under it.

Two facts carry the proof. Visits under other hints never touch the start rule
(`emitValue_get?_rootName`). And whatever is registered as the start rule is not the body of an
object with an empty key (`emitValue_rootShape`): such an object is reached only when the schema
under that key has taken the name.
-/

namespace SchemaGrammar

open Gbnf (RuleTable Body IsRuleName rootName)
open Json (Value Member writeString)

/-! ## Hints other than the empty one -/

theorem childHint_ne_empty {hint : String} (h : hint ≠ "") (word : String) :
    childHint hint word ≠ "" := by
  unfold childHint
  rw [if_neg fun empty => h (String.isEmpty_iff.mp empty)]
  intro empty
  exact h (String.append_eq_empty_iff.mp (String.append_eq_empty_iff.mp empty).1).1

theorem childHint_empty (word : String) : childHint "" word = word := rfl

theorem SchemaNode.ownHint_ne_empty {hint : String} (h : hint ≠ "") (node : SchemaNode) :
    node.ownHint hint ≠ "" := by
  cases node with
  | primitive p =>
    rw [ownHint, if_neg fun empty => h (String.isEmpty_iff.mp empty)]
    cases p <;> decide
  | _ => exact h

theorem SchemaNode.ownHint_empty (node : SchemaNode) : node.ownHint "" = "" := by
  cases node <;> rfl

/-- A body that is registered under another hint leaves the start rule as it is. -/
theorem place_get?_rootName {table : RuleTable} (sound : table.Sound) {hint : String}
    (h : hint ≠ "") (body : Body) : (place table hint body).1.get? rootName = table.get? rootName := by
  obtain ⟨registers, -, notRoot⟩ := place_registers sound hint body
  exact registers.get?_of_ne sound (notRoot h).symm

/-- A visit under another hint leaves the start rule as it is. -/
theorem emitValue_get?_rootName {order : Option PropertyOrder} {hint : String} (h : hint ≠ "")
    {table : RuleTable} (sound : table.Sound) (v : Value) :
    (emitValue order hint table v).1.get? rootName = table.get? rootName := by
  refine @emitValue_preserves order (fun hint _ => hint ≠ "")
    (fun later => later.get? rootName = table.get? rootName) ?_ ?_ v hint table h sound rfl
  · intro hint v node part h _ _
    exact childHint_ne_empty h part.1
  · intro hint v node names later h _ sound _ _ same
    rw [place_get?_rootName sound (node.ownHint_ne_empty h), same]

/-! ## The empty hint -/

/-- Whether a node is an object with a property whose name is empty. -/
def SchemaNode.HasEmptyName : SchemaNode → Prop
  | .object properties => ∃ v, ("", v) ∈ properties
  | _ => False

/-- Only the property with the empty name has the empty word. -/
theorem SchemaNode.exists_part_empty_iff (order : Option PropertyOrder) (node : SchemaNode) :
    (∃ v, ("", v) ∈ node.parts order) ↔ node.HasEmptyName := by
  cases node with
  | object properties =>
    exact exists_congr fun v => (PropertyOrder.sort_perm order properties).mem_iff
  | union alternatives =>
    refine ⟨fun ⟨v, mem⟩ => ?_, False.elim⟩
    obtain ⟨⟨w, i⟩, -, same⟩ := List.mem_map.mp mem
    exact absurd (Prod.mk.inj same).1 Nat.repr_ne_empty
  | array items =>
    refine ⟨fun ⟨v, mem⟩ => ?_, False.elim⟩
    exact absurd (Prod.mk.inj (List.mem_singleton.mp mem)).1 (by decide)
  | _ => exact ⟨fun ⟨v, mem⟩ => absurd mem List.not_mem_nil, False.elim⟩

/-- A body that is registered under the empty hint is the start rule afterwards, unless there was
one already. -/
theorem place_empty_rootName {table : RuleTable} (sound : table.Sound) (body : Body) :
    (place table "" body).1.get? rootName = some ((table.get? rootName).getD body.text) :=
  sound.get?_addRoot body.text

/-- After a visit under the empty hint that gives a name there is a start rule. -/
theorem emitValue_empty_rootName {order : Option PropertyOrder} {table later : RuleTable}
    (sound : table.Sound) {v : Value} {name : String}
    (visited : emitValue order "" table v = (later, .ok name)) : later.get? rootName ≠ none := by
  obtain ⟨node, middle, names, -, walked, placed⟩ := exists_of_emitValue_eq_ok visited
  have parts := emitParts_emits_of_eq sound walked
  rw [node.ownHint_empty] at placed
  have left : later = (place middle "" (node.body order names)).1 :=
    (congrArg Prod.fst placed).symm
  rw [left, place_empty_rootName parts.sound]
  exact Option.some_ne_none _

/-- Once the parts of a node are visited under the empty hint, the name of the start rule is taken if
one of them has the empty word, and is as before if not. -/
theorem emitParts_empty_rootName {order : Option PropertyOrder} {parts : List (String × Value)}
    {table later : RuleTable} {names : List String} (sound : table.Sound)
    (walked : emitParts order "" table parts = (later, .ok names)) :
    ((∃ v, ("", v) ∈ parts) → later.get? rootName ≠ none) ∧
      ((¬ ∃ v, ("", v) ∈ parts) → later.get? rootName = table.get? rootName) := by
  constructor
  · rintro ⟨v, mem⟩
    obtain ⟨before, after, name, sound', -, visited, grown⟩ := emitParts_visits mem sound walked
    have last := emitParts_emits_of_eq sound walked
    have emits := emitValue_emits_of_eq sound' visited
    rw [childHint_empty] at visited
    obtain ⟨body, found⟩ :=
      Option.ne_none_iff_exists'.mp (emitValue_empty_rootName sound' visited)
    rw [grown.get? emits.sound last.sound found]
    exact Option.some_ne_none body
  · intro absent
    have same : (emitParts order "" table parts).1.get? rootName = table.get? rootName := by
      refine @emitParts_preserves order (fun later => later.get? rootName = table.get? rootName) ""
        parts ?_ table sound rfl
      intro part mem middle sound' same
      have notEmpty : part.1 ≠ "" := fun empty => absent ⟨part.2, empty ▸ mem⟩
      rw [childHint_empty, emitValue_get?_rootName notEmpty sound' part.2, same]
    rwa [walked] at same

/-! ## What the start rule cannot be -/

/-- The start rule, if there is one, is not the body of an object with an empty key. -/
def RootShape (table : RuleTable) : Prop :=
  ∀ fields, Body.AreNamed fields → table.get? rootName = some (Body.object fields).text →
    "" ∉ fields.map Prod.fst

/-- A node whose body is that of an object with an empty key has a property with an empty name. -/
theorem SchemaNode.hasEmptyName_of_text_eq {order : Option PropertyOrder} {node : SchemaNode}
    {names : List String} (isNamed : (node.body order names).IsNamed)
    {fields : List (String × String)} (named : Body.AreNamed fields)
    (same : (Body.object fields).text = (node.body order names).text)
    (mem : "" ∈ fields.map Prod.fst) : node.HasEmptyName := by
  obtain ⟨fields', isObject⟩ := Body.exists_eq_object_of_text_eq isNamed same
  cases node with
  | object properties =>
    obtain rfl := Body.eq_of_text_object_eq named isNamed same
    obtain ⟨⟨key, name⟩, memZip, rfl⟩ := List.mem_map.mp mem
    obtain ⟨⟨_, v⟩, memSorted, rfl⟩ := List.mem_map.mp (List.of_mem_zip memZip).1
    exact ⟨v, (PropertyOrder.sort_perm order properties).mem_iff.mp memSorted⟩
  | _ => cases isObject

/-- Registering the body of a node under the empty hint does not make it one of an object with an
empty key: if the node has such a property, then that property's schema has taken the name. -/
theorem rootShape_place {order : Option PropertyOrder} {node : SchemaNode}
    {table later : RuleTable} {names : List String} (sound : table.Sound)
    (walked : emitParts order "" table (node.parts order) = (later, .ok names))
    (shape : RootShape later) : RootShape (place later "" (node.body order names)).1 := by
  have parts := emitParts_emits_of_eq sound walked
  obtain ⟨held, areNames⟩ := parts.holds names rfl
  have isNamed : (node.body order names).IsNamed := SchemaNode.isNamed_body held areNames
  intro fields named found mem
  rw [place_empty_rootName parts.sound] at found
  cases taken : later.get? rootName with
  | none =>
    rw [taken, Option.getD_none] at found
    have hasEmptyName :=
      SchemaNode.hasEmptyName_of_text_eq isNamed named (Option.some.inj found).symm mem
    exact (emitParts_empty_rootName sound walked).1
      ((node.exists_part_empty_iff order).mpr hasEmptyName) taken
  | some body =>
    rw [taken, Option.getD_some] at found
    exact shape fields named (taken.trans found) mem

/-- The walk never makes the body of an object with an empty key the start rule: the property with
that key is visited first, and takes the name. -/
theorem emitValue_rootShape {order : Option PropertyOrder} (v : Value) :
    ∀ (hint : String) (table : RuleTable), RuleTable.Sound table → RootShape table →
      RootShape (emitValue order hint table v).1 := by
  induction v using SchemaNode.induction with
  | step v ih =>
    intro hint table sound shape
    by_cases h : hint = ""
    · subst h
      have shapeParts (node : SchemaNode) (classified : SchemaNode.ofValue? v = some node) :
          RootShape (emitParts order "" table (node.parts order)).1 :=
        emitParts_preserves ""
          (fun part mem => ih node classified part.2 (SchemaNode.mem_children mem) _)
          table sound shape
      have walk := emitValue_walk order "" table v
      generalize emitValue order "" table v = outcome at walk
      cases walk with
      | unsupported _ => exact shape
      | failed classified walked =>
        have shape := shapeParts _ classified
        rw [walked] at shape
        exact shape
      | @placed node later names classified walked =>
        have shape := shapeParts node classified
        rw [walked] at shape
        rw [node.ownHint_empty]
        exact rootShape_place sound walked shape
    · intro fields named found
      rw [emitValue_get?_rootName h sound v] at found
      exact shape fields named found

/-! ## The top of a schema -/

/-- Whether a schema is an object with a property whose name is empty. -/
def HasEmptyName (schema : Value) : Prop :=
  ∃ node, SchemaNode.classify schema = .ok node ∧ node.HasEmptyName

/-- The grammar ends with the start rule, and its body is the one that is built for the top of the
schema from the rules of the top's parts. -/
def EndsInStartRule (order : Option PropertyOrder) (schema : Value) (grammar : Gbnf.Grammar) :
    Prop :=
  ∃ node table names, SchemaNode.classify schema = .ok node ∧
    emitParts order "" .initial (node.parts order) = (table, .ok names) ∧
    grammar.rules = table.toList ++ [(rootName, (node.body order names).text)]

/-- A schema that compiles is walked part by part, and then its own body is registered. -/
theorem exists_of_compileGrammar_eq_ok {order : Option PropertyOrder} {schema : Value}
    {grammar : Gbnf.Grammar} (compiled : compileGrammar order schema = .ok grammar) :
    ∃ node table names, SchemaNode.classify schema = .ok node ∧
      emitParts order "" .initial (node.parts order) = (table, .ok names) ∧
      emitValue order "" .initial schema =
        ((place table "" (node.body order names)).1,
          .ok (place table "" (node.body order names)).2) ∧
      grammar.rules = (place table "" (node.body order names)).1.toList := by
  obtain ⟨name, given, rules⟩ := exists_of_compileGrammar compiled
  obtain ⟨node, table, names, classified, walked, placed⟩ :=
    exists_of_emitValue_eq_ok (Prod.ext rfl given)
  rw [node.ownHint_empty] at placed
  refine ⟨node, table, names, SchemaNode.classify_eq_ok_iff.mpr classified, walked, ?_⟩
  rw [placed]
  exact ⟨Prod.ext rfl given, rules⟩

theorem rootShape_initial : RootShape .initial := by
  intro fields named found
  rw [RuleTable.get?_initial_rootName] at found
  cases found

section Top

variable {order : Option PropertyOrder} {node : SchemaNode} {table : RuleTable}
  {names : List String}

/-- Without an empty name among its properties, the top is registered last, as the start rule. -/
theorem place_top_of_not_hasEmptyName
    (visited : emitParts order "" .initial (node.parts order) = (table, .ok names))
    (h : ¬ node.HasEmptyName) (body : Body) :
    (place table "" body).2 = rootName ∧
      (place table "" body).1.toList = table.toList ++ [(rootName, body.text)] := by
  have free : table.get? rootName = none := by
    rw [(emitParts_empty_rootName RuleTable.sound_initial visited).2
      fun exists' => h ((node.exists_part_empty_iff order).mp exists'), RuleTable.get?_initial_rootName]
  have parts := emitParts_emits_of_eq RuleTable.sound_initial visited
  have placed : place table "" body = table.addRoot body.text := rfl
  obtain ⟨registers, -⟩ := parts.sound.addRoot body.text
  have given : (table.addRoot body.text).2 = rootName :=
    (parts.sound.addRoot_eq_rootName_iff body.text).mpr (RuleTable.accepts_iff.mpr (.inl free))
  rw [placed]
  refine ⟨given, ?_⟩
  obtain same | ⟨-, appended⟩ := registers.step
  · have found := registers.found
    rw [same, given, free] at found
    cases found
  · rw [appended, given, RuleTable.toList_append]

end Top

theorem StandsFor.exists_get? {order : Option PropertyOrder} {table : RuleTable} {schema : Value}
    {name : String} (stands : StandsFor order table schema name) :
    ∃ body, table.get? name = some body := by
  cases stands with
  | union _ _ found => exact ⟨_, found⟩
  | const _ found => exact ⟨_, found⟩
  | enum _ found => exact ⟨_, found⟩
  | object _ _ _ _ found => exact ⟨_, found⟩
  | array _ _ found => exact ⟨_, found⟩
  | primitive _ found => exact ⟨_, found⟩

/-- The name of the start rule never stands for an object with an empty name among its properties. -/
theorem RootShape.not_standsFor {order : Option PropertyOrder} {table : RuleTable}
    (shape : RootShape table) (sound : table.Sound) (named : RuleTable.Named table)
    {schema : Value} (h : HasEmptyName schema) : ¬ StandsFor order table schema rootName := by
  intro stands
  obtain ⟨node, classified, hasEmptyName⟩ := h
  have asKind : ∀ kind, SchemaNode.classify schema = .ok kind → kind.HasEmptyName :=
    fun kind isKind => Except.ok.inj (classified.symm.trans isKind) ▸ hasEmptyName
  cases stands with
  | @object _ properties sorted children _ isObject perm _ childrenStand found =>
    obtain ⟨v, mem⟩ := asKind _ isObject
    have areNamed : Body.AreNamed ((sorted.map Prod.fst).zip children) := by
      intro field memField
      rw [List.zip_map_left] at memField
      obtain ⟨⟨property, child⟩, memZip, rfl⟩ := List.mem_map.mp memField
      have childStands := List.forall₂_zip (List.forall₂_map_left_iff.mp childrenStand) memZip
      obtain ⟨body, foundChild⟩ := childStands.exists_get?
      exact named _ (sound.get?_eq_some_iff.mp foundChild)
    refine shape _ areNamed found ?_
    rw [List.map_fst_zip (by rw [List.length_map, ← childrenStand.length_eq, List.length_map])]
    exact List.mem_map.mpr ⟨("", v), perm.mem_iff.mpr mem, rfl⟩
  | union isUnion _ _ => exact asKind _ isUnion
  | const isConst _ => exact asKind _ isConst
  | enum isEnum _ => exact asKind _ isEnum
  | array isArray _ _ => exact asKind _ isArray
  | primitive isPrimitive _ => exact asKind _ isPrimitive

/-- The start rule matches the whole schema exactly if no property of the top has the empty name. For
every schema that compiles, this decides each of three things: whether visiting the top gives the
name of the start rule, whether the grammar ends with that rule and the top's own body, and whether
that rule stands for the schema. -/
theorem start_rule_iff {order : Option PropertyOrder} {schema : Value} {grammar : Gbnf.Grammar}
    (compiled : compileGrammar order schema = .ok grammar) :
    (((Converter.new order).visit schema "").2 = .ok rootName ↔ ¬ HasEmptyName schema) ∧
      (EndsInStartRule order schema grammar ↔ ¬ HasEmptyName schema) ∧
      (StandsFor order ((Converter.new order).visit schema "").1.table schema rootName ↔
        ¬ HasEmptyName schema) := by
  obtain ⟨node, table, names, classified, visited, walked, rules⟩ :=
    exists_of_compileGrammar_eq_ok compiled
  have emits := emitValue_emits order schema "" .initial RuleTable.sound_initial
  have named := emitValue_named order schema "" RuleTable.sound_initial named_initial
  have shape : RootShape (emitValue order "" .initial schema).1 :=
    emitValue_rootShape schema "" .initial RuleTable.sound_initial rootShape_initial
  show ((emitValue order "" .initial schema).2 = _ ↔ _) ∧ _ ∧
    (StandsFor order (emitValue order "" .initial schema).1 schema rootName ↔ _)
  rw [walked] at emits named shape ⊢
  have stands (given : (place table "" (node.body order names)).2 = rootName) :
      StandsFor order (place table "" (node.body order names)).1 schema rootName :=
    (emits.holds rootName (congrArg Except.ok given)).1.standsFor rootName
  have notStands (h : HasEmptyName schema) :
      ¬ StandsFor order (place table "" (node.body order names)).1 schema rootName :=
    shape.not_standsFor emits.sound named h
  have last (h : ¬ HasEmptyName schema) :=
    place_top_of_not_hasEmptyName visited (fun empty => h ⟨node, classified, empty⟩)
      (node.body order names)
  refine ⟨⟨fun given h => notStands h (stands (Except.ok.inj given)), fun h => ?_⟩,
    ⟨fun ends h => ?_, fun h => ?_⟩, ⟨fun given h => notStands h given, fun h => ?_⟩⟩
  · rw [(last h).1]
  · -- If the grammar ends in that rule, then it was appended last, so its name is the one given.
    refine notStands h (stands ?_)
    obtain ⟨node', table', names', classified', visited', ending⟩ := ends
    obtain rfl := Except.ok.inj (classified.symm.trans classified')
    obtain ⟨rfl, same⟩ := Prod.mk.inj (visited.symm.trans visited')
    obtain rfl := Except.ok.inj same
    have parts := emitParts_emits order (node.parts order) "" RuleTable.sound_initial
    rw [visited] at parts
    obtain ⟨registers, -, -⟩ := place_registers parts.sound "" (node.body order names)
    rw [rules] at ending
    obtain same | ⟨-, appended⟩ := registers.step
    · rw [same] at ending
      exact absurd (List.self_eq_append_right.mp ending) (List.cons_ne_nil _ _)
    · rw [appended, RuleTable.toList_append] at ending
      exact (Prod.mk.inj (List.cons.inj (List.append_cancel_left ending)).1).1
  · exact ⟨node, table, names, classified, visited, rules.trans (last h).2⟩
  · exact stands (last h).1

/-- A property with the empty name takes the start rule from the object that has it. -/
theorem start_rule_iff_empty_name :
    let schema : Value := .object [("type", .string "object"),
      ("properties", .object [("", .object [("type", .string "string")])])]
    (((Converter.new none).visit schema "").2 = .ok rootName ↔ ¬ HasEmptyName schema) ∧
      (EndsInStartRule none schema ⟨[("space", "\" \"?"), ("root", Primitive.string.production),
        ("root0", "\"\x7b\" space \"\\\"\\\"\" space \":\" space root \"\x7d\" space")]⟩ ↔
        ¬ HasEmptyName schema) ∧
      (StandsFor none ((Converter.new none).visit schema "").1.table schema rootName ↔
        ¬ HasEmptyName schema) :=
  start_rule_iff (by cbv)

end SchemaGrammar
