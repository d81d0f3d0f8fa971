import SchemaGrammar.Proofs.ControlCharacters
import SchemaGrammar.Proofs.GrammarText
import SchemaGrammar.Proofs.StartRule

/-!
# The texts that a grammar allows

A grammar is taken here for what its text says: the text is read back whole (`readGrammar`), and a
text is allowed if the start rule derives it. `isSpacedValue_of_allows` says that for an expressible
schema the text of the grammar can be read back, and that every allowed text is a JSON value with
optional spaces behind it. Two things keep this from being said of all schemas and all texts.

* The production for strings lets every character but a quote and a backslash stand for itself, and
  the standard does not allow that for control characters. An allowed text is JSON by the standard
  exactly if it has none.
* A literal leaves the backslashes of a JSON text as they are, so it may say something else, or end
  too early. And the body of a choice among nothing is empty. A schema is expressible if it has no
  such choice, and the literals of its constants and keys are read as JSON texts (`IsExpressible`).
  They are if no character of a constant or key is escaped in JSON (`isWellQuoted_of_isPlain`).

The proof has two inductions. One goes along the walk: every rule but that of the optional blank
holds an expressible schema (`emitValue_heldOnly`), so every body can be read. The other goes along
the schema: a rule that holds an expressible schema derives values (`derivesValues_of_holds`).
-/

namespace SchemaGrammar

open Gbnf (RuleTable Rule Body Expression Derives IsRuleName IsSpacedValue IsWellQuoted
  DerivesValues HasSpaceRule rootName spaceName spaceBody readBody readRules)
open Json (Value IsPrintable standard lenient)

/-! ## Reading a grammar -/

/-- The rules of a grammar's text, with what their bodies mean. -/
def readGrammar (text : String) : Option (List (String × Expression)) :=
  (readRules text).bind (List.mapM fun rule => (readBody rule.2).map (rule.1, ·))

/-- The expression of a rule. -/
def meaningOf (meanings : List (String × Expression)) (name : String) : Option Expression :=
  meanings.lookup name

/-- A rule and its meaning have one name, and the rule's body is read as the expression. -/
def Means (rule : Rule) (meaning : String × Expression) : Prop :=
  meaning.1 = rule.1 ∧ readBody rule.2 = some meaning.2

/-- Rules whose bodies can be read have meanings. -/
theorem exists_forall₂_means {rules : List Rule}
    (each : ∀ rule ∈ rules, ∃ e, readBody rule.2 = some e) :
    ∃ meanings, List.Forall₂ Means rules meanings := by
  refine exists_forall₂_iff_forall.mpr fun rule mem => ?_
  obtain ⟨e, read⟩ := each rule mem
  exact ⟨(rule.1, e), rfl, read⟩

/-- The text of rules is read as their meanings. -/
theorem readGrammar_rulesText {rules : List Rule} {meanings : List (String × Expression)}
    (named : ∀ rule ∈ rules, IsRuleName rule.1) (unbroken : ∀ rule ∈ rules, '\n' ∉ rule.2.toList)
    (mean : List.Forall₂ Means rules meanings) :
    readGrammar (Gbnf.rulesText rules) = some meanings := by
  rw [readGrammar, Gbnf.readRules_rulesText named unbroken, Option.bind_some]
  clear named unbroken
  induction mean with
  | nil => rfl
  | @cons rule meaning rules meanings here _ ih =>
    obtain ⟨same, read⟩ := here
    rw [List.mapM_cons, ih, read, ← same]
    rfl

/-- The meaning of a rule is found under its name, if the name has one body only. -/
theorem meaningOf_eq_some {rules : List Rule} {meanings : List (String × Expression)}
    (mean : List.Forall₂ Means rules meanings)
    {name body : String} (unique : ∀ other, (name, other) ∈ rules → other = body)
    (mem : (name, body) ∈ rules) {e : Expression} (read : readBody body = some e) :
    meaningOf meanings name = some e := by
  induction mean with
  | nil => cases mem
  | @cons rule meaning rules meanings here _ ih =>
    obtain ⟨other, text⟩ := rule
    obtain ⟨other', e'⟩ := meaning
    obtain ⟨rfl, readHere⟩ := here
    rw [meaningOf, List.lookup_cons]
    by_cases same : name = other'
    · subst same
      obtain rfl := unique text List.mem_cons_self
      rw [beq_self_eq_true]
      exact readHere.symm.trans read
    · rw [beq_false_of_ne same]
      rcases List.mem_cons.mp mem with first | mem
      · exact absurd (Prod.mk.inj first).1 same
      · exact ih (fun body mem => unique body (List.mem_cons_of_mem _ mem)) mem

/-! ## Expressible schemas -/

namespace SchemaNode

/-- A choice among nothing. -/
def IsEmptyChoice : SchemaNode → Prop
  | union alternatives => alternatives = []
  | enum values => values = []
  | const _ | object _ | array _ | primitive _ => False

/-- The values for which a node's body has literals: its constants and its keys. -/
def quoted : SchemaNode → List Value
  | const value => [value]
  | enum values => values
  | object properties => properties.map fun property => .string property.1
  | union _ | array _ | primitive _ => []

/-- A node has something to choose from, and its constants and keys are well quoted. -/
structure IsExpressible (node : SchemaNode) : Prop where
  choice : ¬ node.IsEmptyChoice
  quoted : ∀ v ∈ node.quoted, IsWellQuoted v

end SchemaNode

/-- All nodes of a schema are expressible. -/
inductive IsExpressible : Value → Prop
  | intro {v : Value} {node : SchemaNode} : SchemaNode.ofValue? v = some node →
      node.IsExpressible → (∀ c ∈ node.children, IsExpressible c) → IsExpressible v

namespace SchemaNode

variable {order : Option PropertyOrder} {node : SchemaNode} {names : List String}

/-- The body of a node is an empty choice only if the node is. -/
theorem isEmptyChoice_of_body (count : names.length = (node.parts order).length)
    (empty : (node.body order names).IsEmptyChoice) : node.IsEmptyChoice := by
  cases node with
  | union alternatives =>
    obtain rfl : names = [] := empty
    rw [parts, List.length_map, List.length_zipIdx] at count
    exact List.length_eq_zero_iff.mp count.symm
  | const value => exact absurd empty (List.cons_ne_nil value [])
  | enum values => exact empty
  | object properties => exact empty
  | array items => exact empty
  | primitive p => exact empty

/-- The body of a node quotes nothing but what the node does. -/
theorem mem_quoted_of_body {v : Value} (mem : v ∈ (node.body order names).quoted) :
    v ∈ node.quoted := by
  cases node with
  | object properties =>
    obtain ⟨field, memZip, rfl⟩ := List.mem_map.mp mem
    obtain ⟨property, memSorted, same⟩ := List.mem_map.mp (List.of_mem_zip memZip).1
    rw [← same]
    have memProperties := (PropertyOrder.sort_perm order properties).mem_iff.mp memSorted
    exact List.mem_map.mpr ⟨property, memProperties, rfl⟩
  | union alternatives => cases mem
  | const value => exact mem
  | enum values => exact mem
  | array items => cases mem
  | primitive p => cases mem

end SchemaNode

/-! ## Rules that hold expressible schemas -/

section Holding

variable {order : Option PropertyOrder} {table : RuleTable}

theorem Holds.isRuleName {v : Value} {name : String} (holds : Holds order table v name)
    (sound : table.Sound) (named : RuleTable.Named table) : IsRuleName name := by
  cases holds with
  | intro _ _ found => exact named _ (sound.get?_eq_some_iff.mp found)

/-- A body that can be read, quotes well and refers to rules which hold the children of a node. -/
structure HasReadableBody (order : Option PropertyOrder) (table : RuleTable) (node : SchemaNode)
    (body : Body) : Prop where
  named : body.IsNamed
  read : readBody body.text = some body.expression
  quoted : ∀ v ∈ body.quoted, IsWellQuoted v
  children : ∀ other ∈ body.references, ∃ c ∈ node.children, Holds order table c other

/-- A rule that holds an expressible node has such a body. -/
theorem Holds.exists_hasReadableBody {v : Value} {name : String} (holds : Holds order table v name)
    {node : SchemaNode} (classified : SchemaNode.ofValue? v = some node)
    (expressible : node.IsExpressible) (sound : table.Sound) (named : RuleTable.Named table) :
    ∃ body, table.get? name = some (Body.text body) ∧ HasReadableBody order table node body := by
  cases holds with
  | @intro _ node' names _ classified' parts found =>
    obtain rfl := Option.some.inj (classified.symm.trans classified')
    have count := SchemaNode.length_eq_of_parts parts
    have isNamed : (node.body order names).IsNamed := by
      refine SchemaNode.isNamed_body parts fun other mem => ?_
      obtain ⟨c, -, held⟩ := SchemaNode.exists_child_of_mem parts mem
      exact held.isRuleName sound named
    have quoted : ∀ v ∈ (node.body order names).quoted, IsWellQuoted v :=
      fun v mem => expressible.quoted v (SchemaNode.mem_quoted_of_body mem)
    have read := Body.readBody_text isNamed
      (fun empty => expressible.choice (SchemaNode.isEmptyChoice_of_body count empty))
      (fun v mem => (quoted v mem).1)
    refine ⟨node.body order names, found, isNamed, read, quoted, fun other mem => ?_⟩
    rw [SchemaNode.references_body parts] at mem
    exact SchemaNode.exists_child_of_mem parts mem

/-- Under rules that mean what the table says, a rule that holds an expressible schema derives
values. -/
theorem derivesValues_of_holds {rules : String → Option Expression} (sound : table.Sound)
    (named : RuleTable.Named table) (hasSpace : HasSpaceRule rules)
    (means : ∀ name body e, table.get? name = some body → readBody body = some e →
      rules name = some e) {v : Value} (expressible : IsExpressible v) :
    ∀ name, Holds order table v name → DerivesValues rules (.rule name) := by
  induction expressible with
  | @intro v node classified expressible below ih =>
    intro name holds text derives
    obtain ⟨body, found, readable⟩ :=
      holds.exists_hasReadableBody classified expressible sound named
    obtain ⟨e, meant, derives⟩ := Derives.rule_iff.mp derives
    obtain rfl := Option.some.inj ((means name _ _ found readable.read).symm.trans meant)
    refine Gbnf.derivesValues_body hasSpace readable.quoted (fun other mem => ?_) text derives
    obtain ⟨c, memChildren, held⟩ := readable.children other mem
    exact ih c memChildren other held

/-- Every rule of the table is that of the optional blank, or holds an expressible schema. -/
def HeldOnly (order : Option PropertyOrder) (table : RuleTable) : Prop :=
  ∀ rule ∈ table.toList, rule = (spaceName, spaceBody) ∨
    ∃ v, IsExpressible v ∧ Holds order table v rule.1

theorem heldOnly_initial : HeldOnly order .initial := by
  intro rule mem
  rw [RuleTable.toList_initial] at mem
  exact .inl (List.mem_singleton.mp mem)

/-- The walk over an expressible schema registers rules that hold expressible schemas only. -/
theorem emitValue_heldOnly {v : Value} (expressible : IsExpressible v) (hint : String)
    (sound : table.Sound) (heldOnly : HeldOnly order table) :
    HeldOnly order (emitValue order hint table v).1 := by
  refine @emitValue_preserves order (fun _ v => IsExpressible v) _ ?_ ?_ v hint table expressible
    sound heldOnly
  · intro hint v node part expressible classified mem
    obtain ⟨classified', -, below⟩ := expressible
    obtain rfl := Option.some.inj (classified.symm.trans classified')
    exact below _ (SchemaNode.mem_children mem)
  · intro hint v node names table expressible classified sound parts areNames heldOnly
    obtain ⟨registers, -, -⟩ :=
      place_registers sound (node.ownHint hint) (node.body order names)
    intro rule mem
    rcases registers.mem_or_eq mem with mem | rfl
    · rcases heldOnly rule mem with isSpace | ⟨w, expressible', holds⟩
      · exact .inl isSpace
      · exact .inr ⟨w, expressible', holds.grow sound registers.sound registers.extends⟩
    · exact .inr ⟨v, expressible, holds_of_registers sound classified parts registers⟩

end Holding

/-! ## Grammars of expressible schemas -/

section Compiled

variable {order : Option PropertyOrder} {table : RuleTable}

theorem HeldOnly.exists_readBody (heldOnly : HeldOnly order table) (sound : table.Sound)
    (named : RuleTable.Named table) {rule : Rule} (mem : rule ∈ table.toList) :
    '\n' ∉ rule.2.toList ∧ ∃ e, readBody rule.2 = some e := by
  rcases heldOnly rule mem with rfl | ⟨v, ⟨classified, expressible, -⟩, holds⟩
  · exact ⟨by decide, _, Gbnf.readBody_spaceBody⟩
  · obtain ⟨body, found, readable⟩ :=
      holds.exists_hasReadableBody classified expressible sound named
    have same := Option.some.inj ((sound.get?_eq_some_iff.mpr mem).symm.trans found)
    rw [same]
    exact ⟨(Body.onOneLine_text readable.named).newline_notMem, _, readable.read⟩

/-- The text of a table whose rules hold expressible schemas is read back, and its rules mean what the
table says. -/
theorem HeldOnly.exists_readGrammar (heldOnly : HeldOnly order table) (sound : table.Sound)
    (named : RuleTable.Named table) :
    ∃ meanings, readGrammar (Gbnf.rulesText table.toList) = some meanings ∧
      ∀ name body e, table.get? name = some body → readBody body = some e →
        meaningOf meanings name = some e := by
  have each (rule : Rule) (mem : rule ∈ table.toList) := heldOnly.exists_readBody sound named mem
  obtain ⟨meanings, mean⟩ := exists_forall₂_means fun rule mem => (each rule mem).2
  refine ⟨meanings, readGrammar_rulesText named (fun rule mem => (each rule mem).1) mean, ?_⟩
  intro name body e found read
  refine meaningOf_eq_some mean (fun other mem => ?_) (sound.get?_eq_some_iff.mp found) read
  exact Option.some.inj ((sound.get?_eq_some_iff.mpr mem).symm.trans found)

/-- A schema that compiles gets a name, and its text is that of the rules registered for it. -/
theorem exists_of_compile_eq_ok {schema : Value} {text : String}
    (compiled : compile order schema = .ok text) :
    ∃ name, (emitValue order "" .initial schema).2 = .ok name ∧
      text = Gbnf.rulesText (emitValue order "" .initial schema).1.toList := by
  unfold compile at compiled
  cases compiled' : compileGrammar order schema with
  | error e =>
    rw [compiled'] at compiled
    cases compiled
  | ok grammar =>
    obtain ⟨name, given, rules⟩ := exists_of_compileGrammar compiled'
    rw [compiled'] at compiled
    exact ⟨name, given, (Except.ok.inj compiled).symm.trans (congrArg Gbnf.rulesText rules)⟩

/-- A text is allowed if the start rule derives it. -/
def Allows (text : String) (allowed : List Char) : Prop :=
  ∃ meanings, readGrammar text = some meanings ∧
    Derives (meaningOf meanings) (.rule rootName) allowed

/-- The grammar of an expressible schema can be read back, and has a start rule. Every text that it
allows is a JSON value with optional spaces behind it, but that control characters may stand for
themselves in strings; and it is one by the standard exactly if there are none. -/
theorem isSpacedValue_of_allows {schema : Value} {text : String}
    (compiled : compile order schema = .ok text) (expressible : IsExpressible schema) :
    (∃ meanings e, readGrammar text = some meanings ∧ meaningOf meanings rootName = some e) ∧
      ∀ allowed, Allows text allowed → IsSpacedValue lenient allowed ∧
        (IsSpacedValue standard allowed ↔ ∀ c ∈ allowed, IsPrintable c) := by
  obtain ⟨name, given, rfl⟩ := exists_of_compile_eq_ok compiled
  have emits := emitValue_emits order schema "" .initial RuleTable.sound_initial
  have named := emitValue_named order schema "" RuleTable.sound_initial named_initial
  have heldOnly :=
    emitValue_heldOnly expressible "" RuleTable.sound_initial (@heldOnly_initial order)
  rcases outcome : emitValue order "" .initial schema with ⟨table, result⟩
  rw [outcome] at emits named heldOnly given
  obtain rfl : result = .ok name := given
  have started := emitValue_empty_rootName RuleTable.sound_initial outcome
  have sound : table.Sound := emits.sound
  obtain ⟨meanings, read, means⟩ := heldOnly.exists_readGrammar sound named
  -- The start rule is not that of the optional blank, so it holds an expressible schema.
  obtain ⟨body, found⟩ := Option.ne_none_iff_exists'.mp started
  have mem := sound.get?_eq_some_iff.mp found
  obtain ⟨v, expressible', holds⟩ := (heldOnly _ mem).resolve_left fun same =>
    absurd (Prod.mk.inj same).1 (by decide)
  have hasSpace : HasSpaceRule (meaningOf meanings) := by
    refine means spaceName spaceBody _ ?_ Gbnf.readBody_spaceBody
    refine emits.grown.get? RuleTable.sound_initial sound ?_
    rw [RuleTable.sound_initial.get?_eq_some_iff, RuleTable.initial, RuleTable.toList_append]
    exact List.mem_append_right _ (List.mem_singleton_self _)
  refine ⟨?_, fun allowed derived => ?_⟩
  · obtain ⟨-, e, readRoot⟩ := heldOnly.exists_readBody sound named mem
    exact ⟨meanings, e, read, means rootName body e found readRoot⟩
  · obtain ⟨meanings', read', derives⟩ := derived
    obtain rfl := Option.some.inj (read.symm.trans read')
    have spaced : IsSpacedValue lenient allowed :=
      derivesValues_of_holds sound named hasSpace means expressible' rootName holds allowed derives
    exact ⟨spaced, Json.isSpacedValue_standard_iff spaced⟩

end Compiled

/-- An object of one array of constants. -/
theorem isSpacedValue_of_allows_object :
    let color : Value := .object [("enum", .array [.string "red", .null])]
    let colors : Value := .object [("type", .string "array"), ("items", color)]
    let schema : Value :=
      .object [("type", .string "object"), ("properties", .object [("in", colors)])]
    let text := Gbnf.rulesText [("space", "\" \"?"), ("in-item", "\"\\\"red\\\"\" | \"null\""),
      ("in", "\"[\" space (in-item (\",\" space in-item)*)? \"]\" space"),
      ("root", "\"\x7b\" space \"\\\"in\\\"\" space \":\" space in \"\x7d\" space")]
    compile none schema = .ok text ∧ IsExpressible schema ∧
      (∃ meanings e, readGrammar text = some meanings ∧ meaningOf meanings rootName = some e) ∧
      ∀ allowed, Allows text allowed → IsSpacedValue lenient allowed ∧
        (IsSpacedValue standard allowed ↔ ∀ c ∈ allowed, IsPrintable c) := by
  intro color colors schema text
  have plainConstants : ∀ v ∈ [.string "red", .null], IsWellQuoted v :=
    fun v mem => Gbnf.isWellQuoted_of_isPlain
      ((Json.forall_mem_of_all (by decide) : ∀ v ∈ [.string "red", .null], Value.IsPlain v) v mem)
  have plainKeys : ∀ v ∈ [.string "in"], IsWellQuoted v :=
    List.forall_mem_singleton.mpr (Gbnf.isWellQuoted_of_isPlain (by decide))
  have color_expressible : IsExpressible color :=
    @IsExpressible.intro _ (.enum [.string "red", .null]) rfl
      ⟨List.cons_ne_nil _ _, plainConstants⟩ nofun
  have colors_expressible : IsExpressible colors :=
    @IsExpressible.intro _ (.array color) rfl ⟨id, nofun⟩
      (List.forall_mem_singleton.mpr color_expressible)
  have schema_expressible : IsExpressible schema :=
    @IsExpressible.intro _ (.object [("in", colors)]) rfl ⟨id, plainKeys⟩
      (List.forall_mem_singleton.mpr colors_expressible)
  have compiled : compile none schema = .ok text := by cbv
  exact ⟨compiled, schema_expressible, isSpacedValue_of_allows compiled schema_expressible⟩

/-- A text that ends in no space is itself the value. -/
theorem isValue_of_isSpacedValue {d : Json.Dialect} {text : List Char} {c : Char}
    (notSpace : c ≠ ' ') (spaced : IsSpacedValue d (text ++ [c])) : Json.IsValue d (text ++ [c]) [] := by
  obtain ⟨value, spaces, same, isValue, isSpaces⟩ := spaced
  rcases List.eq_nil_or_concat spaces with rfl | ⟨others, last, rfl⟩
  · rwa [same, List.append_nil]
  · rw [List.concat_eq_append, ← List.append_assoc] at same
    have isLast := (List.append_inj' same rfl).2
    have isSpace := isSpaces last (by simp)
    rw [← (List.cons.inj isLast).1] at isSpace
    exact absurd isSpace notSpace

/-- The grammar of a schema without parts. -/
def textOfBody (body : String) : String :=
  Gbnf.rulesText [(spaceName, spaceBody), (rootName, body)]

/-- What the body of a schema without parts derives is allowed. -/
theorem allows_textOfBody {body : String} {e : Expression} {allowed : List Char}
    (unbroken : '\n' ∉ body.toList) (read : readBody body = some e)
    (derives : ∀ rules, HasSpaceRule rules → Derives rules e allowed) :
    Allows (textOfBody body) allowed := by
  have mean : List.Forall₂ Means [(spaceName, spaceBody), (rootName, body)]
      [(spaceName, Gbnf.spaceExpression), (rootName, e)] :=
    .cons ⟨rfl, Gbnf.readBody_spaceBody⟩ (.cons ⟨rfl, read⟩ .nil)
  refine ⟨_, readGrammar_rulesText ?_ ?_ mean, .rule rfl (derives _ rfl)⟩
  · exact List.forall_mem_cons.mpr ⟨Gbnf.isRuleName_spaceName,
      List.forall_mem_singleton.mpr Gbnf.isRuleName_rootName⟩
  · exact List.forall_mem_cons.mpr ⟨by decide, List.forall_mem_singleton.mpr unbroken⟩

/-- Not all texts that grammars allow are JSON by the standard. A string may have a line break in it,
the constant of one backslash is read as a string that does not end, and a choice among nothing
allows the empty text. -/
theorem not_isSpacedValue_of_allows :
    (∃ text, compile none (.object [("type", .string "string")]) = .ok text ∧
        Allows text ['"', '\n', '"'] ∧ ¬ IsSpacedValue standard ['"', '\n', '"']) ∧
      (∃ text, compile none (.object [("const", .string "\\")]) = .ok text ∧
        Allows text ['"', '\\', '"'] ∧ ¬ IsSpacedValue standard ['"', '\\', '"']) ∧
      ∃ text, compile none (.object [("enum", .array [])]) = .ok text ∧
        Allows text [] ∧ ¬ IsSpacedValue standard [] := by
  refine ⟨⟨textOfBody Primitive.string.production, by cbv, ?_, ?_⟩,
    ⟨textOfBody (Gbnf.constantLiteral (.string "\\")), by cbv, ?_, ?_⟩,
    ⟨textOfBody "", by cbv, ?_, ?_⟩⟩
  · refine allows_textOfBody (by decide) (Body.readBody_production .string) fun rules hasSpace => ?_
    have nothing : Derives rules Gbnf.Atom.space.expression [] :=
      .rule hasSpace (.choice List.mem_cons_self (Derives.singleton_iff.mpr .enough))
    have lineBreak : Derives rules Body.stringCharacter ['\n'] :=
      .choice List.mem_cons_self (Derives.singleton_iff.mpr (.charClass (by decide)))
    have characters : Derives rules (.repeated Body.stringCharacter 0 none) ['\n'] :=
      Derives.repeated_iff.mpr ⟨[['\n']], rfl, Nat.zero_le _,
        fun n bound => absurd bound.symm (Option.some_ne_none n),
        List.forall_mem_singleton.mpr lineBreak⟩
    refine .choice List.mem_cons_self (Derives.cons_iff.mpr ⟨['"'], _, rfl, .literal, ?_⟩)
    refine Derives.cons_iff.mpr ⟨['\n'], _, rfl, characters, ?_⟩
    exact Derives.cons_iff.mpr ⟨['"'], _, rfl, .literal, Derives.singleton_iff.mpr nothing⟩
  · intro spaced
    have value := @isValue_of_isSpacedValue standard ['"', '\n'] '"' (by decide) spaced
    cases Json.IsValue.string_iff.mp value with
    | raw isRaw _ => exact absurd isRaw.2.2 (by decide)
  · refine @allows_textOfBody _ (.choice [.sequence [.literal ['"', '\\', '"']]]) _ (by decide)
      (by cbv) fun rules _ => ?_
    exact .choice List.mem_cons_self (Derives.singleton_iff.mpr .literal)
  · intro spaced
    have value := @isValue_of_isSpacedValue standard ['"', '\\'] '"' (by decide) spaced
    cases Json.IsValue.string_iff.mp value with
    | raw isRaw _ => exact isRaw.2.1 rfl
    | short _ string => cases string
  · refine @allows_textOfBody _ (.choice [.sequence []]) _ (by decide) (by cbv) fun rules _ => ?_
    exact .choice List.mem_cons_self .nil
  · rintro ⟨value, spaces, same, isValue, -⟩
    rw [(List.append_eq_nil_iff.mp same.symm).1] at isValue
    exact Json.not_isValue_nil isValue

end SchemaGrammar
