import SchemaGrammar.Compiler
import SchemaGrammar.Proofs.RuleName

/-!
# The walk over a schema, node by node

`Schema.emit` walks an arranged tree and treats each kind of node on its own. Seen from the document
it does one thing everywhere: it registers the parts of a node in their order, and then the body
that the node has for the names of its parts. `emitValue_eq` is that one equation. What a kind of
node contributes is told by three functions: its parts (`SchemaNode.parts`), its body for given
names (`SchemaNode.body`) and the hint it is registered under (`SchemaNode.ownHint`).

Proofs about the walk start from the ways in which it can go (`emitValue_walk`, `emitParts_walk`) and
go by induction on the document (`SchemaNode.induction`). So none of them splits on the kinds of
nodes unless its statement does.
-/

namespace SchemaGrammar

open Gbnf (RuleTable Body)
open Json (Value Member)

namespace SchemaNode

/-! ## What a node contributes -/

/-- The parts of a node in the order in which they are visited, each under the word that its hint
adds to the node's. -/
def parts (order : Option PropertyOrder) : SchemaNode → List (String × Value)
  | union alternatives => alternatives.zipIdx.map fun (v, i) => (toString i, v)
  | object properties => PropertyOrder.sort order properties
  | array items => [("item", items)]
  | const _ | enum _ | primitive _ => []

/-- The body of a node whose parts have these names. -/
def body (order : Option PropertyOrder) (names : List String) : SchemaNode → Body
  | union _ => .alternatives names
  | const value => .constants [value]
  | enum values => .constants values
  | object properties => .object (((PropertyOrder.sort order properties).map Prod.fst).zip names)
  | array _ => .array (names.headD "")
  | primitive p => .primitive p

/-- The hint a node is registered under: its own, or its type's word for a primitive node below the
top. -/
def ownHint (hint : String) : SchemaNode → String
  | primitive p => if hint.isEmpty then hint else p.typeName
  | _ => hint

/-- The parts of a node are its children, in an order of their own. -/
theorem parts_perm_children (order : Option PropertyOrder) (node : SchemaNode) :
    ((node.parts order).map Prod.snd).Perm node.children := by
  cases node with
  | union alternatives =>
    simp only [parts, children, List.map_map, Function.comp_def]
    exact .of_eq (List.zipIdx_map_fst 0 alternatives)
  | object properties => exact (List.mergeSort_perm _ _).map _
  | _ => exact .refl _

/-- The parts of a node are among its children. -/
theorem mem_children {order : Option PropertyOrder} {node : SchemaNode} {part : String × Value}
    (mem : part ∈ node.parts order) : part.2 ∈ node.children :=
  (node.parts_perm_children order).mem_iff.mp (List.mem_map_of_mem mem)

/-- A statement about documents holds of all of them if it passes from the children of each node to
the node itself. -/
theorem induction {P : Value → Prop}
    (step : ∀ v, (∀ node, ofValue? v = some node → ∀ c ∈ node.children, P c) → P v) (v : Value) :
    P v :=
  step v fun _ classified c mem =>
    have := sizeOf_lt_of_mem_children classified mem
    induction step c
termination_by sizeOf v

end SchemaNode

/-! ## Nodes and rejections -/

namespace SchemaNode

theorem classify_eq_ok_iff {v : Value} {node : SchemaNode} :
    classify v = .ok node ↔ ofValue? v = some node := by
  unfold classify
  split
  · next found => rw [found, Except.ok.injEq, Option.some_inj]
  · next none => simp [none]

/-- The error of a rejected node names the node. -/
theorem classify_eq_error_iff {v : Value} {e : SchemaError} :
    classify v = .error e ↔ ofValue? v = none ∧ e = ⟨v⟩ := by
  unfold classify
  split
  · next found => simp [found]
  · next none => simp [none, eq_comm]

end SchemaNode

/-! ## The walk over documents -/

/-- Registers the rules of the schema that a document holds. -/
def emitValue (order : Option PropertyOrder) (hint : String) (table : RuleTable) (v : Value) :
    RuleTable × Except SchemaError String :=
  ((Schema.ofValue v).arrange order).emit hint table

/-- Registers the rules of the parts of a node, one after the other. -/
def emitParts (order : Option PropertyOrder) (hint : String) (table : RuleTable) :
    List (String × Value) → RuleTable × Except SchemaError (List String)
  | [] => (table, .ok [])
  | (word, v) :: rest =>
    match emitValue order (childHint hint word) table v with
    | (table, .error e) => (table, .error e)
    | (table, .ok name) =>
      match emitParts order hint table rest with
      | (table, .error e) => (table, .error e)
      | (table, .ok names) => (table, .ok (name :: names))

theorem Converter.visit_eq (converter : Converter) (schema : Value) (hint : String) :
    converter.visit schema hint =
      ({ converter with table := (emitValue converter.order hint converter.table schema).1 },
        (emitValue converter.order hint converter.table schema).2) := rfl

namespace Schema

/-! ## Trees of schemas, node by node -/

/-- The tree of a node. -/
def ofNode : SchemaNode → Schema
  | .union alternatives => .union (alternatives.map ofValue)
  | .const value => .constants [value]
  | .enum values => .constants values
  | .object properties => .object (properties.map fun m => (m.1, ofValue m.2))
  | .array items => .array (ofValue items)
  | .primitive p => .primitive p

theorem ofValue_eq_ofNode {v : Value} {node : SchemaNode}
    (classified : SchemaNode.ofValue? v = some node) : ofValue v = ofNode node := by
  rw [ofValue]
  split
  all_goals
    rename_i same
    rw [classified] at same
    cases same
  · rfl
  · rfl
  · rfl
  · rfl
  · exact congrArg union List.attach_map_val
  · exact congrArg object (@List.attach_map_val _ _ _ fun m : Member => (m.1, ofValue m.2))

theorem ofValue_eq_unsupported {v : Value} (classified : SchemaNode.ofValue? v = none) :
    ofValue v = unsupported v := by
  rw [ofValue]
  split
  · rfl
  all_goals
    rename_i same
    rw [classified] at same
    cases same

theorem arrangeAll_eq_map (order : Option PropertyOrder) :
    ∀ schemas : List Schema, arrangeAll order schemas = schemas.map (arrange order)
  | [] => rfl
  | s :: rest => by rw [arrangeAll, arrangeAll_eq_map order rest, List.map_cons]

theorem arrangeProperties_eq_map (order : Option PropertyOrder) :
    ∀ properties : List (String × Schema),
      arrangeProperties order properties = properties.map fun p => (p.1, p.2.arrange order)
  | [] => rfl
  | (name, s) :: rest => by
    rw [arrangeProperties, arrangeProperties_eq_map order rest, List.map_cons]

/-- Sorting looks at the names alone, so it commutes with what is done to the values. -/
theorem sort_map {α β : Type} (order : Option PropertyOrder) (f : α → β)
    (properties : List (String × α)) :
    PropertyOrder.sort order (properties.map fun p => (p.1, f p.2)) =
      (PropertyOrder.sort order properties).map fun p => (p.1, f p.2) := by
  symm
  exact List.map_mergeSort fun _ _ _ _ => rfl

theorem emitAlternatives_eq (order : Option PropertyOrder) (hint : String) :
    ∀ (alternatives : List Value) (i : Nat) (table : RuleTable),
      emitAlternatives hint i table (alternatives.map fun v => (ofValue v).arrange order) =
        emitParts order hint table ((alternatives.zipIdx i).map fun (v, i) => (toString i, v))
  | [], _, _ => rfl
  | v :: rest, i, table => by
    have others := emitAlternatives_eq order hint rest (i + 1)
    simp only [List.map_cons, List.zipIdx_cons, emitAlternatives, emitParts, emitValue]
    rcases ((ofValue v).arrange order).emit (childHint hint (toString i)) table with
      ⟨later, _ | name⟩
    · rfl
    · dsimp only
      rewrite [others later]
      rcases emitParts order hint later _ with ⟨last, _ | names⟩ <;> rfl

theorem emitProperties_eq (order : Option PropertyOrder) (hint : String) :
    ∀ (properties : List Member) (table : RuleTable),
      emitProperties hint table (properties.map fun m => (m.1, (ofValue m.2).arrange order)) =
        ((emitParts order hint table properties).1,
          (emitParts order hint table properties).2.map (properties.map Prod.fst).zip)
  | [], _ => rfl
  | (name, v) :: rest, table => by
    simp only [List.map_cons, emitProperties, emitParts, emitValue,
      emitProperties_eq order hint rest]
    rcases ((ofValue v).arrange order).emit (childHint hint name) table with ⟨later, _ | given⟩
    · rfl
    · dsimp only
      rcases emitParts order hint later rest with ⟨last, _ | names⟩ <;> rfl

end Schema

/-! ## The walk as one equation -/

/-- The walk over the tree of a node. -/
theorem emit_ofNode (order : Option PropertyOrder) (hint : String) (table : RuleTable)
    (node : SchemaNode) :
    ((Schema.ofNode node).arrange order).emit hint table =
      match emitParts order hint table (node.parts order) with
      | (table, .error e) => (table, .error e)
      | (table, .ok names) =>
        (place table (node.ownHint hint) (node.body order names)).map id .ok := by
  cases node with
  | union alternatives =>
    have arranged : Schema.arrangeAll order (alternatives.map Schema.ofValue) =
        alternatives.map fun v => (Schema.ofValue v).arrange order := by
      rw [Schema.arrangeAll_eq_map, List.map_map]
      rfl
    have walked : Schema.emitAlternatives hint 0 table
          (alternatives.map fun v => (Schema.ofValue v).arrange order) =
        emitParts order hint table ((SchemaNode.union alternatives).parts order) :=
      Schema.emitAlternatives_eq order hint alternatives 0 table
    rewrite [Schema.ofNode, Schema.arrange, Schema.emit, arranged, walked]
    rcases emitParts order hint table ((SchemaNode.union alternatives).parts order) with
      ⟨later, _ | names⟩ <;> rfl
  | object properties =>
    have arranged : PropertyOrder.sort order (Schema.arrangeProperties order
          (properties.map fun m => (m.1, Schema.ofValue m.2))) =
        (PropertyOrder.sort order properties).map fun m =>
          (m.1, (Schema.ofValue m.2).arrange order) := by
      rw [Schema.arrangeProperties_eq_map, List.map_map,
        ← Schema.sort_map order fun v => (Schema.ofValue v).arrange order]
      rfl
    rewrite [Schema.ofNode, Schema.arrange, Schema.emit, arranged, Schema.emitProperties_eq,
      SchemaNode.parts]
    rcases emitParts order hint table (PropertyOrder.sort order properties) with
      ⟨later, _ | names⟩ <;> rfl
  | array items =>
    rewrite [Schema.ofNode, Schema.arrange, Schema.emit, SchemaNode.parts, emitParts, emitValue]
    rcases ((Schema.ofValue items).arrange order).emit (childHint hint "item") table with
      ⟨later, _ | name⟩ <;> rfl
  | const value => rfl
  | enum values => rfl
  | primitive p => rfl

/-- The walk registers the parts of a node and then the node's body under its hint. It fails at a
document that is no schema and at the first part that fails. -/
theorem emitValue_eq (order : Option PropertyOrder) (hint : String) (table : RuleTable)
    (v : Value) :
    emitValue order hint table v =
      match SchemaNode.ofValue? v with
      | none => (table, .error ⟨v⟩)
      | some node =>
        match emitParts order hint table (node.parts order) with
        | (table, .error e) => (table, .error e)
        | (table, .ok names) =>
          (place table (node.ownHint hint) (node.body order names)).map id .ok := by
  rw [emitValue]
  cases classified : SchemaNode.ofValue? v with
  | none =>
    rw [Schema.ofValue_eq_unsupported classified]
    rfl
  | some node =>
    rw [Schema.ofValue_eq_ofNode classified]
    exact emit_ofNode order hint table node

/-! ## The ways in which a walk can go -/

/-- The three ways in which the walk over a document can go. -/
inductive ValueWalk (order : Option PropertyOrder) (hint : String) (table : RuleTable) (v : Value) :
    RuleTable × Except SchemaError String → Prop
  /-- The document is no schema. -/
  | unsupported : SchemaNode.ofValue? v = none → ValueWalk order hint table v (table, .error ⟨v⟩)
  /-- A part fails. -/
  | failed {node : SchemaNode} {later : RuleTable} {e : SchemaError} :
      SchemaNode.ofValue? v = some node →
      emitParts order hint table (node.parts order) = (later, .error e) →
      ValueWalk order hint table v (later, .error e)
  /-- The body of the node is registered after the parts. -/
  | placed {node : SchemaNode} {later : RuleTable} {names : List String} :
      SchemaNode.ofValue? v = some node →
      emitParts order hint table (node.parts order) = (later, .ok names) →
      ValueWalk order hint table v
        ((place later (node.ownHint hint) (node.body order names)).1,
          .ok (place later (node.ownHint hint) (node.body order names)).2)

/-- The walk over a document goes one of these ways. -/
theorem emitValue_walk (order : Option PropertyOrder) (hint : String) (table : RuleTable)
    (v : Value) : ValueWalk order hint table v (emitValue order hint table v) := by
  rw [emitValue_eq]
  cases classified : SchemaNode.ofValue? v with
  | none => exact .unsupported classified
  | some node =>
    dsimp only
    cases walked : emitParts order hint table (node.parts order) with
    | mk later result =>
      cases result with
      | error e => exact .failed classified walked
      | ok names => exact .placed classified walked

/-- The three ways in which the walk over a part and those behind it can go. -/
inductive PartsWalk (order : Option PropertyOrder) (hint : String) (table : RuleTable)
    (part : String × Value) (rest : List (String × Value)) :
    RuleTable × Except SchemaError (List String) → Prop
  /-- The part fails. -/
  | failed {later : RuleTable} {e : SchemaError} :
      emitValue order (childHint hint part.1) table part.2 = (later, .error e) →
      PartsWalk order hint table part rest (later, .error e)
  /-- The part is given a name, and one behind it fails. -/
  | failedLater {middle later : RuleTable} {name : String} {e : SchemaError} :
      emitValue order (childHint hint part.1) table part.2 = (middle, .ok name) →
      emitParts order hint middle rest = (later, .error e) →
      PartsWalk order hint table part rest (later, .error e)
  /-- All parts are given names. -/
  | named {middle later : RuleTable} {name : String} {names : List String} :
      emitValue order (childHint hint part.1) table part.2 = (middle, .ok name) →
      emitParts order hint middle rest = (later, .ok names) →
      PartsWalk order hint table part rest (later, .ok (name :: names))

/-- The walk over parts goes one of these ways. -/
theorem emitParts_walk (order : Option PropertyOrder) (hint : String) (table : RuleTable)
    (part : String × Value) (rest : List (String × Value)) :
    PartsWalk order hint table part rest (emitParts order hint table (part :: rest)) := by
  rw [emitParts]
  cases visited : emitValue order (childHint hint part.1) table part.2 with
  | mk middle result =>
    cases result with
    | error e => exact .failed visited
    | ok name =>
      dsimp only
      cases walked : emitParts order hint middle rest with
      | mk later result =>
        cases result with
        | error e => exact .failedLater visited walked
        | ok names => exact .named visited walked

/-- Behind a part that fails no rules are registered. -/
theorem emitParts_cons_of_error {order : Option PropertyOrder} {hint : String}
    {table middle : RuleTable} {part : String × Value} {rest : List (String × Value)}
    {e : SchemaError}
    (visited : emitValue order (childHint hint part.1) table part.2 = (middle, .error e)) :
    (emitParts order hint table (part :: rest)).1 = middle := by
  rw [emitParts, visited]

/-- Behind a part that is given a name the walk goes on. -/
theorem emitParts_cons_of_ok {order : Option PropertyOrder} {hint : String}
    {table middle : RuleTable} {part : String × Value} {rest : List (String × Value)}
    {name : String}
    (visited : emitValue order (childHint hint part.1) table part.2 = (middle, .ok name)) :
    (emitParts order hint table (part :: rest)).1 = (emitParts order hint middle rest).1 := by
  rw [emitParts, visited]
  dsimp only
  rcases emitParts order hint middle rest with ⟨later, _ | names⟩ <;> rfl

/-! ## Walks that succeed -/

/-- A walk that gives a name has found a node and named its parts, and has then registered the
node's body under that name. -/
theorem exists_of_emitValue_eq_ok {order : Option PropertyOrder} {hint : String}
    {table later : RuleTable} {v : Value} {name : String}
    (visited : emitValue order hint table v = (later, .ok name)) :
    ∃ node middle names, SchemaNode.ofValue? v = some node ∧
      emitParts order hint table (node.parts order) = (middle, .ok names) ∧
      place middle (node.ownHint hint) (node.body order names) = (later, name) := by
  have walk := emitValue_walk order hint table v
  rw [visited] at walk
  cases walk with
  | placed classified walked => exact ⟨_, _, _, classified, walked, rfl⟩

/-- A schema that compiles is given a name, and the rules of its grammar are those registered for
it. -/
theorem exists_of_compileGrammar {order : Option PropertyOrder} {schema : Value}
    {grammar : Gbnf.Grammar} (compiled : compileGrammar order schema = .ok grammar) :
    ∃ name, (emitValue order "" .initial schema).2 = .ok name ∧
      grammar.rules = (emitValue order "" .initial schema).1.toList := by
  unfold compileGrammar at compiled
  rw [Converter.visit_eq] at compiled
  dsimp only [Converter.new] at compiled
  cases given : (emitValue order "" .initial schema).2 with
  | error e =>
    rw [given] at compiled
    cases compiled
  | ok name =>
    rw [given] at compiled
    exact ⟨name, rfl, congrArg Gbnf.Grammar.rules (Except.ok.inj compiled).symm⟩

end SchemaGrammar
