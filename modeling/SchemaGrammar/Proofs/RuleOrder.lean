import Mathlib
import SchemaGrammar.Proofs.Visits

/-!
# In which order rules stand, and what they are for

Rules are registered parts first, so a rule refers to rules before it only, and a grammar has no
cycle and no reference that leads nowhere. What has to be shown for this is that sharing does no
harm: a node may be given an old rule that merely has the text of the node's body. But a text tells
to which rules it refers (`Body.references_eq_of_text_eq`), and so the old rule stands behind all of
them, whichever node it was registered for.

`followsVisits_of_compileGrammar` puts this together with the fact that rules come about by visits
only: each visited node has a rule behind the rules of its parts, and each rule but that of the blank
is the rule of a visited node, and is reached from the rule of the top.
-/

namespace SchemaGrammar

open Gbnf (RuleTable Rule Body Grammar IsRuleName spaceName spaceBody)
open Json (Value)

/-! ## Rules that refer to earlier ones -/

namespace Gbnf

/-- The rule of one name stands before the rule of another one. -/
def Grammar.Precedes (grammar : Grammar) (first second : String) : Prop :=
  [first, second].Sublist (grammar.rules.map Prod.fst)

/-- The rule of a name has the text of a body that refers to another name. -/
def Grammar.Refers (grammar : Grammar) (name child : String) : Prop :=
  ∃ body : Body, body.IsNamed ∧ (name, body.text) ∈ grammar.rules ∧ child ∈ body.references

/-- Rules one after the other, each of which refers to rules before it only. -/
inductive Backward : List Rule → Prop
  | nil : Backward []
  | snoc {rules : List Rule} {name text : String} : Backward rules →
      (∀ body : Body, body.IsNamed → body.text = text →
        ∀ child ∈ body.references, child ∈ rules.map Prod.fst) →
      Backward (rules ++ [(name, text)])

/-- Whatever the text of a rule refers to stands before the rule. -/
theorem Backward.sublist {rules : List Rule} (backward : Backward rules) {name : String}
    {body : Body} (named : body.IsNamed) (mem : (name, body.text) ∈ rules) {child : String}
    (refers : child ∈ body.references) : [child, name].Sublist (rules.map Prod.fst) := by
  induction backward with
  | nil => cases mem
  | @snoc rules last text _ earlier ih =>
    rw [List.map_append]
    rcases List.mem_append.mp mem with mem | mem
    · exact (ih mem).trans (List.sublist_append_left _ _)
    · obtain ⟨rfl, rfl⟩ := Prod.mk.inj (List.mem_singleton.mp mem)
      have before := earlier body named rfl child refers
      exact (List.singleton_sublist.mpr before).append (List.Sublist.refl [name])

/-- A body that refers to rules of a table can be registered in it: bodies with its text refer to the
same rules. -/
theorem Backward.registers {table later : RuleTable} {body : Body} {given : String}
    (backward : Backward table.toList) (named : body.IsNamed)
    (listed : ∀ child ∈ body.references, child ∈ table.toList.map Prod.fst)
    (registers : table.Registers body.text later given) : Backward later.toList := by
  obtain rfl | ⟨-, rfl⟩ := registers.step
  · exact backward
  · rw [RuleTable.toList_append]
    refine .snoc backward fun other named' same child refers => listed child ?_
    rwa [Body.references_eq_of_text_eq named named' same.symm]

/-- The blank is no text of a body that refers to rules. -/
theorem references_eq_nil_of_spaceBody {body : Body} (named : body.IsNamed)
    (same : body.text = spaceBody) : body.references = [] := by
  have second (c : Char) (rest : List Char) (opening : body.text.toList = '"' :: c :: rest) :
      c = ' ' := by
    rw [same] at opening
    exact (List.cons.inj (List.cons.inj opening).2).1.symm
  cases body with
  | alternatives names =>
    cases names with
    | nil => rfl
    | cons name names =>
      obtain ⟨c, rest, opening, nameChar⟩ :=
        Body.exists_toList_text_alternatives_cons (named name List.mem_cons_self) names
      rw [same] at opening
      rw [← (List.cons.inj opening).1] at nameChar
      exact absurd nameChar (by decide)
  | object fields =>
    simp only [Body.text, String.toList_append, List.append_assoc] at second
    exact absurd (second '{' _ rfl) (by decide)
  | array item =>
    simp only [Body.text, String.toList_append, List.append_assoc] at second
    exact absurd (second '[' _ rfl) (by decide)
  | constants values => rfl
  | primitive p => rfl

theorem backward_initial : Backward RuleTable.initial.toList := by
  rw [RuleTable.toList_initial]
  refine @Backward.snoc [] _ _ .nil fun body named same child refers => ?_
  rw [references_eq_nil_of_spaceBody named same] at refers
  cases refers

end Gbnf

open Gbnf (Backward)

/-- The walk puts every rule behind those that it refers to. -/
theorem emitValue_backward {order : Option PropertyOrder} (v : Value) (hint : String)
    {table : RuleTable} (sound : table.Sound) (backward : Backward table.toList) :
    Backward (emitValue order hint table v).1.toList := by
  refine @emitValue_preserves order (fun _ _ => True) (fun table => Backward table.toList)
    (fun _ _ _ _ _ _ _ => trivial) ?_ v hint table trivial sound backward
  intro hint v node names table _ classified sound held areNames backward
  obtain ⟨registers, -⟩ := place_registers sound (node.ownHint hint) (node.body order names)
  refine backward.registers (SchemaNode.isNamed_body held areNames) (fun child mem => ?_) registers
  rw [SchemaNode.references_body held] at mem
  obtain ⟨part, -, holds⟩ := SchemaNode.exists_child_of_mem held mem
  obtain ⟨_, _, found⟩ := holds
  exact List.mem_map_of_mem (f := Prod.fst) (sound.get?_eq_some_iff.mp found)

/-! ## Rules and visits -/

/-- The visit that compiles a schema. -/
def Visit.ofSchema (order : Option PropertyOrder) (schema : Value) : Visit :=
  ⟨.new order, schema, ""⟩

/-- A visit is made while a schema is compiled. -/
def Visited (order : Option PropertyOrder) (schema : Value) (visit : Visit) : Prop :=
  Relation.ReflTransGen Visit.Calls (.ofSchema order schema) visit

/-- How the rules of a grammar follow from the visits that a schema takes. -/
structure FollowsVisits (order : Option PropertyOrder) (schema : Value) (grammar : Grammar) :
    Prop where
  /-- A rule is known by its name. -/
  distinct : (grammar.rules.map Prod.fst).Nodup
  /-- Every visited node is given a rule, and a visit is made for each of its parts. The rule that the
  part is given is one to which the node's rule refers, and stands before it. -/
  ordered : ∀ visit, Visited order schema visit → ∃ node name,
    SchemaNode.classify visit.schema = .ok node ∧ visit.given = .ok name ∧
      name ∈ grammar.rules.map Prod.fst ∧
      (∀ part ∈ node.parts order, ∃ child, visit.Calls child ∧ child.schema = part.2 ∧
        child.hint = childHint visit.hint part.1) ∧
      ∀ child, visit.Calls child → ∃ childName, child.given = .ok childName ∧
        grammar.Refers name childName ∧ grammar.Precedes childName name
  /-- Every reference is to an earlier rule. -/
  closed : ∀ name child, grammar.Refers name child → grammar.Precedes child name
  /-- Every rule but that of the blank is given to a visited node. -/
  used : ∀ rule ∈ grammar.rules, rule.1 ≠ spaceName →
    ∃ visit, Visited order schema visit ∧ visit.given = .ok rule.1
  /-- Every rule but that of the blank is reached from the rule of the top. -/
  reached : ∃ top, (Visit.ofSchema order schema).given = .ok top ∧
    ∀ rule ∈ grammar.rules, rule.1 ≠ spaceName → Relation.ReflTransGen grammar.Refers top rule.1

/-- A visit that is made while a schema is compiled gives a name, on a converter that only grows into
the one at the end. -/
theorem Visited.gives {order : Option PropertyOrder} {schema : Value} {visit : Visit}
    (visited : Visited order schema visit) {top : String}
    (given : (Visit.ofSchema order schema).given = .ok top) :
    visit.converter.order = order ∧ visit.converter.table.Sound ∧
      visit.after.table.Extends (Visit.ofSchema order schema).after.table ∧
      ∃ name, visit.given = .ok name := by
  induction visited with
  | refl => exact ⟨rfl, RuleTable.sound_initial, .refl _, top, given⟩
  | tail _ calls ih =>
    obtain ⟨sameOrder, sound, grown, name, givenName⟩ := ih
    obtain ⟨sameOrder', sound'⟩ := calls.keeps sound
    obtain ⟨childName, givenChild, -⟩ := calls.gives sound givenName
    exact ⟨sameOrder'.trans sameOrder, sound', (calls.grows sound).trans grown, childName, givenChild⟩

/-- A schema that compiles is visited with success, and the grammar has the rules that the visit
leaves. -/
theorem exists_of_compiled {order : Option PropertyOrder} {schema : Value} {grammar : Grammar}
    (compiled : compileGrammar order schema = .ok grammar) :
    ∃ top, (Visit.ofSchema order schema).given = .ok top ∧
      grammar.rules = (Visit.ofSchema order schema).after.table.toList := by
  exact exists_of_compileGrammar compiled

section Compiled

variable {order : Option PropertyOrder} {schema : Value} {grammar : Grammar} {top : String}
  (given : (Visit.ofSchema order schema).given = .ok top)
  (sameRules : grammar.rules = (Visit.ofSchema order schema).after.table.toList)

include given sameRules

/-- What a visit finds in the table that it leaves is a rule of the grammar. -/
theorem Visited.mem_rules {visit : Visit} (visited : Visited order schema visit)
    {name text : String} (found : visit.after.table.get? name = some text) :
    (name, text) ∈ grammar.rules := by
  obtain ⟨-, sound, grown, -⟩ := visited.gives given
  have soundTop : (Visit.ofSchema order schema).after.table.Sound :=
    Visit.sound_after RuleTable.sound_initial
  rw [sameRules, ← soundTop.get?_eq_some_iff]
  exact grown.get? (Visit.sound_after sound) soundTop found

/-- The rule of a visited node refers to the rules that are given to its parts. -/
theorem Visited.refers {visit child : Visit} (visited : Visited order schema visit)
    (calls : visit.Calls child) {name : String} (givenName : visit.given = .ok name) :
    ∃ childName, child.given = .ok childName ∧ grammar.Refers name childName := by
  obtain ⟨-, sound, -⟩ := visited.gives given
  obtain ⟨childName, givenChild, body, named, found, refers⟩ := calls.gives sound givenName
  exact ⟨childName, givenChild, body, named, visited.mem_rules given sameRules found, refers⟩

/-- The rule of a visited node is reached from that of the top. -/
theorem Visited.reached {visit : Visit} (visited : Visited order schema visit) {name : String}
    (givenName : visit.given = .ok name) : Relation.ReflTransGen grammar.Refers top name := by
  induction visited generalizing name with
  | refl =>
    obtain rfl := Except.ok.inj (given.symm.trans givenName)
    exact .refl
  | @tail before visit visited calls ih =>
    obtain ⟨-, -, -, middle, givenMiddle⟩ := Visited.gives visited given
    obtain ⟨childName, givenChild, refers⟩ :=
      Visited.refers given sameRules visited calls givenMiddle
    obtain rfl := Except.ok.inj (givenChild.symm.trans givenName)
    exact (ih givenMiddle).tail refers

end Compiled

/-- The rules of a compiled grammar follow from the visits of the schema: each node has its rule
behind the rules of its parts, and there are no other rules. -/
theorem followsVisits_of_compileGrammar {order : Option PropertyOrder} {schema : Value}
    {grammar : Grammar} (compiled : compileGrammar order schema = .ok grammar) :
    FollowsVisits order schema grammar := by
  obtain ⟨top, given, sameRules⟩ := exists_of_compiled compiled
  have soundTop : (Visit.ofSchema order schema).after.table.Sound :=
    Visit.sound_after RuleTable.sound_initial
  have closed (name child : String) (refers : grammar.Refers name child) :
      grammar.Precedes child name := by
    obtain ⟨body, named, mem, refers⟩ := refers
    rw [sameRules] at mem
    have backward : Backward (Visit.ofSchema order schema).after.table.toList :=
      emitValue_backward schema "" RuleTable.sound_initial Gbnf.backward_initial
    rw [Grammar.Precedes, sameRules]
    exact backward.sublist named mem refers
  have used (rule : Rule) (mem : rule ∈ grammar.rules) (notSpace : rule.1 ≠ spaceName) :
      ∃ visit, Visited order schema visit ∧ visit.given = .ok rule.1 := by
    refine Visit.exists_of_mem_after RuleTable.sound_initial (sameRules ▸ mem) fun initial => ?_
    have first : rule ∈ RuleTable.initial.toList := initial
    rw [RuleTable.toList_initial] at first
    exact notSpace (congrArg Prod.fst (List.mem_singleton.mp first))
  refine ⟨sameRules ▸ soundTop.nodup, fun visit visited => ?_, closed, used, top, given,
    fun rule mem notSpace => ?_⟩
  · obtain ⟨sameOrder, sound, -, name, givenName⟩ := visited.gives given
    obtain ⟨node, classified, parts⟩ := Visit.exists_calls givenName
    obtain ⟨text, found⟩ := Visit.exists_get?_after sound givenName
    have listed := visited.mem_rules given sameRules found
    refine ⟨node, name, classified, givenName, List.mem_map_of_mem (f := Prod.fst) listed,
      sameOrder ▸ parts, fun child calls => ?_⟩
    obtain ⟨childName, givenChild, refers⟩ := visited.refers given sameRules calls givenName
    exact ⟨childName, givenChild, refers, closed name childName refers⟩
  · obtain ⟨visit, visited, givenName⟩ := used rule mem notSpace
    exact visited.reached given sameRules givenName

/-- A nested `a-b` and a property `a b` share their rules: the second array and its items are given
the rules that were registered for the first. -/
theorem followsVisits_of_compileGrammar_shared :
    let array : Value :=
      .object [("type", .string "array"), ("items", .object [("const", .bool true)])]
    let schema : Value := .object [("type", .string "object"), ("properties", .object
      [("a b", array), ("a", .object [("type", .string "object"),
        ("properties", .object [("b", array)])])])]
    let grammar : Grammar := ⟨[("space", "\" \"?"), ("a-b-item", "\"true\""),
      ("a-b", "\"[\" space (a-b-item (\",\" space a-b-item)*)? \"]\" space"),
      ("a", "\"\x7b\" space \"\\\"b\\\"\" space \":\" space a-b \"\x7d\" space"),
      ("root", "\"\x7b\" space \"\\\"a\\\"\" space \":\" space a " ++
        "\",\" space \"\\\"a b\\\"\" space \":\" space a-b \"\x7d\" space")]⟩
    compileGrammar none schema = .ok grammar ∧ FollowsVisits none schema grammar := by
  intro array schema grammar
  have compiled : compileGrammar none schema = .ok grammar := by cbv
  exact ⟨compiled, followsVisits_of_compileGrammar compiled⟩

end SchemaGrammar
