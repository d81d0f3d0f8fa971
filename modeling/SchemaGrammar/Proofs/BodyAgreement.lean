import SchemaGrammar.Proofs.Standing

/-!
# Nodes whose bodies have one text

A table compares bodies as flat texts, and keys, constants and names may hold anything that the
texts of bodies are made of. `text_body_eq_iff` says that nothing is lost by this. Two nodes, whatever
names their parts have, are given one text exactly if they agree in everything that a body says
(`SchemaNode.Agree`): they are of one kind and have the same keys, the same names in the same order
and the same constants, up to the JSON text of a constant. One constant is the same as a list of it
alone. Besides this only a union without alternatives and a list without constants have a text in
common, the empty one.

That a text tells its keys and names is known from the texts of objects, arrays and alternatives. What
is added here are the texts of constants, which are cut at the quotes that end the literals
(`map_compact_eq_of_text_constants_eq`), and those of primitive types, which no other body has
(`eq_primitive_of_text_eq`).
-/

namespace SchemaGrammar

open Gbnf (Body IsRuleName constantLiteral)
open Json (Value)

namespace Gbnf

open Text (toList_intercalate_cons)

/-! ## Texts of constants -/

/-- A literal and what follows it are told from the text. -/
theorem constantLiteral_cancel {v v' : Value} {rest rest' : List Char}
    (same : (constantLiteral v).toList ++ rest = (constantLiteral v').toList ++ rest') :
    v.compact = v'.compact ∧ rest = rest' := by
  simp only [constantLiteral, toList_quote, Value.compact, String.toList_ofList, List.cons_append,
    List.append_assoc, List.nil_append] at same
  obtain ⟨literals, sameRest⟩ := (enclosed_write v).cancel (enclosed_write v') (List.cons.inj same).2
  have sameText : v.write = v'.write :=
    flatMap_escapeChar_injective (Body.write_noBreak v) (Body.write_noBreak v') literals
  exact ⟨congrArg String.ofList sameText, sameRest⟩

namespace Body

/-- The text behind a constant of a list: the other constants, each behind a bar. -/
def moreConstants (values : List Value) : List Char :=
  values.flatMap fun v => " | ".toList ++ (constantLiteral v).toList

theorem moreConstants_cons (v : Value) (values : List Value) :
    moreConstants (v :: values) =
      " | ".toList ++ ((constantLiteral v).toList ++ moreConstants values) := by
  rw [moreConstants, List.flatMap_cons, List.append_assoc]
  rfl

theorem moreConstants_cancel : ∀ {values values' : List Value},
    moreConstants values = moreConstants values' →
      values.map Value.compact = values'.map Value.compact
  | [], [], _ => rfl
  | [], v' :: values', same => by
    rw [moreConstants_cons] at same
    cases same
  | v :: values, [], same => by
    rw [moreConstants_cons] at same
    cases same
  | v :: values, v' :: values', same => by
    rw [moreConstants_cons, moreConstants_cons] at same
    obtain ⟨sameText, more⟩ := constantLiteral_cancel (List.append_cancel_left same)
    rw [List.map_cons, List.map_cons, sameText, moreConstants_cancel more]

/-- A list of constants that is not empty is what would stand behind another constant, but for the
first bar. -/
theorem bar_append_text_constants (v : Value) (values : List Value) :
    " | ".toList ++ (constants (v :: values)).text.toList = moreConstants (v :: values) := by
  rw [text, joinBars, List.map_cons, toList_intercalate_cons, List.flatMap_map, moreConstants_cons]
  rfl

/-- Lists of constants with one text have the same JSON texts in the same order. -/
theorem map_compact_eq_of_text_constants_eq {values values' : List Value}
    (same : (constants values).text = (constants values').text) :
    values.map Value.compact = values'.map Value.compact := by
  have noEnd : ∀ {v : Value} {values}, (constants []).text ≠ (constants (v :: values)).text := by
    intro v values same
    have chars := congrArg String.toList same
    rw [toList_text_constants_cons] at chars
    cases chars
  cases values with
  | nil =>
    cases values' with
    | nil => rfl
    | cons v' values' => exact absurd same noEnd
  | cons v values =>
    cases values' with
    | nil => exact absurd same.symm noEnd
    | cons v' values' =>
      refine moreConstants_cancel ?_
      rw [← bar_append_text_constants, ← bar_append_text_constants, same]

/-- Constants with the same JSON texts in the same order have one text. -/
theorem text_constants_eq_of_map_compact_eq {values values' : List Value}
    (same : values.map Value.compact = values'.map Value.compact) :
    (constants values).text = (constants values').text := by
  have literals (values : List Value) :
      values.map constantLiteral = (values.map Value.compact).map quote := by
    rw [List.map_map]
    rfl
  rw [text, text, literals, literals, same]

/-! ## Texts of primitive types -/

/-- Each primitive type has a production of its own. -/
theorem production_injective : Function.Injective Primitive.production := by
  intro p q same
  cases p <;> cases q <;> first | rfl | exact absurd same (by decide)

/-- No list of constants has the text of a primitive type: behind the first literal of a production
stands neither the end nor a bar. -/
theorem text_constants_ne_production (values : List Value) (p : Primitive) :
    (constants values).text ≠ p.production := by
  intro same
  cases values with
  | nil => cases p <;> exact absurd same (by decide)
  | cons v values =>
    have chars := congrArg String.toList same
    -- a production that begins with a literal goes on with a blank and another character
    have noLiteral {literal rest : List Char} {c : Char} (enclosed : Enclosed literal)
        (notBar : c ≠ '|') : p.production.toList ≠ '"' :: (literal ++ '"' :: ' ' :: c :: rest) := by
      intro opening
      rcases behind_first_constant enclosed (chars.trans opening) with ends | ⟨more, goesOn⟩
      · cases ends
      · exact notBar (List.cons.inj (List.cons.inj goesOn).2).1
    cases p with
    | null => exact noLiteral (enclosed_write .null) (by decide : 's' ≠ '|') rfl
    | string => exact noLiteral ⟨quotesEscaped_pair '"', by decide⟩ (by decide : '(' ≠ '|') rfl
    | boolean | number | integer =>
      rw [toList_text_constants_cons] at chars
      exact absurd (List.cons.inj chars).1 (by decide)

/-- No other body has the text of a primitive type. -/
theorem eq_primitive_of_text_eq {p : Primitive} {body : Body} (named : body.IsNamed)
    (same : body.text = p.production) : body = primitive p := by
  have same : body.text = (primitive p).text := same
  have isNamed : (primitive p).IsNamed := trivial
  cases body with
  | primitive q => rw [production_injective same]
  | constants values => exact absurd same (text_constants_ne_production values p)
  | object fields =>
    obtain ⟨fields', isObject⟩ := exists_eq_object_of_text_eq isNamed same
    cases isObject
  | array item =>
    obtain ⟨item', isArray⟩ := exists_eq_array_of_text_eq isNamed same
    cases isArray
  | alternatives names =>
    cases names with
    | nil => cases p <;> exact absurd same (by decide)
    | cons name names =>
      obtain ⟨names', isList⟩ :=
        exists_eq_alternatives_of_text_eq (named name List.mem_cons_self) same
      cases isList

/-! ## The empty text -/

/-- Only an empty list of names and an empty list of constants have the empty text. -/
theorem eq_nil_of_text_eq_empty {body : Body} (named : body.IsNamed) (empty : body.text = "") :
    body = alternatives [] ∨ body = constants [] := by
  have chars := congrArg String.toList empty
  cases body with
  | alternatives names =>
    cases names with
    | nil => exact .inl rfl
    | cons name names =>
      obtain ⟨c, rest, opening, -⟩ :=
        exists_toList_text_alternatives_cons (named name List.mem_cons_self) names
      cases opening.symm.trans chars
  | constants values =>
    cases values with
    | nil => exact .inr rfl
    | cons v values =>
      rw [toList_text_constants_cons] at chars
      cases chars
  | object fields =>
    simp only [text, String.toList_append, List.append_assoc] at chars
    cases chars
  | array item =>
    simp only [text, String.toList_append, List.append_assoc] at chars
    cases chars
  | primitive p => cases p <;> cases chars

/-- Only the text of constants begins with a constant and goes on as theirs do. -/
theorem exists_eq_constants_of_text_eq {v : Value} {values : List Value} {body : Body}
    (named : body.IsNamed) (same : (constants (v :: values)).text = body.text) :
    ∃ values', body = constants values' := by
  have isNamed : (constants (v :: values)).IsNamed := trivial
  cases body with
  | constants values' => exact ⟨values', rfl⟩
  | primitive p => exact absurd same (text_constants_ne_production _ p)
  | object fields =>
    obtain ⟨fields', isObject⟩ := exists_eq_object_of_text_eq isNamed same.symm
    cases isObject
  | array item =>
    obtain ⟨item', isArray⟩ := exists_eq_array_of_text_eq isNamed same.symm
    cases isArray
  | alternatives names =>
    cases names with
    | nil => rcases eq_nil_of_text_eq_empty isNamed same with isNil | isNil <;> cases isNil
    | cons name names =>
      obtain ⟨names', isList⟩ :=
        exists_eq_alternatives_of_text_eq (named name List.mem_cons_self) same.symm
      cases isList

end Body

end Gbnf

namespace SchemaNode

/-! ## Nodes and names for their parts -/

/-- Rule names for the parts of a node, one for each. -/
def NamesParts (order : Option PropertyOrder) (node : SchemaNode) (names : List String) : Prop :=
  List.Forall₂ (fun _ name => IsRuleName name) ((node.parts order).map Prod.snd) names

/-- The values that a node lists, if it is one constant or a list of them. -/
def constants? : SchemaNode → Option (List Value)
  | const value => some [value]
  | enum values => some values
  | _ => none

/-- Two nodes, each with names for its parts, agree in all that a body says. -/
inductive Agree (order order' : Option PropertyOrder) :
    SchemaNode → List String → SchemaNode → List String → Prop
  /-- Unions have the same names in the same order. -/
  | union {alternatives alternatives' : List Value} {names : List String} :
      Agree order order' (.union alternatives) names (.union alternatives') names
  /-- Objects have the same properties in the same order, each with the same name. -/
  | object {properties properties' : List Json.Member} {names : List String} :
      (PropertyOrder.sort order properties).map Prod.fst =
        (PropertyOrder.sort order' properties').map Prod.fst →
      Agree order order' (.object properties) names (.object properties') names
  /-- Arrays have the same name for their items. -/
  | array {items items' : Value} {name : String} :
      Agree order order' (.array items) [name] (.array items') [name]
  /-- Constants have the same JSON texts in the same order, and one is a list of it alone. -/
  | constants {node node' : SchemaNode} {values values' : List Value} :
      node.constants? = some values → node'.constants? = some values' →
      values.map Value.compact = values'.map Value.compact → Agree order order' node [] node' []
  /-- Primitive nodes have the same type. -/
  | primitive (p : Primitive) : Agree order order' (.primitive p) [] (.primitive p) []
  /-- A union without alternatives says as little as a list without constants. -/
  | unionEnum : Agree order order' (.union []) [] (.enum []) []
  | enumUnion : Agree order order' (.enum []) [] (.union []) []

section Agree

variable {order order' : Option PropertyOrder} {node node' : SchemaNode} {names names' : List String}

theorem NamesParts.isNamed (parts : node.NamesParts order names) :
    (node.body order names).IsNamed := by
  refine isNamed_body parts fun name mem => ?_
  obtain ⟨_, -, isName⟩ := exists_child_of_mem parts mem
  exact isName

theorem body_eq_constants_iff {values : List Value} :
    node.body order names = .constants values ↔ node.constants? = some values := by
  cases node <;> simp [body, constants?]

/-- A node that lists constants has no parts. -/
theorem NamesParts.eq_nil_of_constants? (parts : node.NamesParts order names) {values : List Value}
    (isConstants : node.constants? = some values) : names = [] := by
  cases node <;> cases isConstants <;> exact List.forall₂_nil_left_iff.mp parts

/-- Nodes that agree are given one text. -/
theorem Agree.text_eq (agree : Agree order order' node names node' names') :
    (node.body order names).text = (node'.body order' names').text := by
  cases agree with
  | union => rfl
  | object sameKeys => rw [body, body, sameKeys]
  | array => rfl
  | constants isConstants isConstants' sameTexts =>
    rw [body_eq_constants_iff.mpr isConstants, body_eq_constants_iff.mpr isConstants']
    exact Body.text_constants_eq_of_map_compact_eq sameTexts
  | primitive p => rfl
  | unionEnum => rfl
  | enumUnion => rfl

/-- A node with the empty text is a union or a list, without anything in it. -/
theorem NamesParts.eq_of_text_eq_empty (parts : node.NamesParts order names)
    (empty : (node.body order names).text = "") :
    names = [] ∧ (node = .union [] ∨ node = .enum []) := by
  rcases Body.eq_nil_of_text_eq_empty parts.isNamed empty with isNil | isNil
  · cases node with
    | union alternatives =>
      obtain rfl : names = [] := Body.alternatives.inj isNil
      have count := length_eq_of_parts parts
      rw [SchemaNode.parts, List.length_map, List.length_zipIdx] at count
      obtain rfl : alternatives = [] := List.length_eq_zero_iff.mp count.symm
      exact ⟨rfl, .inl rfl⟩
    | _ => cases isNil
  · have isConstants := body_eq_constants_iff.mp isNil
    refine ⟨parts.eq_nil_of_constants? isConstants, .inr ?_⟩
    cases node <;> cases isConstants
    rfl

/-- Objects with one text have the same keys and the same names. -/
theorem agree_of_object {properties properties' : List Json.Member}
    (parts : (SchemaNode.object properties).NamesParts order names)
    (parts' : (SchemaNode.object properties').NamesParts order' names')
    (same : ((SchemaNode.object properties).body order names).text =
      ((SchemaNode.object properties').body order' names').text) :
    Agree order order' (.object properties) names (.object properties') names' := by
  have pairs := Body.eq_of_text_object_eq parts.isNamed parts'.isNamed same
  have count : names.length = ((PropertyOrder.sort order properties).map Prod.fst).length := by
    rw [length_eq_of_parts parts, List.length_map]
    rfl
  have count' : names'.length = ((PropertyOrder.sort order' properties').map Prod.fst).length := by
    rw [length_eq_of_parts parts', List.length_map]
    rfl
  have sameKeys := congrArg (List.map Prod.fst) pairs
  rw [List.map_fst_zip (Nat.le_of_eq count.symm), List.map_fst_zip (Nat.le_of_eq count'.symm)]
    at sameKeys
  have sameNames := congrArg (List.map Prod.snd) pairs
  rw [List.map_snd_zip (Nat.le_of_eq count), List.map_snd_zip (Nat.le_of_eq count')] at sameNames
  exact sameNames ▸ .object sameKeys

/-- A node has the text of a list of constants only if it lists the same ones. -/
theorem agree_of_constants {values : List Value} (parts : node.NamesParts order names)
    (parts' : node'.NamesParts order' names') (isConstants : node.constants? = some values)
    (same : (node.body order names).text = (node'.body order' names').text) :
    Agree order order' node names node' names' := by
  have isBody : node.body order names = .constants values := body_eq_constants_iff.mpr isConstants
  obtain rfl := parts.eq_nil_of_constants? isConstants
  by_cases empty : (node'.body order' names').text = ""
  · obtain ⟨-, rfl | rfl⟩ := parts.eq_of_text_eq_empty (same.trans empty)
    · cases isConstants
    · obtain ⟨rfl, rfl | rfl⟩ := parts'.eq_of_text_eq_empty empty
      · exact .enumUnion
      · exact .constants rfl rfl rfl
  · cases values with
    | nil => exact absurd (same.symm.trans (congrArg Body.text isBody)) empty
    | cons v values =>
      rw [isBody] at same
      obtain ⟨values', isBody'⟩ := Body.exists_eq_constants_of_text_eq parts'.isNamed same
      have isConstants' := body_eq_constants_iff.mp isBody'
      obtain rfl := parts'.eq_nil_of_constants? isConstants'
      rw [isBody'] at same
      exact .constants isConstants isConstants' (Body.map_compact_eq_of_text_constants_eq same)

/-- Unions with one text have the same names. -/
theorem agree_of_union {alternatives : List Value}
    (parts : (SchemaNode.union alternatives).NamesParts order names)
    (parts' : node'.NamesParts order' names')
    (same : ((SchemaNode.union alternatives).body order names).text =
      (node'.body order' names').text) :
    Agree order order' (.union alternatives) names node' names' := by
  cases names with
  | nil =>
    obtain ⟨-, isUnion | isEnum⟩ := parts.eq_of_text_eq_empty rfl
    · cases isUnion
      obtain ⟨rfl, rfl | rfl⟩ := parts'.eq_of_text_eq_empty same.symm
      · exact .union
      · exact .unionEnum
    · cases isEnum
  | cons name names =>
    have named := parts.isNamed
    have named' := parts'.isNamed
    obtain ⟨others, isList⟩ :=
      Body.exists_eq_alternatives_of_text_eq (named name List.mem_cons_self) same
    cases node' with
    | union alternatives' =>
      obtain rfl := Body.eq_of_text_alternatives_eq named named' same
      exact .union
    | _ => cases isList

/-- Arrays with one text have the same name for their items. -/
theorem agree_of_array {items items' : Value}
    (parts : (SchemaNode.array items).NamesParts order names)
    (parts' : (SchemaNode.array items').NamesParts order' names')
    (same : ((SchemaNode.array items).body order names).text =
      ((SchemaNode.array items').body order' names').text) :
    Agree order order' (.array items) names (.array items') names' := by
  obtain ⟨name, rfl⟩ := List.length_eq_one_iff.mp (length_eq_of_parts parts)
  obtain ⟨name', rfl⟩ := List.length_eq_one_iff.mp (length_eq_of_parts parts')
  have isName : IsRuleName name := parts.isNamed
  have isName' : IsRuleName name' := parts'.isNamed
  obtain rfl := Body.eq_of_text_array_eq isName isName' same
  exact .array

/-- Nodes that are given one text agree. -/
theorem agree_of_text_eq (parts : node.NamesParts order names)
    (parts' : node'.NamesParts order' names')
    (same : (node.body order names).text = (node'.body order' names').text) :
    Agree order order' node names node' names' := by
  have named := parts.isNamed
  have named' := parts'.isNamed
  cases node with
  | const value => exact agree_of_constants parts parts' rfl same
  | enum values => exact agree_of_constants parts parts' rfl same
  | union alternatives => exact agree_of_union parts parts' same
  | object properties =>
    obtain ⟨fields', isObject⟩ := Body.exists_eq_object_of_text_eq named' same
    cases node' with
    | object properties' => exact agree_of_object parts parts' same
    | _ => cases isObject
  | array items =>
    obtain ⟨item', isArray⟩ := Body.exists_eq_array_of_text_eq named' same
    cases node' with
    | array items' => exact agree_of_array parts parts' same
    | _ => cases isArray
  | primitive p =>
    have isPrimitive := Body.eq_primitive_of_text_eq named' same.symm
    cases node' with
    | primitive p' =>
      cases isPrimitive
      obtain rfl := List.forall₂_nil_left_iff.mp parts
      obtain rfl := List.forall₂_nil_left_iff.mp parts'
      exact .primitive p
    | _ => cases isPrimitive

/-- Two nodes, whatever rule names their parts have, are given one text exactly if they agree in all
that a body says. -/
theorem text_body_eq_iff (parts : node.NamesParts order names)
    (parts' : node'.NamesParts order' names') :
    (node.body order names).text = (node'.body order' names').text ↔
      Agree order order' node names node' names' :=
  ⟨agree_of_text_eq parts parts', Agree.text_eq⟩

/-- A key that has the text behind two keys in it does not pass for the two. -/
theorem text_body_eq_iff_imitating :
    (object [("a\" space \":\" space n \",\" space \"b", .null)]).NamesParts none ["n"] ∧
      (object [("a", .null), ("b", .null)]).NamesParts none ["n", "n"] ∧
      ((object [("a\" space \":\" space n \",\" space \"b", .null)]).body none ["n"]).text ≠
        ((object [("a", .null), ("b", .null)]).body none ["n", "n"]).text := by
  have isName : IsRuleName "n" := ⟨by decide, List.all_eq_true.mp (by decide)⟩
  have parts :
      (object [("a\" space \":\" space n \",\" space \"b", .null)]).NamesParts none ["n"] := by
    rw [NamesParts, SchemaNode.parts, PropertyOrder.sort, List.mergeSort_singleton]
    exact .cons isName .nil
  have sorted : PropertyOrder.sort none [("a", Value.null), ("b", Value.null)] =
    [("a", .null), ("b", .null)] := List.mergeSort_of_pairwise (by decide)
  have parts' : (object [("a", .null), ("b", .null)]).NamesParts none ["n", "n"] := by
    rw [NamesParts, SchemaNode.parts, sorted]
    exact .cons isName (.cons isName .nil)
  refine ⟨parts, parts', fun same => ?_⟩
  cases (text_body_eq_iff parts parts').mp same

end Agree

end SchemaNode

end SchemaGrammar
