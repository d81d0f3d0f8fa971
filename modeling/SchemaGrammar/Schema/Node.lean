import SchemaGrammar.Json.Writer
import SchemaGrammar.Gbnf.Primitive

/-!
# What kind of schema a value is

A schema is a JSON object, and its keys say of which kind it is. The keys are asked in a fixed
order: alternatives, one constant, several constants, and then the word under `type`. The first key
that is there decides, and if its value does not fit, the value is no schema, whatever else it has.

The parts of a node are parts of its value (`sizeOf_lt_of_mem_children`), so a walk over nodes ends.
-/

namespace SchemaGrammar

open Json (Value Member)

/-- A value that is no schema. -/
structure SchemaError where
  node : Value
  deriving Repr

/-- The words for a value that is no schema. -/
def SchemaError.message (e : SchemaError) : String :=
  "unrecognized schema: " ++ e.node.compact

/-- A schema seen by its kind, with its parts still values. -/
inductive SchemaNode
  | union (alternatives : List Value)
  | const (value : Value)
  | enum (values : List Value)
  | object (properties : List Member)
  | array (items : Value)
  | primitive (p : Primitive)
  deriving Repr

namespace SchemaNode

/-- The node of a schema that has none of the deciding keys, by the word under its `type`. -/
def ofType? (schema : Value) : Option SchemaNode :=
  match (schema.get? "type").bind Value.asString? with
  | none => none
  | some word =>
    if word == "object" then ((schema.get? "properties").bind Value.asObject?).map object
    else if word == "array" then (schema.get? "items").map array
    else (Primitive.ofTypeName? word).map primitive

/-- The node of a value, if it is a schema. -/
def ofValue? (schema : Value) : Option SchemaNode :=
  match (schema.get? "oneOf").or (schema.get? "anyOf") with
  | some alternatives => alternatives.asArray?.map union
  | none =>
    match schema.get? "const" with
    | some value => some (const value)
    | none =>
      match schema.get? "enum" with
      | some values => values.asArray?.map enum
      | none => ofType? schema

/-- Decides of which kind a schema is. -/
def classify (schema : Value) : Except SchemaError SchemaNode :=
  match ofValue? schema with
  | some node => .ok node
  | none => .error ⟨schema⟩

/-- The word for the kind of a node. -/
def kind : SchemaNode → String
  | union _ => "union"
  | const _ => "const"
  | enum _ => "enum"
  | object _ => "object"
  | array _ => "array"
  | primitive p => p.typeName

/-- The parts of a node that are schemas themselves. -/
def children : SchemaNode → List Value
  | union alternatives => alternatives
  | object properties => properties.map Prod.snd
  | array items => [items]
  | const _ | enum _ | primitive _ => []

/-! ## Parts are smaller -/

theorem sizeOf_lt_of_lookup {members : List Member} {key : String} {v : Value}
    (h : members.lookup key = some v) : sizeOf v < sizeOf members := by
  induction members with
  | nil => simp at h
  | cons m rest ih =>
    obtain ⟨k, w⟩ := m
    by_cases hk : key == k
    · simp [List.lookup_cons, hk] at h
      subst h
      simp
      omega
    · have hk' : (key == k) = false := by simpa using hk
      simp [List.lookup_cons, hk'] at h
      have := ih h
      simp
      omega

theorem sizeOf_lt_of_get? {schema v : Value} {key : String} (h : schema.get? key = some v) :
    sizeOf v < sizeOf schema := by
  cases schema <;> simp [Value.get?] at h
  have := sizeOf_lt_of_lookup h
  simp
  omega

theorem sizeOf_lt_of_asArray? {v c : Value} {items : List Value} (h : v.asArray? = some items)
    (hc : c ∈ items) : sizeOf c < sizeOf v := by
  cases v <;> simp [Value.asArray?] at h
  subst h
  have := List.sizeOf_lt_of_mem hc
  simp
  omega

theorem sizeOf_lt_of_asObject? {v c : Value} {members : List Member}
    (h : v.asObject? = some members) (hc : c ∈ members.map Prod.snd) : sizeOf c < sizeOf v := by
  cases v <;> simp [Value.asObject?] at h
  subst h
  obtain ⟨⟨k, w⟩, hm, rfl⟩ := List.mem_map.1 hc
  have := List.sizeOf_lt_of_mem hm
  simp at this ⊢
  omega

theorem sizeOf_lt_of_ofType? {schema c : Value} {node : SchemaNode}
    (h : ofType? schema = some node) (hc : c ∈ node.children) : sizeOf c < sizeOf schema := by
  unfold ofType? at h
  split at h
  · simp at h
  · split at h
    · obtain ⟨members, hm, rfl⟩ := Option.map_eq_some_iff.1 h
      obtain ⟨v, hv, hv'⟩ := Option.bind_eq_some_iff.1 hm
      have := sizeOf_lt_of_get? hv
      have := sizeOf_lt_of_asObject? hv' hc
      omega
    · split at h
      · obtain ⟨v, hv, rfl⟩ := Option.map_eq_some_iff.1 h
        simp [children] at hc
        subst hc
        exact sizeOf_lt_of_get? hv
      · obtain ⟨p, -, rfl⟩ := Option.map_eq_some_iff.1 h
        simp [children] at hc

/-- A part of a schema is smaller than the schema. -/
theorem sizeOf_lt_of_mem_children {schema c : Value} {node : SchemaNode}
    (h : ofValue? schema = some node) (hc : c ∈ node.children) : sizeOf c < sizeOf schema := by
  unfold ofValue? at h
  split at h
  · rename_i alternatives ha
    obtain ⟨items, hi, rfl⟩ := Option.map_eq_some_iff.1 h
    have := sizeOf_lt_of_asArray? hi hc
    rcases Option.or_eq_some_iff.1 ha with ha | ⟨-, ha⟩
    · have := sizeOf_lt_of_get? ha
      omega
    · have := sizeOf_lt_of_get? ha
      omega
  · split at h
    · simp at h
      subst h
      simp [children] at hc
    · split at h
      · obtain ⟨items, -, rfl⟩ := Option.map_eq_some_iff.1 h
        simp [children] at hc
      · exact sizeOf_lt_of_ofType? h hc

end SchemaNode

end SchemaGrammar
