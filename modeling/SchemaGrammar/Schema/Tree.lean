import SchemaGrammar.Schema.Node
import SchemaGrammar.Schema.PropertyOrder

/-!
# Schemas as trees

A schema is read off a value once, down to its leaves, so that what works on schemas recurses on
their own structure. A value that is no schema is kept in its place as an unsupported leaf; it is
for those who walk the tree to fail there.

`Schema.arrange` puts the properties of every object into their order. After that nothing in the
tree depends on the order in which a document names its keys.
-/

namespace SchemaGrammar

open Json (Value Member)

/-- A schema, with all that a grammar does not depend on left out. -/
inductive Schema
  | unsupported (node : Value)
  | union (alternatives : List Schema)
  | constants (values : List Value)
  | object (properties : List (String × Schema))
  | array (items : Schema)
  | primitive (p : Primitive)
  deriving Repr, Inhabited

namespace Schema

/-- The schema that a value is. -/
def ofValue (schema : Value) : Schema :=
  match _h : SchemaNode.ofValue? schema with
  | none => .unsupported schema
  | some (.const v) => .constants [v]
  | some (.enum vs) => .constants vs
  | some (.primitive p) => .primitive p
  | some (.array items) => .array (ofValue items)
  | some (.union alternatives) =>
    .union (alternatives.attach.map fun ⟨v, _⟩ => ofValue v)
  | some (.object properties) =>
    .object (properties.attach.map fun ⟨m, _⟩ => (m.1, ofValue m.2))
termination_by sizeOf schema
decreasing_by
  · exact SchemaNode.sizeOf_lt_of_mem_children _h (by simp [SchemaNode.children])
  · exact SchemaNode.sizeOf_lt_of_mem_children _h (by simpa [SchemaNode.children])
  · refine SchemaNode.sizeOf_lt_of_mem_children _h ?_
    exact List.mem_map.2 ⟨m, ‹_›, rfl⟩

mutual
/-- The schema with the properties of every object in order. -/
def arrange (order : Option PropertyOrder) : Schema → Schema
  | .unsupported node => .unsupported node
  | .union alternatives => .union (arrangeAll order alternatives)
  | .constants values => .constants values
  | .object properties => .object (PropertyOrder.sort order (arrangeProperties order properties))
  | .array items => .array (items.arrange order)
  | .primitive p => .primitive p
termination_by structural s => s
/-- Arranges every alternative. -/
def arrangeAll (order : Option PropertyOrder) : List Schema → List Schema
  | [] => []
  | s :: rest => s.arrange order :: arrangeAll order rest
termination_by structural ss => ss
/-- Arranges the schema of every property. -/
def arrangeProperties (order : Option PropertyOrder) :
    List (String × Schema) → List (String × Schema)
  | [] => []
  | (name, s) :: rest => (name, s.arrange order) :: arrangeProperties order rest
termination_by structural ps => ps
end

end Schema

end SchemaGrammar
