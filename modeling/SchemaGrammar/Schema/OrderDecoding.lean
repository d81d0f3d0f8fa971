import SchemaGrammar.Json.Decoding
import SchemaGrammar.Schema.PropertyOrder

/-!
# Orders given as JSON

An order may also be given as an object from names to numbers. Of equal names the last one counts.
-/

namespace SchemaGrammar.PropertyOrder

open Json

/-- Decodes an order from a value. -/
def ofValue : Value → Except ValueMisfit PropertyOrder
  | .object members =>
    Value.walkMembers (fun order name v =>
      match v.decodeDouble with
      | .error e => .error (e.under (.key name))
      | .ok rank => .ok (Keyed.set order name rank)) [] members
  | v => .error (v.misfit "a map")

/-- Decodes an order from the outline of a text. -/
def ofOutline : Outline → Except TextMisfit PropertyOrder
  | .object _ members =>
    (members.walk (fun _ _ _ => .ok ()) (fun order name v =>
      match v.decodeDouble with
      | .error e => .error (e.under (.key name))
      | .ok rank => .ok (Keyed.set order name rank)) []).map Prod.fst
  | outline => outline.decodeAs "a map" fun _ => none

/-- Decodes the order at the start of a text. -/
def ofText (text : String) : Except DecodeError PropertyOrder :=
  (ofOutline (Outline.ofText text.toList)).mapError (.placed text.toList)

end SchemaGrammar.PropertyOrder
