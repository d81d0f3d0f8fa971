import SchemaGrammar.Query.Outputs
import SchemaGrammar.Query.Part

/-!
# Following a path

The parts of a datum that a path leads to can be taken out (`Datum.follow`) and changed in their
place (`Datum.change`).

A negative index counts from the end. An index or a key that is not there gives null, and only an
index that is not there cannot be changed. A part is removed by changing it into nothing: the last
entry of an object then takes the place of the one removed. Where a part cannot be asked for, a
lenient path leads nowhere, and a change along it changes nothing.
-/

namespace SchemaGrammar.Query

namespace Datum

/-- The position that an index stands for in a list of some length, if it is in it. -/
def position? (i : Int) (length : Nat) : Option Nat :=
  let p := if i < 0 then i + length else i
  if 0 ≤ p ∧ p < length then some p.toNat else none

/-- The integer that a datum is. -/
def asInteger : Datum → Except RunError Int
  | int i => .ok i
  | d => .error (.wrongType d "integer")

/-- The position that the bound of a range stands for. -/
def boundPosition (bound : Option Int) (length otherwise : Nat) : Nat :=
  match bound with
  | none => otherwise
  | some i => min (if i < 0 then i + length else i).toNat length

/-- The start and the length of a range in a list. -/
def rangeIn (start stop : Option Int) (length : Nat) : Nat × Nat :=
  let first := boundPosition start length 0
  (first, boundPosition stop length length - first)

/-- The part of a list in a range. -/
def sliceList (start stop : Option Int) (items : List α) : List α :=
  let (skip, take) := rangeIn start stop items.length
  (items.drop skip).take take

/-- The integers that the bounds of a range are. -/
def bounds (start stop : Option Datum) : Except RunError (Option Int × Option Int) := do
  let first ← start.mapM asInteger
  let second ← stop.mapM asInteger
  .ok (first, second)

/-! ## Taking parts out -/

/-- What stands under a key or an index. -/
def index (d key : Datum) : Output :=
  match d, key with
  | array items, int i =>
    .ok (((position? i items.length).bind (items[·]?)).getD null)
  | object entries, string s => .ok ((entries.lookup s).getD null)
  | array _, _ | object _, _ => .error (.cannotIndex d key)
  | _, _ => .error (.wrongType d iterableWords)

/-- The items of an array, or the characters of a string, in a range. -/
def slice (d : Datum) (start stop : Option Datum) : Output :=
  match d with
  | array items => (bounds start stop).map fun (i, j) => array (sliceList i j items)
  | string s =>
    (bounds start stop).map fun (i, j) => string (String.ofList (sliceList i j s.toList))
  | d => .error (.wrongType d rangeableWords)

/-- Everything in an array or an object. -/
def iterate (d : Datum) : Outputs :=
  match d with
  | array items => .ofList (items.map .ok)
  | object entries => .ofList (entries.map fun p => .ok p.2)
  | d => .failure (.wrongType d iterableWords)

/-- What one part of a path leads to, failures included. -/
def takeOut (part : Part Datum) (d : Datum) : Outputs :=
  match part with
  | .index key _ => .last (d.index key)
  | .range start stop _ => .last (d.slice start stop)
  | .all _ => d.iterate

/-- What a path leads to. -/
def follow (path : List (Part Datum)) (d : Datum) : Outputs :=
  match path with
  | [] => .one d
  | part :: rest =>
    let found := takeOut part d
    Outputs.each (if part.lenient then found.filter Except.isOk else found) (follow rest)

/-! ## Changing parts -/

/-- The first of some outputs, if there is one. -/
def first? (outputs : Outputs) : Except RunError (Option Datum) :=
  match outputs.head? with
  | none => .ok none
  | some (.ok d) => .ok (some d)
  | some (.error e) => .error e

/-- Removes the entry under a key and puts the last entry into its place. -/
def removeEntry (entries : Keyed Datum) (key : String) : Keyed Datum :=
  match entries.getLast? with
  | none => []
  | some last =>
    if last.1 == key then entries.dropLast
    else entries.dropLast.map fun p => if p.1 == key then last else p

/-- Changes what stands under a key of an object. -/
def changeEntry (entries : Keyed Datum) (key : String) (f : Datum → Outputs) : Output :=
  match entries.lookup key with
  | some held =>
    (first? (f held)).map fun
      | some d => object (Keyed.set entries key d)
      | none => object (removeEntry entries key)
  | none =>
    (first? (f null)).map fun
      | some d => object (Keyed.set entries key d)
      | none => object entries

/-- Changes the item of an array at a position. -/
def changeItem (items : List Datum) (position : Nat) (f : Datum → Outputs) : Output :=
  (first? (f (items[position]?.getD null))).map fun
    | some d => array (items.set position d)
    | none => array (items.eraseIdx position)

/-- Changes the items of an array from a position on. -/
def changeRange (items : List Datum) (skip take : Nat) (f : Datum → Outputs) : Output := do
  match ← first? (f (array ((items.drop skip).take take))) with
  | some (array changed) => .ok (array (items.take skip ++ changed ++ items.drop (skip + take)))
  | some other => .error (.wrongType other "array")
  | none => .ok (array (items.take skip ++ items.drop (skip + take)))

/-- Changes every item of an array. An item may become several. -/
def changeItems (items : List Datum) (f : Datum → Outputs) : Output :=
  (((LazyList.ofList items).flatMap f).collect).map array

/-- Changes every value of an object. -/
def changeEntries (entries : Keyed Datum) (f : Datum → Outputs) : Output :=
  (entries.mapM fun p => (first? (f p.2)).map fun d? => d?.map fun d => (p.1, d)).map
    fun changed => object (changed.filterMap id)

/-- The datum itself where a part need not be there, and a failure where it has to. -/
def unchanged (d : Datum) (lenient : Bool) (e : RunError) : Output :=
  if lenient then .ok d else .error e

/-- Changes what one part of a path leads to. -/
def changePart (part : Part Datum) (f : Datum → Outputs) (d : Datum) : Output :=
  match part, d with
  | .index (string key) _, object entries => changeEntry entries key f
  | .index key lenient, object _ => unchanged d lenient (.cannotIndex d key)
  | .index key lenient, array items =>
    match asInteger key with
    | .error e => unchanged d lenient e
    | .ok i =>
      match position? i items.length with
      | none => unchanged d lenient (.outOfBounds key)
      | some position => changeItem items position f
  | .index _ lenient, d => unchanged d lenient (.wrongType d iterableWords)
  | .range start stop lenient, array items =>
    match bounds start stop with
    | .error e => unchanged d lenient e
    | .ok (i, j) =>
      let (skip, take) := rangeIn i j items.length
      changeRange items skip take f
  | .range _ _ lenient, d => unchanged d lenient (.wrongType d "array")
  | .all _, array items => changeItems items f
  | .all _, object entries => changeEntries entries f
  | .all lenient, d => unchanged d lenient (.wrongType d iterableWords)

/-- Changes what a path leads to. -/
def change (path : List (Part Datum)) (f : Datum → Outputs) (d : Datum) : Outputs :=
  match path with
  | [] => f d
  | part :: rest => .last (changePart part (change rest f) d)

end Datum

end SchemaGrammar.Query
