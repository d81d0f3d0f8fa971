import SchemaGrammar.Double.Literal
import SchemaGrammar.Keyed
import SchemaGrammar.Text.Blank
import SchemaGrammar.Text.Split

/-!
# The order of properties

An order gives ranks to property names. Properties stand in ascending rank, and those of equal rank
in ascending order of their names. A property without a rank counts as one of infinite rank.

An order is written as a list of entries between commas: a name alone is ranked by its position
among the entries that are not blank, and a name with an equals sign by the number behind it.
-/

namespace SchemaGrammar

/-- Ranks under property names. -/
abbrev PropertyOrder := Keyed Double

/-- What is wrong with an entry of a written order. -/
inductive OrderError
  | noName (entry : String)
  | badRank (entry : String) (isEmpty : Bool)
  deriving DecidableEq, Repr

/-- The words for a bad entry. -/
def OrderError.message : OrderError → String
  | noName entry => s!"empty property name in prop order entry `{entry}`"
  | badRank entry isEmpty =>
    let reason := if isEmpty then "cannot parse float from empty string" else "invalid float literal"
    s!"invalid rank in prop order entry `{entry}`: {reason}"

namespace PropertyOrder

/-- The key by which a property is placed. -/
def rankKey (order : Option PropertyOrder) (name : String) : Int :=
  ((order.bind (·.lookup name)).getD Double.infinity).sortKey

/-- Whether a property may stand before another one. -/
def precedes (order : Option PropertyOrder) (a b : String) : Bool :=
  rankKey order a < rankKey order b || (rankKey order a == rankKey order b && a ≤ b)

/-- Puts properties into their order. -/
def sort (order : Option PropertyOrder) (properties : List (String × α)) : List (String × α) :=
  properties.mergeSort fun p q => precedes order p.1 q.1

/-- Reads one entry; `position` is the rank of a name that has none of its own. -/
def readEntry (position : Nat) (entry : List Char) : Except OrderError (String × Double) :=
  match Text.splitFirst? '=' entry with
  | none => .ok (String.ofList entry, .ofNat position)
  | some (name, rank) =>
    let name := Text.trim name
    let rank := Text.trim rank
    match Double.ofLiteral? rank with
    | none => .error (.badRank (String.ofList entry) rank.isEmpty)
    | some r =>
      if name.isEmpty then .error (.noName (String.ofList entry)) else .ok (String.ofList name, r)

/-- The entries of a written order: its pieces between commas, trimmed, without the blank ones. -/
def entries (text : List Char) : List (List Char) :=
  ((Text.split ',' text).map Text.trim).filter fun entry => !entry.isEmpty

/-- Reads a written order. Of entries with the same name the last one counts. -/
def parse (text : String) : Except OrderError PropertyOrder :=
  ((entries text.toList).zipIdx.mapM fun (entry, position) => readEntry position entry).map
    (Keyed.extend [])

end PropertyOrder

end SchemaGrammar
