import SchemaGrammar.Query.Arithmetic
import SchemaGrammar.Query.Access

/-!
# Native filters

The filters that cannot be defined by others: what they make of a datum, and of the data that their
arguments give. The others are defined in the query language itself (`preludeText`).
-/

namespace SchemaGrammar.Query

namespace Datum

/-- The length of a datum: how many items, entries or characters it has, or its magnitude. -/
def length (d : Datum) : Output :=
  match d with
  | null => .ok (int 0)
  | string s => .ok (int s.length)
  | array items => .ok (int items.length)
  | object entries => .ok (int entries.length)
  | d =>
    match d.numeric? with
    | some (.int i) => .ok (ofInt i.natAbs)
    | some (.double x) => .ok (double x.abs)
    | none => .error (.noLength d)

/-- The keys of an object, or the indices of an array. -/
def keys (d : Datum) : Output :=
  match d with
  | object entries => .ok (array (entries.map fun p => string p.1))
  | array items => .ok (array ((List.range items.length).map fun (i : Nat) => int i))
  | d => .error (.wrongType d iterableWords)

/-- Whether something stands under a key or an index. -/
def has (d key : Datum) : Output :=
  match d, key with
  | object entries, string s => .ok (bool (entries.lookup s).isSome)
  | array items, int i =>
    if 0 ≤ i then .ok (bool (i < items.length)) else .error (.cannotIndex d key)
  | d, key => .error (.cannotIndex d key)

/-- Changes the items of an array as a whole. -/
def onArray (f : List Datum → List Datum) (d : Datum) : Output :=
  match d with
  | array items => .ok (array (f items))
  | d => .error (.wrongType d "array")

/-- The items of an array in ascending order. -/
def sorted (d : Datum) : Output := d.onArray (·.mergeSort fun a b => b.order a != .lt)

/-- The datum that a string is a text of. -/
def fromText (d : Datum) : Output :=
  match d with
  | string s => (ofText s).mapError (.unreadable s)
  | d => .error (.wrongType d "string")

/-- The numbers from a start up or down to a stop, which is left out. `count` bounds their number. -/
def rangeFrom (count : Nat) (start stop step : Datum) : Outputs :=
  let before : Bool :=
    match step.order (int 0) with
    | .gt => start.order stop == .lt
    | .lt => start.order stop == .gt
    | .eq => !start.same stop
  match count with
  | 0 => if before then Outputs.failure .exhausted else .nil
  | count + 1 =>
    if before then
      .cons (.ok start) fun _ =>
        match start.add step with
        | .ok next => rangeFrom count next stop step
        | .error e => Outputs.failure e
    else .nil

end Datum

/-- How many numbers a range may have. -/
def rangeLimit : Nat := 1000000000000

/-- The native filters without arguments, and what they make of a datum. -/
def natives : List (String × (Datum → Outputs)) :=
  [("length", fun d => .last d.length), ("keys_unsorted", fun d => .last d.keys),
    ("sort", fun d => .last d.sorted), ("reverse", fun d => .last (d.onArray List.reverse)),
    ("type", fun d => .one (.string d.typeName)),
    ("isnumber", fun d => .one (.bool d.numeric?.isSome)),
    ("tojson", fun d => .one (.string d.text)), ("fromjson", fun d => .last d.fromText),
    ("tostring", fun d => .one (.string d.shownText)),
    ("@text", fun d => .one (.string d.shownText)), ("@json", fun d => .one (.string d.text)),
    ("error", fun d => .failure (.raised d)), ("empty", fun _ => .nil),
    ("nan", fun _ => .one (.double .nan)), ("infinite", fun _ => .one (.double .infinity)),
    ("null", fun _ => .one .null), ("true", fun _ => .one (.bool true)),
    ("false", fun _ => .one (.bool false))]

/-- The native filters with arguments, and how many they have. -/
def nativeWithArgs : List (String × Nat) :=
  [("has", 1), ("first", 1), ("error", 1), ("limit", 2), ("range", 3)]

/-- The filters that are defined by others. -/
def preludeText : String :=
  "def not: if . then false else true end;
  def keys: keys_unsorted | sort;
  def map(f): [.[] | f];
  def select(f): if f then . else empty end;
  def values: select(. != null);
  def add(f): reduce f as $x (null; . + $x);
  def add: add(.[]);
  def first: .[0];
  def last: .[-1];
  def last(f): reduce f as $x ([]; [$x]) | .[];
  def range($from; $to): range($from; $to; 1);
  def range($to): range(0; $to);
  def to_entries: [keys_unsorted[] as $k | \x7bkey: $k, value: .[$k]\x7d];
  def any(g; f): first((g | f | if . then true else empty end), false);
  def any(f): any(.[]; f);
  def any: any(.);
  def all(g; f): first((g | f | if . then empty else false end), true);
  def all(f): all(.[]; f);
  def all: all(.);
  def del(f): f |= empty;
  def tonumber: if isnumber then . else fromjson end;
  ."

end SchemaGrammar.Query
