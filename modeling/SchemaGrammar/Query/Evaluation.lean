import SchemaGrammar.Query.Engine
import SchemaGrammar.Query.Scope
import SchemaGrammar.Query.Native

/-!
# Running a query

A filter runs on a datum and gives its outputs in order, each of which may be a failure. Of two
filters with an operator between them the first varies slowest. A path is found in a base: first all
its keys and bounds are made from the input, and for each choice of them the base runs, so the keys
vary slowest of all.

A filter that names parts of its input can also be run backwards: `update` gives the input with
those parts changed. The keys of a path are found in the original input there, too.

`fuel` bounds how deep filters may call each other; a query that goes deeper fails there. A call is
answered by a list that is not begun yet, so a filter that calls itself at its very end needs no more
room than one call.
-/

namespace SchemaGrammar.Query

mutual
/-- The outputs of a filter on a datum. -/
def eval (fuel : Nat) (scope : Scope) (f : Filter) (d : Datum) : Outputs :=
  match fuel with
  | 0 => .failure .exhausted
  | fuel + 1 =>
    match f with
    | .identity => .one d
    | .literal a => .one a
    | .template format head tail =>
      (evalTemplate fuel scope format (.ok head) tail d).map (·.map .string)
    | .collect f => .last ((eval fuel scope f d).collect.map .array)
    | .entry key value =>
      Outputs.cross (eval fuel scope key d) (fun _ => eval fuel scope value d) fun
        | .string s, a => .ok (.object [(s, a)])
        | k, _ => .error (.wrongType k "string")
    | .ownEntry key => eval fuel scope (.entry key (.field key)) d
    | .negate f => (eval fuel scope f d).map (· >>= Datum.negate)
    | .calculate operator f g =>
      Outputs.cross (eval fuel scope f d) (fun _ => eval fuel scope g d) fun a b =>
        a.calculate operator b
    | .compare comparison f g =>
      Outputs.cross (eval fuel scope f d) (fun _ => eval fuel scope g d) fun a b =>
        .ok (.bool (comparison.holds (f.picks && g.picks) a b))
    | .both f g =>
      Outputs.each (eval fuel scope f d) fun a =>
        if a.isTrue then (eval fuel scope g d).map (·.map fun b => .bool b.isTrue)
        else .one (.bool false)
    | .either f g =>
      Outputs.each (eval fuel scope f d) fun a =>
        if a.isTrue then .one (.bool true)
        else (eval fuel scope g d).map (·.map fun b => .bool b.isTrue)
    | .fallback f g =>
      ((eval fuel scope f d).filter Outputs.isTrueOrFailure).orElse fun _ => eval fuel scope g d
    | .pipe f g => Outputs.each (eval fuel scope f d) fun a => eval fuel scope g a
    | .bind f name g =>
      Outputs.each (eval fuel scope f d) fun a => eval fuel (.value name a scope) g d
    | .comma f g => (eval fuel scope f d).append fun _ => eval fuel scope g d
    | .branch condition yes no =>
      Outputs.each (eval fuel scope condition d) fun a =>
        if a.isTrue then eval fuel scope yes d else eval fuel scope no d
    | .handle f handler =>
      Outputs.handle (eval fuel scope f d) fun payload => eval fuel scope handler payload
    | .reduce source name [start, step] =>
      Outputs.each (eval fuel scope start d) fun a =>
        Outputs.thread (eval fuel scope source d) a fun x a =>
          eval fuel (.value name x scope) step a
    | .reduce _ _ _ => .failure .noPath
    | .path base parts =>
      Outputs.each (evalParts fuel scope parts d) fun path =>
        Outputs.each (eval fuel scope base d) fun b => b.follow path
    | .var name => ((scope.value? name).map Outputs.one).getD (.failure .noPath)
    | .call name args =>
      match scope.callee? name args.length with
      | some (.argument f home) => .later fun _ => eval fuel home f d
      | some (.definition params body home) =>
        .later fun _ =>
          Outputs.each (bindParams fuel scope params args home d) fun home =>
            eval fuel home body d
      | none => evalNative fuel scope name args d
    | .define name params body rest => eval fuel (.definition name params body scope) rest d
    | .update path f => update fuel scope path d fun a => eval fuel scope f a
    | .assign path f =>
      Outputs.each (eval fuel scope f d) fun a => update fuel scope path d fun _ => .one a
    | .calculateInto path operator f =>
      Outputs.each (eval fuel scope f d) fun b =>
        update fuel scope path d fun a => .last (a.calculate operator b)
    | .fallbackInto path f =>
      Outputs.each (eval fuel scope f d) fun b =>
        update fuel scope path d fun a => .one (if a.isTrue then a else b)
/-- The texts that a template makes behind the text made so far. -/
def evalTemplate (fuel : Nat) (scope : Scope) (format : Option String)
    (text : Except RunError String) (tail : List (Filter × String)) (d : Datum) :
    LazyList (Except RunError String) :=
  match fuel with
  | 0 => .last (.error .exhausted)
  | fuel + 1 =>
    match tail with
    | [] => .last text
    | (f, piece) :: tail =>
      let outputs :=
        match format with
        | none => eval fuel scope f d
        | some name => Outputs.each (eval fuel scope f d) fun a => eval fuel scope (.call name []) a
      outputs.flatMap fun output =>
        evalTemplate fuel scope format
          (do
            let before ← text
            let a ← output
            .ok (before ++ a.shownText ++ piece))
          tail d
/-- The paths that the keys and bounds of some parts make, the last of which vary fastest. -/
def evalParts (fuel : Nat) (scope : Scope) (parts : List (Part Filter)) (d : Datum) :
    LazyList (Except RunError (List (Part Datum))) :=
  match fuel with
  | 0 => .last (.error .exhausted)
  | fuel + 1 =>
    match parts with
    | [] => .last (.ok [])
    | part :: parts =>
      (evalPart fuel scope part d).flatMap fun part =>
        (evalParts fuel scope parts d).map fun path => do .ok ((← part) :: (← path))
/-- The parts that the keys and bounds of one part make. -/
def evalPart (fuel : Nat) (scope : Scope) (part : Part Filter) (d : Datum) :
    LazyList (Except RunError (Part Datum)) :=
  match fuel with
  | 0 => .last (.error .exhausted)
  | fuel + 1 =>
    match part with
    | .index key lenient => (eval fuel scope key d).map (·.map fun k => .index k lenient)
    | .range start stop lenient =>
      (evalBound fuel scope start d).flatMap fun first =>
        (evalBound fuel scope stop d).map fun second =>
          do .ok (.range (← first) (← second) lenient)
    | .all lenient => .last (.ok (.all lenient))
/-- The bounds of a range; none if the range has no such bound. -/
def evalBound (fuel : Nat) (scope : Scope) (bound : Option Filter) (d : Datum) :
    LazyList (Except RunError (Option Datum)) :=
  match fuel with
  | 0 => .last (.error .exhausted)
  | fuel + 1 =>
    match bound with
    | none => .last (.ok none)
    | some f => (eval fuel scope f d).map (·.map some)
/-- The scopes in which a definition runs, one for each way to give its variables a value. -/
def bindParams (fuel : Nat) (scope : Scope) (params : List String) (args : List Filter)
    (home : Scope) (d : Datum) : LazyList (Except RunError Scope) :=
  match fuel with
  | 0 => .last (.error .exhausted)
  | fuel + 1 =>
    match params, args with
    | p :: params, f :: args =>
      if p.toList.head? == some '$' then
        (eval fuel scope f d).flatMap fun
          | .error e => .last (.error e)
          | .ok a => bindParams fuel scope params args (.value p a home) d
      else bindParams fuel scope params args (.argument p f scope home) d
    | _, _ => .last (.ok home)
/-- The outputs of a native filter. -/
def evalNative (fuel : Nat) (scope : Scope) (name : String) (args : List Filter) (d : Datum) :
    Outputs :=
  match fuel with
  | 0 => .failure .exhausted
  | fuel + 1 =>
    match args with
    | [] =>
      match natives.lookup name with
      | some f => f d
      | none => .failure .noPath
    | [f] =>
      if name == "first" then (eval fuel scope f d).take 1
      else if name == "error" then raise fuel scope f d .one
      else (eval fuel scope f d).map (· >>= d.has)
    | [f, g] =>
      Outputs.each (eval fuel scope f d) fun
        | .int i => if 0 < i then (eval fuel scope g d).take i.toNat else .nil
        | a => .failure (.wrongType a "integer")
    | [f, g, h] =>
      Outputs.each (eval fuel scope f d) fun a => Outputs.each (eval fuel scope g d) fun b =>
        Outputs.each (eval fuel scope h d) fun c => Datum.rangeFrom rangeLimit a b c
    | _ => .failure .noPath
/-- Raises the first output of a filter, or goes on with the datum if there is none. -/
def raise (fuel : Nat) (scope : Scope) (f : Filter) (d : Datum) (next : Datum → Outputs) :
    Outputs :=
  match fuel with
  | 0 => .failure .exhausted
  | fuel + 1 =>
    match (eval fuel scope f d).head? with
    | none => next d
    | some (.ok payload) => .failure (.raised payload)
    | some (.error e) => .failure e
/-- The datum with the parts that a path names changed. -/
def update (fuel : Nat) (scope : Scope) (path : Filter) (d : Datum) (f : Datum → Outputs) :
    Outputs :=
  match fuel with
  | 0 => .failure .exhausted
  | fuel + 1 =>
    match path with
    | .identity => f d
    | .path base parts =>
      update fuel scope base d fun b =>
        Outputs.thread (evalParts fuel scope parts d) b fun path b => b.change path f
    | .pipe p q => update fuel scope p d fun a => update fuel scope q a f
    | .comma p q => Outputs.each (update fuel scope p d f) fun a => update fuel scope q a f
    | .bind g name p =>
      Outputs.thread (eval fuel scope g d) d fun a d => update fuel (.value name a scope) p d f
    | .branch condition yes no =>
      Outputs.thread (eval fuel scope condition d) d fun a d =>
        if a.isTrue then update fuel scope yes d f else update fuel scope no d f
    | .fallback p q =>
      if ((eval fuel scope p d).filter Outputs.isTrueOrFailure).head?.isSome then
        update fuel scope p d f
      else update fuel scope q d f
    | .reduce source name [start, step] =>
      update fuel scope start d fun a =>
        Outputs.layer (eval fuel scope source d)
          (fun x f a => update fuel (.value name x scope) step a f) f a
    | .call name args =>
      match scope.callee? name args.length with
      | some (.argument g home) => update fuel home g d f
      | some (.definition params body home) =>
        Outputs.thread (bindParams fuel scope params args home d) d fun home d =>
          update fuel home body d f
      | none =>
        match args with
        | [] =>
          if name == "empty" then .one d
          else if name == "error" then .failure (.raised d)
          else .failure .noPath
        | [g] => if name == "error" then raise fuel scope g d f else .failure .noPath
        | _ => .failure .noPath
    | .define name params body rest => update fuel (.definition name params body scope) rest d f
    | _ => .failure .noPath
end

/-- How deep a query may go. -/
def fuelLimit : Nat := 1000000000000

/-- The scope in which a query starts, and the filters that are known there. -/
def startScope : Scope × List (String × Nat) :=
  ((Filter.ofText? preludeText).getD .identity).definitions .top
    (nativeWithArgs ++ natives.map fun p => (p.1, 0))

/-- The text of an output, or what its failure would be handled as. -/
def shown (output : Output) : Except String String :=
  (output.map Datum.text).mapError fun e => e.payload.text

/-- The engine for the part of the query language that is evaluated here. Names of other filters
stand for nothing in it. -/
def evaluator : Engine where
  load query :=
    match Filter.ofText? query with
    | none => .error (.unreadable ["not a filter"])
    | some f =>
      match f.missing ⟨[], startScope.2⟩ with
      | [] => .ok fun v => (eval fuelLimit startScope.1 f (Datum.ofValue v)).map shown
      | names => .error (.undefined (names.map Missing.described))

end SchemaGrammar.Query
