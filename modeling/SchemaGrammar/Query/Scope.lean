import SchemaGrammar.Query.Reading

/-!
# Names of a query

A scope says what the names at some place of a query stand for: variables for data, definitions for
filters with parameters, and parameters for the filters that were given for them, each of which runs
in the scope of its own place. A definition sees itself.

Before a query runs, all names in it are looked up (`Filter.missing`), in definitions that are never
called, too. They come in the order in which filters are put together: the arguments of a call before
its name, what a conditional does otherwise before its condition, and else from left to right.
-/

namespace SchemaGrammar.Query

/-- What the names at some place stand for. -/
inductive Scope
  | top
  | value (name : String) (d : Datum) (outer : Scope)
  | definition (name : String) (params : List String) (body : Filter) (outer : Scope)
  | argument (name : String) (f : Filter) (home : Scope) (outer : Scope)
  deriving Inhabited

/-- What a call runs, and where. -/
inductive Callee
  | definition (params : List String) (body : Filter) (home : Scope)
  | argument (f : Filter) (home : Scope)

namespace Scope

/-- The datum that a variable stands for. -/
def value? (scope : Scope) (name : String) : Option Datum :=
  match scope with
  | top => none
  | value n d outer => if n == name then some d else outer.value? name
  | definition _ _ _ outer => outer.value? name
  | argument _ _ _ outer => outer.value? name

/-- What a call of a name with so many arguments runs. -/
def callee? (scope : Scope) (name : String) (arity : Nat) : Option Callee :=
  match scope with
  | top => none
  | value _ _ outer => outer.callee? name arity
  | definition n params body outer =>
    if n == name && params.length == arity then some (.definition params body scope)
    else outer.callee? name arity
  | argument n f home outer =>
    if n == name && arity == 0 then some (.argument f home) else outer.callee? name arity

end Scope

/-- A name that stands for nothing. -/
inductive Missing
  | datum (name : String)
  | filter (name : String) (arity : Nat)
  deriving DecidableEq, Repr

/-- A name that stands for nothing, and what it should stand for. -/
def Missing.described : Missing → String × String
  | datum name => (name, "Var")
  | filter name arity => (name, s!"Filter({arity})")

/-- The names that are known at some place: variables, and filters with their arities. -/
structure Known where
  data : List String
  filters : List (String × Nat)

namespace Known

/-- Also knows a variable. -/
def withVariable (known : Known) (name : String) : Known :=
  { known with data := name :: known.data }

/-- Also knows a filter. -/
def withFilter (known : Known) (name : String) (arity : Nat) : Known :=
  { known with filters := (name, arity) :: known.filters }

/-- Also knows the parameters of a definition. -/
def withParams (known : Known) : List String → Known
  | [] => known
  | p :: rest =>
    match p.toList with
    | '$' :: _ => (known.withVariable p).withParams rest
    | _ => (known.withFilter p 0).withParams rest

end Known

/-- The name of a call, if nothing is known by it that takes so many arguments. -/
def Known.missingCall (known : Known) (name : String) (arity : Nat) : List Missing :=
  if known.filters.contains (name, arity) then [] else [.filter name arity]

mutual
/-- The names in a filter that stand for nothing, in order. -/
def Filter.missing (known : Known) : Filter → List Missing
  | .identity | .literal _ => []
  | .template none _ tail => missingInTail known tail
  | .template (some format) _ tail => known.missingCall format 0 ++ missingInTail known tail
  | .collect f | .ownEntry f | .negate f => f.missing known
  | .entry f g | .calculate _ f g | .compare _ f g | .both f g | .either f g | .fallback f g
  | .pipe f g | .comma f g | .handle f g | .update f g | .assign f g | .calculateInto f _ g
  | .fallbackInto f g => f.missing known ++ g.missing known
  | .bind f name g => f.missing known ++ g.missing (known.withVariable name)
  | .branch c f g => g.missing known ++ c.missing known ++ f.missing known
  | .reduce source name (start :: step :: more) =>
    source.missing known ++ start.missing known ++ step.missing (known.withVariable name) ++
      (if more.isEmpty then [] else [.filter "reduce" (more.length + 2)])
  | .reduce _ _ args => [.filter "reduce" args.length]
  | .path base parts => base.missing known ++ missingInParts known parts
  | .var name => if known.data.contains name then [] else [.datum name]
  | .call name args => missingInArgs known args ++ known.missingCall name args.length
  | .define name params body rest =>
    let known := known.withFilter name params.length
    body.missing (known.withParams params) ++ rest.missing known
termination_by structural f => f
/-- The names in arguments that stand for nothing. -/
def missingInArgs (known : Known) : List Filter → List Missing
  | [] => []
  | f :: rest => f.missing known ++ missingInArgs known rest
termination_by structural fs => fs
/-- The names between the pieces of a string that stand for nothing. -/
def missingInTail (known : Known) : List (Filter × String) → List Missing
  | [] => []
  | (f, _) :: rest => f.missing known ++ missingInTail known rest
termination_by structural tail => tail
/-- The names in a path that stand for nothing. -/
def missingInParts (known : Known) : List (Part Filter) → List Missing
  | [] => []
  | .index f _ :: rest => f.missing known ++ missingInParts known rest
  | .range none none _ :: rest => missingInParts known rest
  | .range (some f) none _ :: rest => f.missing known ++ missingInParts known rest
  | .range none (some g) _ :: rest => g.missing known ++ missingInParts known rest
  | .range (some f) (some g) _ :: rest =>
    f.missing known ++ g.missing known ++ missingInParts known rest
  | .all _ :: rest => missingInParts known rest
termination_by structural parts => parts
end

/-- The filters that a row of definitions puts into a scope, and their names and arities. -/
def Filter.definitions (scope : Scope) (known : List (String × Nat)) :
    Filter → Scope × List (String × Nat)
  | .define name params body rest =>
    rest.definitions (.definition name params body scope) ((name, params.length) :: known)
  | _ => (scope, known)

end SchemaGrammar.Query
