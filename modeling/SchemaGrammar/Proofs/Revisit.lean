import SchemaGrammar.Proofs.Faithful

/-!
# Visiting a schema again

A visit is stable under everything that comes after it: visited again under the same hint, at any
later time, a schema gives the result it gave at first, a name or a failure, and the table is left
as it is (`Converter.visit_again`).

One registration is stable (`RuleTable.Sound.register_again`), and the walk is by induction: the
parts come back under their first names, so the body of the node has its first text, and is found
where it was put. A walk that failed comes back to the same part in the same way, so the rules that
it left behind change nothing either.
-/

namespace SchemaGrammar

open Gbnf (RuleTable Body)
open Json (Value)

/-- Registering the body of a node again gives the name that it was given at first. -/
theorem place_again {table later : RuleTable} (sound : table.Sound) (sound' : later.Sound)
    (hint : String) (body : Body) (grown : (place table hint body).1.Extends later) :
    place later hint body = (later, (place table hint body).2) := by
  unfold place at grown ⊢
  split at grown
  · next empty =>
    rw [if_pos empty, if_pos empty]
    exact sound.register_again sound' _ body.text _ grown
  · next notEmpty =>
    rw [if_neg notEmpty, if_neg notEmpty]
    exact sound.register_again sound' _ body.text _ grown

/-- The walk over a document, repeated in a table that extends its outcome, gives the result that it
gave at first and changes nothing. -/
def Repeats (order : Option PropertyOrder) (v : Value) : Prop :=
  ∀ {hint : String} {table middle later : RuleTable} {result : Except SchemaError String},
    table.Sound → later.Sound → emitValue order hint table v = (middle, result) →
    middle.Extends later → emitValue order hint later v = (later, result)

/-- If the walk over each part repeats, so does the walk over all of them. -/
theorem emitParts_again {order : Option PropertyOrder} {hint : String} {later : RuleTable}
    (sound' : later.Sound) :
    ∀ {parts : List (String × Value)} {table middle : RuleTable}
      {result : Except SchemaError (List String)},
      (∀ part ∈ parts, Repeats order part.2) → table.Sound →
      emitParts order hint table parts = (middle, result) → middle.Extends later →
      emitParts order hint later parts = (later, result)
  | [], _, _, _, _, _, rfl, _ => rfl
  | part :: rest, table, _, _, each, sound, walked, grown => by
    have first := @each part List.mem_cons_self
    have others : ∀ part ∈ rest, Repeats order part.2 :=
      fun part mem => each part (List.mem_cons_of_mem _ mem)
    -- a part that is given a name, and those behind it
    have again {between after : RuleTable} {name : String}
        {result : Except SchemaError (List String)}
        (visited : emitValue order (childHint hint part.1) table part.2 = (between, .ok name))
        (following : emitParts order hint between rest = (after, result))
        (grown : after.Extends later) :
        emitValue order (childHint hint part.1) later part.2 = (later, .ok name) ∧
          emitParts order hint later rest = (later, result) := by
      have soundBetween := (emitValue_emits_of_eq sound visited).sound
      have more := emitParts_emits_of_eq soundBetween following
      exact ⟨first sound sound' visited (more.grown.trans grown),
        emitParts_again sound' others soundBetween following grown⟩
    have walk := emitParts_walk order hint table part rest
    rw [walked] at walk
    cases walk with
    | failed visited => rw [emitParts, first sound sound' visited grown]
    | failedLater visited following =>
      obtain ⟨firstAgain, othersAgain⟩ := again visited following grown
      rw [emitParts, firstAgain]
      dsimp only
      rw [othersAgain]
    | named visited following =>
      obtain ⟨firstAgain, othersAgain⟩ := again visited following grown
      rw [emitParts, firstAgain]
      dsimp only
      rw [othersAgain]

/-- The walk over every document repeats. -/
theorem repeats (order : Option PropertyOrder) (v : Value) : Repeats order v := by
  induction v using SchemaNode.induction with
  | step v ih =>
    intro hint table middle later result sound sound' visited grown
    have below (node : SchemaNode) (classified : SchemaNode.ofValue? v = some node) :
        ∀ part ∈ node.parts order, Repeats order part.2 :=
      fun part mem => ih node classified part.2 (SchemaNode.mem_children mem)
    have walk := emitValue_walk order hint table v
    rw [visited] at walk
    cases walk with
    | unsupported classified => rw [emitValue_eq, classified]
    | failed classified walked =>
      rw [emitValue_eq, classified]
      dsimp only
      rw [emitParts_again sound' (below _ classified) sound walked grown]
    | @placed node before names classified walked =>
      have parts := emitParts_emits_of_eq sound walked
      obtain ⟨registers, -⟩ :=
        place_registers parts.sound (node.ownHint hint) (node.body order names)
      have grownParts := registers.extends.trans grown
      rw [emitValue_eq, classified]
      dsimp only
      rw [emitParts_again sound' (below node classified) sound walked grownParts]
      dsimp only
      rw [place_again parts.sound sound' _ _ grown]
      rfl

namespace Converter

/-- Visiting a schema again under its hint, after any visits in between, gives the result of the
first visit and leaves the converter as it is. -/
theorem visit_again {order : Option PropertyOrder} {before later : Converter} {schema : Value}
    {hint : String} (reached : (Converter.new order).Reaches before)
    (further : (before.visit schema hint).1.Reaches later) :
    later.visit schema hint = (later, (before.visit schema hint).2) := by
  obtain ⟨-, sound, -⟩ := reached.keeps RuleTable.sound_initial
  have emits := emitValue_emits before.order schema hint before.table sound
  obtain ⟨sameOrder, sound', grown⟩ := further.keeps emits.sound
  have again : emitValue before.order hint later.table schema =
      (later.table, (before.visit schema hint).2) :=
    repeats before.order schema sound sound' rfl grown
  have keptOrder : later.order = before.order := sameOrder
  rw [visit_eq, keptOrder, again]
  exact Prod.ext (keptOrder ▸ rfl) rfl

/-- An array whose items' name is taken gets a suffixed name for them and keeps it, although a visit
in between fails and leaves a rule behind, and another one takes the next suffix. -/
theorem visit_again_suffixed :
    let one : Value := .object [("const", .string "one")]
    let two : Value := .object [("const", .string "two")]
    let three : Value := .object [("const", .string "three")]
    let schema : Value := .object [("type", .string "array"), ("items", two)]
    let failing : Value := .object [("oneOf", .array [three, .null])]
    let before := ((Converter.new none).visit one "x-item").1
    let first := (before.visit schema "x").1
    let later := ((first.visit failing "x").1.visit three "x-item").1
    later.table.toList.map Prod.fst = ["space", "x-item", "x-item0", "x", "x-0", "x-item1"] ∧
      later.visit schema "x" = (later, .ok "x") :=
  ⟨by cbv, (visit_again (.visit _ _ .refl) (.visit _ _ (.visit _ _ .refl))).trans
    (congrArg (Prod.mk _) (by cbv))⟩

end Converter

end SchemaGrammar
