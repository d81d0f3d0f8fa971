import Mathlib.Data.List.Basic

/-!
# Expressions of a grammar and the texts they derive

What a body means once it is read: an expression over literals, character classes and rules, put
together by sequence, choice and repetition. `Derives rules e text` says that `text` is one of the
texts of `e`, where `rules` gives the expression of each rule. It is the least relation with one
clause for each construct; the lemmas that turn a construct's clause around are what proofs about
a grammar use.
-/

namespace SchemaGrammar.Gbnf

/-- A character class: ranges of characters, or all characters outside of them. -/
structure CharClass where
  negated : Bool
  ranges : List (Char × Char)
  deriving DecidableEq, Repr

/-- Whether a character belongs to a class. -/
def CharClass.has (charClass : CharClass) (c : Char) : Bool :=
  (charClass.ranges.any fun (low, high) => low ≤ c && c ≤ high) != charClass.negated

/-- An expression of a grammar. -/
inductive Expression
  | literal (content : List Char)
  | charClass (charClass : CharClass)
  | rule (name : String)
  /-- One expression after the other. -/
  | sequence (items : List Expression)
  /-- One of several expressions. -/
  | choice (alternatives : List Expression)
  /-- An expression at least so many times, and at most so many times if there is a bound. -/
  | repeated (item : Expression) (least : Nat) (most : Option Nat)
  deriving Repr, Inhabited

/-- The texts of an expression, under the rules that its names refer to. -/
inductive Derives (rules : String → Option Expression) : Expression → List Char → Prop
  | literal {content : List Char} : Derives rules (.literal content) content
  | charClass {charClass : CharClass} {c : Char} : charClass.has c = true →
      Derives rules (.charClass charClass) [c]
  | rule {name : String} {e : Expression} {text : List Char} : rules name = some e →
      Derives rules e text → Derives rules (.rule name) text
  | nil : Derives rules (.sequence []) []
  | cons {e : Expression} {items : List Expression} {text more : List Char} :
      Derives rules e text → Derives rules (.sequence items) more →
      Derives rules (.sequence (e :: items)) (text ++ more)
  | choice {e : Expression} {alternatives : List Expression} {text : List Char} :
      e ∈ alternatives → Derives rules e text → Derives rules (.choice alternatives) text
  | enough {e : Expression} {most : Option Nat} : Derives rules (.repeated e 0 most) []
  | again {e : Expression} {least : Nat} {most : Option Nat} {text more : List Char} :
      most ≠ some 0 → Derives rules e text →
      Derives rules (.repeated e (least - 1) (most.map (· - 1))) more →
      Derives rules (.repeated e least most) (text ++ more)

namespace Derives

variable {rules : String → Option Expression} {e : Expression} {text : List Char}

theorem literal_iff {content : List Char} :
    Derives rules (.literal content) text ↔ text = content := by
  constructor
  · intro derives
    cases derives
    rfl
  · rintro rfl
    exact .literal

theorem charClass_iff {charClass : CharClass} :
    Derives rules (.charClass charClass) text ↔ ∃ c, charClass.has c = true ∧ text = [c] := by
  constructor
  · intro derives
    cases derives with
    | charClass has => exact ⟨_, has, rfl⟩
  · rintro ⟨c, has, rfl⟩
    exact .charClass has

theorem rule_iff {name : String} :
    Derives rules (.rule name) text ↔ ∃ e, rules name = some e ∧ Derives rules e text := by
  constructor
  · intro derives
    cases derives with
    | rule found derives => exact ⟨_, found, derives⟩
  · rintro ⟨e, found, derives⟩
    exact .rule found derives

theorem nil_iff : Derives rules (.sequence []) text ↔ text = [] := by
  constructor
  · intro derives
    cases derives
    rfl
  · rintro rfl
    exact .nil

theorem cons_iff {items : List Expression} :
    Derives rules (.sequence (e :: items)) text ↔
      ∃ first more, text = first ++ more ∧ Derives rules e first ∧
        Derives rules (.sequence items) more := by
  constructor
  · intro derives
    cases derives with
    | cons first more => exact ⟨_, _, rfl, first, more⟩
  · rintro ⟨first, more, rfl, derives, others⟩
    exact .cons derives others

/-- A sequence of one expression derives what the expression does. -/
theorem singleton_iff : Derives rules (.sequence [e]) text ↔ Derives rules e text := by
  rw [cons_iff]
  constructor
  · rintro ⟨first, more, rfl, derives, nothing⟩
    rw [nil_iff.mp nothing, List.append_nil]
    exact derives
  · intro derives
    exact ⟨text, [], (List.append_nil text).symm, derives, .nil⟩

theorem append_iff {items others : List Expression} :
    Derives rules (.sequence (items ++ others)) text ↔
      ∃ first more, text = first ++ more ∧ Derives rules (.sequence items) first ∧
        Derives rules (.sequence others) more := by
  induction items generalizing text with
  | nil =>
    constructor
    · intro derives
      exact ⟨[], text, rfl, .nil, derives⟩
    · rintro ⟨first, more, rfl, nothing, derives⟩
      rw [nil_iff.mp nothing]
      exact derives
  | cons e items ih =>
    rw [List.cons_append, cons_iff]
    constructor
    · rintro ⟨first, more, rfl, derives, others⟩
      obtain ⟨second, third, rfl, left, right⟩ := ih.mp others
      exact ⟨first ++ second, third, (List.append_assoc _ _ _).symm, .cons derives left, right⟩
    · rintro ⟨both, third, rfl, left, right⟩
      obtain ⟨first, second, rfl, derives, others⟩ := cons_iff.mp left
      exact ⟨first, second ++ third, List.append_assoc _ _ _, derives,
        ih.mpr ⟨second, third, rfl, others, right⟩⟩

theorem choice_iff {alternatives : List Expression} :
    Derives rules (.choice alternatives) text ↔ ∃ e ∈ alternatives, Derives rules e text := by
  constructor
  · intro derives
    cases derives with
    | choice mem derives => exact ⟨_, mem, derives⟩
  · rintro ⟨e, mem, derives⟩
    exact .choice mem derives

/-- The only alternative derives what the choice does. -/
theorem only_iff : Derives rules (.choice [e]) text ↔ Derives rules e text := by
  rw [choice_iff]
  constructor
  · rintro ⟨other, mem, derives⟩
    rwa [List.mem_singleton.mp mem] at derives
  · intro derives
    exact ⟨e, List.mem_cons_self, derives⟩

/-- One of two alternatives derives what the choice does. -/
theorem either_iff {e' : Expression} :
    Derives rules (.choice [e, e']) text ↔ Derives rules e text ∨ Derives rules e' text := by
  rw [choice_iff]
  constructor
  · rintro ⟨other, mem, derives⟩
    rcases List.mem_cons.mp mem with rfl | mem
    · exact .inl derives
    · rw [List.mem_singleton.mp mem] at derives
      exact .inr derives
  · rintro (derives | derives)
    · exact ⟨e, List.mem_cons_self, derives⟩
    · exact ⟨e', List.mem_cons_of_mem e List.mem_cons_self, derives⟩

/-- Repetition derives what as many pieces as its bounds allow put together. -/
theorem repeated_iff {least : Nat} {most : Option Nat} :
    Derives rules (.repeated e least most) text ↔
      ∃ pieces : List (List Char), text = pieces.flatten ∧ least ≤ pieces.length ∧
        (∀ n, most = some n → pieces.length ≤ n) ∧ ∀ piece ∈ pieces, Derives rules e piece := by
  constructor
  · intro derives
    generalize same : Expression.repeated e least most = whole at derives
    induction derives generalizing e least most with
    | enough =>
      cases same
      exact ⟨[], rfl, Nat.le_refl 0, fun n _ => Nat.zero_le n, nofun⟩
    | @again e least most first more allowed derives _ _ ih =>
      cases same
      obtain ⟨pieces, rfl, enough, bounded, each⟩ := ih rfl
      refine ⟨first :: pieces, rfl, ?_, fun n bound => ?_, fun piece mem => ?_⟩
      · rw [List.length_cons]
        omega
      · have positive : n ≠ 0 := fun zero => allowed (zero ▸ bound)
        have := bounded (n - 1) (by rw [bound, Option.map_some])
        rw [List.length_cons]
        omega
      · rcases List.mem_cons.mp mem with rfl | mem
        · exact derives
        · exact each piece mem
    | _ => cases same
  · rintro ⟨pieces, rfl, enough, bounded, each⟩
    induction pieces generalizing least most with
    | nil =>
      obtain rfl := Nat.le_zero.mp enough
      exact .enough
    | cons piece pieces ih =>
      rw [List.length_cons] at enough
      refine .again (fun none => ?_) (each piece List.mem_cons_self) (ih (by omega) ?_ ?_)
      · exact absurd (bounded 0 none) (Nat.not_succ_le_zero _)
      · intro n bound
        obtain ⟨m, most', rfl⟩ := Option.map_eq_some_iff.mp bound
        have := bounded m most'
        rw [List.length_cons] at this
        omega
      · exact fun other mem => each other (List.mem_cons_of_mem piece mem)

/-- What may be left out derives the empty text, and what it derives by itself. -/
theorem optional_iff :
    Derives rules (.repeated e 0 (some 1)) text ↔ text = [] ∨ Derives rules e text := by
  rw [repeated_iff]
  constructor
  · rintro ⟨pieces, rfl, -, bounded, each⟩
    have atMost := bounded 1 rfl
    match pieces with
    | [] => exact .inl rfl
    | [piece] =>
      rw [List.flatten_cons, List.flatten_nil, List.append_nil]
      exact .inr (each piece List.mem_cons_self)
    | _ :: _ :: _ => simp only [List.length_cons] at atMost; omega
  · rintro (rfl | derives)
    · exact ⟨[], rfl, Nat.le_refl 0, fun n _ => Nat.zero_le n, nofun⟩
    · refine ⟨[text], by simp, Nat.zero_le 1, fun n bound => ?_, fun piece mem => ?_⟩
      · cases bound
        exact Nat.le_refl 1
      · rwa [List.mem_singleton.mp mem]

end Derives

end SchemaGrammar.Gbnf
