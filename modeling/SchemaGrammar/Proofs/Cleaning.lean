import Mathlib.Data.List.SplitBy
import SchemaGrammar.Proofs.StartRule
import SchemaGrammar.Proofs.TableHistory

/-!
# What cleaning makes of a text

Cleaning goes through a text with one flag, which says whether the character before could not stand
in a name. What comes out does not show the flag: the text is cut into its longest runs of
characters that can stand in a name or cannot, and each run of the second kind becomes one dash
(`collapseRuns_eq_flatMap_runs`). As a dash can stand in a name, it ends a run. So texts that are
joined by a dash are cleaned one by one (`collapseRuns_append_dash`), and a hint that was made for a
part of a node asks for the node's cleaned hint, a dash and the cleaned word of the part.
-/

namespace SchemaGrammar.Gbnf

/-- The longest runs of a text in which all characters can stand in a name, or none can. -/
def runs (text : List Char) : List (List Char) :=
  text.splitBy fun c d => isNameChar c == isNameChar d

/-- What becomes of a run. -/
def cleanRun (run : List Char) : List Char := if run.all isNameChar then run else ['-']

/-! ## The flag -/

/-- The flag matters only in front of a character that cannot stand in a name. -/
theorem collapseRuns_of_head? {text : List Char} (isName : ∀ c ∈ text.head?, isNameChar c = true)
    (inRun : Bool) : collapseRuns inRun text = collapseRuns false text := by
  cases text with
  | nil => rfl
  | cons c text =>
    have here : isNameChar c = true := isName c rfl
    rw [collapseRuns, collapseRuns, if_pos here, if_pos here]

/-- Characters that can stand in a name are kept. -/
theorem collapseRuns_names {run : List Char} (areNames : ∀ c ∈ run, isNameChar c = true)
    (rest : List Char) : collapseRuns false (run ++ rest) = run ++ collapseRuns false rest := by
  induction run with
  | nil => rfl
  | cons c run ih =>
    rw [List.cons_append, collapseRuns, if_pos (areNames c List.mem_cons_self),
      ih fun d mem => areNames d (List.mem_cons_of_mem c mem), List.cons_append]

/-- Inside a run of characters that cannot stand in a name nothing is written. -/
theorem collapseRuns_others {run : List Char} (areOthers : ∀ c ∈ run, isNameChar c = false)
    (rest : List Char) : collapseRuns true (run ++ rest) = collapseRuns true rest := by
  induction run with
  | nil => rfl
  | cons c run ih =>
    have here := areOthers c List.mem_cons_self
    rw [List.cons_append, collapseRuns, here, if_neg Bool.false_ne_true, if_pos rfl,
      ih fun d mem => areOthers d (List.mem_cons_of_mem c mem)]

/-! ## Runs -/

/-- The characters of a run are of one kind. -/
theorem isNameChar_eq_of_isChain {c : Char} {run : List Char}
    (chain : (c :: run).IsChain fun c d => (isNameChar c == isNameChar d) = true) :
    ∀ d ∈ c :: run, isNameChar d = isNameChar c := by
  induction run generalizing c with
  | nil => exact fun d mem => congrArg isNameChar (List.mem_singleton.mp mem)
  | cons e run ih =>
    obtain ⟨same, chain⟩ := List.isChain_cons_cons.mp chain
    intro d mem
    rcases List.mem_cons.mp mem with rfl | mem
    · rfl
    · exact (ih chain d mem).trans (beq_iff_eq.mp same).symm

/-- One run after the other is cleaned, as the next run is of the other kind. -/
theorem collapseRuns_flatten {runs : List (List Char)} (notEmpty : [] ∉ runs)
    (ofOneKind : ∀ run ∈ runs, run.IsChain fun c d => (isNameChar c == isNameChar d) = true)
    (longest : runs.IsChain fun run next => ∃ ends begins,
      (isNameChar (run.getLast ends) == isNameChar (next.head begins)) = false) :
    collapseRuns false runs.flatten = runs.flatMap cleanRun := by
  induction runs with
  | nil => rfl
  | cons run runs ih =>
    have following := ih (fun mem => notEmpty (List.mem_cons_of_mem run mem))
      (fun other mem => ofOneKind other (List.mem_cons_of_mem run mem)) longest.tail
    obtain ⟨c, run, rfl⟩ := List.exists_cons_of_ne_nil fun empty : run = [] =>
      notEmpty (empty ▸ List.mem_cons_self)
    have kind := isNameChar_eq_of_isChain (ofOneKind _ List.mem_cons_self)
    rw [List.flatten_cons, List.flatMap_cons, ← following, cleanRun]
    cases isName : isNameChar c with
    | true =>
      have areNames : ∀ d ∈ c :: run, isNameChar d = true := fun d mem => (kind d mem).trans isName
      rw [if_pos (List.all_eq_true.mpr areNames), collapseRuns_names areNames]
    | false =>
      have areOthers : ∀ d ∈ c :: run, isNameChar d = false :=
        fun d mem => (kind d mem).trans isName
      have behind : ∀ d ∈ runs.flatten.head?, isNameChar d = true := by
        intro d mem
        cases runs with
        | nil => cases mem
        | cons next runs =>
          obtain ⟨⟨ends, begins, differs⟩, -⟩ := List.isChain_cons_cons.mp longest
          obtain ⟨e, next, rfl⟩ := List.exists_cons_of_ne_nil begins
          obtain rfl : e = d := Option.some.inj mem
          rw [areOthers _ (List.getLast_mem ends)] at differs
          simpa using differs
      have notAll : ¬ (c :: run).all isNameChar = true := by
        simp [isName]
      rw [if_neg notAll, List.cons_append, collapseRuns, isName, if_neg Bool.false_ne_true,
        if_neg Bool.false_ne_true,
        collapseRuns_others fun d mem => areOthers d (List.mem_cons_of_mem c mem),
        collapseRuns_of_head? behind]
      rfl

/-- Cleaning replaces each longest run of characters that cannot stand in a name by one dash. -/
theorem collapseRuns_eq_flatMap_runs (text : List Char) :
    collapseRuns false text = (runs text).flatMap cleanRun := by
  have cleaned : collapseRuns false (runs text).flatten = (runs text).flatMap cleanRun :=
    collapseRuns_flatten (List.nil_notMem_splitBy _ text) (fun _ => List.isChain_of_mem_splitBy)
      (List.isChain_getLast_head_splitBy (fun c d => isNameChar c == isNameChar d) text)
  rwa [runs, List.flatten_splitBy] at cleaned

/-! ## Joined texts -/

/-- A dash ends a run, so what stands before it and what stands behind it are cleaned apart. -/
theorem collapseRuns_append_dash (more : List Char) : ∀ (text : List Char) (inRun : Bool),
    collapseRuns inRun (text ++ '-' :: more) =
      collapseRuns inRun text ++ '-' :: collapseRuns false more
  | [], inRun => by
    have isName : isNameChar '-' = true := by decide
    rw [List.nil_append, collapseRuns.eq_2, if_pos isName]
    rfl
  | c :: text, inRun => by
    rw [List.cons_append, collapseRuns, collapseRuns]
    split
    · rw [collapseRuns_append_dash more text false, List.cons_append]
    · split
      · exact collapseRuns_append_dash more text true
      · rw [collapseRuns_append_dash more text true, List.cons_append]

theorem sanitize_append_dash (text more : String) :
    sanitize (text ++ "-" ++ more) = sanitize text ++ "-" ++ sanitize more := by
  apply String.toList_inj.mp
  simp only [sanitize, String.toList_append, String.toList_ofList, List.append_assoc]
  exact collapseRuns_append_dash more.toList text.toList false

/-- A text whose characters can all stand in a name is clean. -/
theorem sanitize_eq_self {text : String} (areNames : ∀ c ∈ text.toList, isNameChar c = true) :
    sanitize text = text := by
  have kept := collapseRuns_names areNames []
  rw [List.append_nil] at kept
  rw [sanitize, kept, collapseRuns, List.append_nil, String.ofList_toList]

theorem sanitize_eq_empty_iff {text : String} : sanitize text = "" ↔ text = "" := by
  constructor
  · intro cleaned
    by_contra notEmpty
    exact (isRuleName_sanitize notEmpty).1 cleaned
  · rintro rfl
    apply String.toList_inj.mp
    rw [sanitize, String.toList_ofList, String.toList_empty, collapseRuns]

/-- How the clean form of a text looks, and that it is clean. -/
structure IsCleaned (text cleaned : String) : Prop where
  spelled : ∀ c ∈ cleaned.toList,
    'A' ≤ c ∧ c ≤ 'Z' ∨ 'a' ≤ c ∧ c ≤ 'z' ∨ '0' ≤ c ∧ c ≤ '9' ∨ c = '-'
  collapsed : cleaned.toList = (runs text.toList).flatMap cleanRun
  empty : cleaned = "" ↔ text = ""
  settled : sanitize cleaned = cleaned

theorem isCleaned_sanitize (text : String) : IsCleaned text (sanitize text) where
  spelled c mem := RuleTable.isNameChar_iff.mp (isNameChar_of_mem_sanitize mem)
  collapsed := by rw [sanitize, String.toList_ofList, collapseRuns_eq_flatMap_runs]
  empty := sanitize_eq_empty_iff
  settled := sanitize_eq_self fun _ => isNameChar_of_mem_sanitize

/-- A name that has a dash in it is not the one that is kept for the start rule. -/
theorem append_dash_ne_rootName (text more : String) : text ++ "-" ++ more ≠ rootName := by
  intro same
  have mem : '-' ∈ (text ++ "-" ++ more).toList := by simp
  rw [same] at mem
  exact absurd mem (by decide)

end SchemaGrammar.Gbnf

namespace SchemaGrammar

open Gbnf

/-- Cleaning replaces runs and leaves what is clean. It works on both sides of a dash apart, and so
the hint for a part of a node whose own hint is not empty asks for the clean form of the node's
hint, a dash and the clean form of the part's word. -/
theorem sanitize_along_hints (hint word : String) :
    IsCleaned hint (sanitize hint) ∧
      sanitize (hint ++ "-" ++ word) = sanitize hint ++ "-" ++ sanitize word ∧
      ∀ table body, place table (childHint hint word) body =
        if hint = "" then place table word body
        else table.register (sanitize hint ++ "-" ++ sanitize word) body.text false := by
  refine ⟨isCleaned_sanitize hint, sanitize_append_dash hint word, fun table body => ?_⟩
  by_cases empty : hint = ""
  · subst empty
    rw [if_pos rfl, childHint_empty]
  · have joined : childHint hint word = hint ++ "-" ++ word :=
      if_neg (by simpa using empty)
    have notEmpty : ¬ (hint ++ "-" ++ word).isEmpty = true := by
      simp
    rw [if_neg empty, joined, place, if_neg notEmpty, RuleTable.add, sanitize_append_dash,
      beq_false_of_ne (append_dash_ne_rootName _ _)]

end SchemaGrammar
