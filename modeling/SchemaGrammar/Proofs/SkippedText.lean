import Mathlib.Tactic.SplitIfs
import SchemaGrammar.Json.Document
import SchemaGrammar.Proofs.FirstFailure

/-!
# What can be read can be skipped

Reading asks more of a text than skipping it: numbers in range, surrogates in pairs, no more than so
many brackets in each other. Where a reader gives a value, the skipper beside it stops at the same
place (`skipScalar_of_read`), so an outline that can be built can be passed over
(`Outline.skip_of_readsAs`).

The two ways take different steps in one case only. A pair of surrogates is one escape for the
reader and two for the skipper, which then goes on as it would behind both (`skipEscape_of_read`).
-/

namespace SchemaGrammar

namespace Json

variable {text rest : List Char} {negative : Bool} {significand : Nat} {exponent : Int} {n : Number}

/-! ## Numbers -/

theorem rest_of_realOf (read : realOf negative significand exponent text = .ok (n, rest)) :
    rest = text := by
  unfold realOf at read
  split at read
  · exact (Prod.mk.inj (Except.ok.inj read)).2.symm
  · cases read

theorem skipExponent_of_read
    (read : readExponent negative significand exponent text = .ok (n, rest)) :
    skipExponent text = .ok rest := by
  simp only [readExponent] at read
  simp only [skipExponent]
  split at read
  · cases read
  · next digits =>
    rw [if_neg digits]
    split at read
    · rw [rest_of_realOf read]
    · split at read
      · rw [(Prod.mk.inj (Except.ok.inj read)).2]
      · cases read

theorem skipTail_eq_self (lower : ∀ more, text = 'e' :: more → False)
    (upper : ∀ more, text = 'E' :: more → False) : skipTail text = .ok text := by
  unfold skipTail
  split
  · next more => exact (lower more rfl).elim
  · next more => exact (upper more rfl).elim
  · rfl

theorem skipTail_of_read (read : finishReal negative significand exponent text = .ok (n, rest)) :
    skipTail text = .ok rest := by
  unfold finishReal at read
  split at read
  · exact skipExponent_of_read read
  · exact skipExponent_of_read read
  · next lower upper =>
    rw [rest_of_realOf read]
    exact skipTail_eq_self lower upper

theorem rest_of_wholeNumber (read : wholeNumber negative significand text = .ok (n, rest)) :
    rest = text := by
  simp only [wholeNumber] at read
  split at read
  · split at read
    · exact rest_of_realOf read
    · exact (Prod.mk.inj (Except.ok.inj read)).2.symm
  · exact rest_of_realOf read

theorem skipTail_of_readFraction
    (read : readFraction negative significand exponent text = .ok (n, rest)) :
    (spanDigits text).1.isEmpty = false ∧ skipTail (spanDigits text).2 = .ok rest := by
  simp only [readFraction] at read
  split at read
  · cases read
  · next digits => exact ⟨Bool.eq_false_iff.mpr digits, skipTail_of_read read⟩

/-- Behind the whole digits of a number the skipper looks for a point or an exponent. -/
theorem skipMagnitude_of_read (read : readMagnitude negative text = .ok (n, rest)) :
    skipMagnitude text = .ok rest := by
  unfold readMagnitude at read
  unfold skipMagnitude
  split at read
  · cases read
  · cases read
  · next digits after noDigits leadingZero split =>
    rw [split]
    split
    · next empty => exact (noDigits (Prod.mk.inj empty).1).elim
    · next zero => exact (leadingZero _ _ (Prod.mk.inj zero).1).elim
    · next point =>
      obtain ⟨rfl, rfl⟩ := Prod.mk.inj point
      obtain ⟨some, tail⟩ := skipTail_of_readFraction read
      simp only [some, Bool.false_eq_true, if_false, tail]
    · next noPoint same =>
      obtain ⟨rfl, rfl⟩ := Prod.mk.inj same
      split at read
      · exact (noPoint _ rfl).elim
      · exact skipTail_of_read read
      · exact skipTail_of_read read
      · next lower upper =>
        rw [rest_of_wholeNumber read]
        exact skipTail_eq_self lower upper
      · exact skipTail_of_read read

theorem skipNumber_of_read (read : readNumber text = .ok (n, rest)) :
    skipNumber text = .ok rest := by
  unfold readNumber at read
  unfold skipNumber
  split at read
  · exact skipMagnitude_of_read read
  · exact skipMagnitude_of_read read

/-! ## Strings -/

theorem skipQuoted_escape {behind : List Char} (skipped : skipEscape text = .ok behind) :
    skipQuoted ('\\' :: text) = skipQuoted behind := by
  rw [skipQuoted]
  split
  · next failed => cases skipped.symm.trans failed
  · next same => rw [Except.ok.inj (same.symm.trans skipped)]

theorem skipEscape_hex {unit : Nat} (hex : readHex text = .ok (unit, rest)) :
    skipEscape ('u' :: text) = .ok rest := by
  rw [skipEscape, hex]
  rfl

/-- The second half of a pair is an escape of its own for the skipper. -/
theorem skipQuoted_of_readTrailing {leading : Nat} {c : Char}
    (read : readTrailing leading text = .ok (c, rest)) : skipQuoted text = skipQuoted rest := by
  unfold readTrailing at read
  split at read
  · next behind =>
    cases hex : readHex behind with
    | error e => simp [hex, bind, Except.bind] at read
    | ok p =>
      simp only [hex, bind, Except.bind] at read
      split at read
      · obtain ⟨-, rfl⟩ := Prod.mk.inj (Except.ok.inj read)
        exact skipQuoted_escape (skipEscape_hex hex)
      · cases read
  · cases read
  · cases read

/-- Behind an escape that is read, the skipper goes on as it would where the reader is. -/
theorem skipEscape_of_read {c : Char} (read : readEscape text = .ok (c, rest)) :
    ∃ behind, skipEscape text = .ok behind ∧ skipQuoted behind = skipQuoted rest := by
  unfold readEscape at read
  split at read
  case h_9 digits =>
    cases hex : readHex digits with
    | error e => simp [hex, bind, Except.bind] at read
    | ok p =>
      refine ⟨p.2, skipEscape_hex hex, ?_⟩
      simp only [hex, bind, Except.bind] at read
      split at read
      · cases read
      · split at read
        · exact skipQuoted_of_readTrailing read
        · rw [(Prod.mk.inj (Except.ok.inj read)).2]
  case h_10 => cases read
  all_goals
    obtain ⟨-, rfl⟩ := Prod.mk.inj (Except.ok.inj read)
    exact ⟨_, rfl, rfl⟩

theorem skipQuoted_of_read {done chars : List Char}
    (read : readQuoted done text = .ok (chars, rest)) : skipQuoted text = .ok rest := by
  fun_induction readQuoted done text with
  | case1 => cases read
  | case2 done text =>
    obtain ⟨-, rfl⟩ := Prod.mk.inj (Except.ok.inj read)
    rw [skipQuoted]
  | case3 => cases read
  | case4 done text c behind escape ih =>
    obtain ⟨middle, skipped, same⟩ := skipEscape_of_read escape
    rw [skipQuoted_escape skipped, same, ih read]
  | case5 => cases read
  | case6 done c behind noQuote noEscape printable ih =>
    rw [skipQuoted, if_neg printable, ih read]
    · exact noQuote
    · exact noEscape

theorem skipQuoted_of_readString {s : String} (read : readString text = .ok (s, rest)) :
    skipQuoted text = .ok rest := by
  obtain ⟨⟨chars, behind⟩, quoted, same⟩ := map_eq_ok_iff.mp read
  obtain ⟨-, rfl⟩ := Prod.mk.inj same
  exact skipQuoted_of_read quoted

/-! ## Scalars -/

/-- A scalar that is read is skipped, up to the same place. -/
theorem skipScalar_of_read {v : Value} (read : readScalar text = .ok (v, rest)) :
    skipScalar text = .ok rest := by
  have word {letters text : List Char} {w : Value}
      (read : (readWord letters text).map (fun rest => (w, rest)) = .ok (v, rest)) :
      readWord letters text = .ok rest := by
    obtain ⟨behind, word, same⟩ := map_eq_ok_iff.mp read
    rw [word, (Prod.mk.inj same).2]
  unfold readScalar at read
  unfold skipScalar
  split at read
  · cases read
  · split_ifs at read ⊢
    · exact word read
    · exact word read
    · exact word read
    · obtain ⟨⟨s, behind⟩, string, same⟩ := map_eq_ok_iff.mp read
      obtain ⟨-, rfl⟩ := Prod.mk.inj same
      exact skipQuoted_of_readString string
    · obtain ⟨⟨n, behind⟩, number, same⟩ := map_eq_ok_iff.mp read
      obtain ⟨-, rfl⟩ := Prod.mk.inj same
      exact skipNumber_of_read number

/-! ## Outlines -/

/-- The outlined items can be built, and these are their values. -/
inductive Items.ReadsAs (depth : Nat) : Items → List Value → Prop
  | closed {rest : List Char} : ReadsAs depth (.closed rest) []
  | item {value : Outline} {next : Items} {v : Value} {vs : List Value} :
      value.read depth = .ok v → ReadsAs depth next vs → ReadsAs depth (.item value next) (v :: vs)

/-- The outlined members can be built, and these are their keys and values. -/
inductive Members.ReadsAs (depth : Nat) : Members → List Member → Prop
  | closed {rest : List Char} : ReadsAs depth (.closed rest) []
  | member {key behind afterKey : List Char} {name : String} {value : Outline} {next : Members}
      {v : Value} {vs : List Member} : readKey key = .ok (name, behind) →
      value.read depth = .ok v → ReadsAs depth next vs →
      ReadsAs depth (.member key afterKey value next) ((name, v) :: vs)

/-- The outlined value can be built, with so many levels to go, and this is it. -/
inductive Outline.ReadsAs : Nat → Outline → Value → Prop
  | scalar {depth : Nat} {text rest : List Char} {v : Value} : readScalar text = .ok (v, rest) →
      ReadsAs depth (.scalar text) v
  | array {depth : Nat} {text : List Char} {items : Items} {vs : List Value} :
      items.ReadsAs depth vs → ReadsAs (depth + 1) (.array text items) (.array vs)
  | object {depth : Nat} {text : List Char} {members : Members} {vs : List Member} :
      members.ReadsAs depth vs → ReadsAs (depth + 1) (.object text members) (.object vs)

theorem below_eq_ok_iff {step : Step} {outcome : Except Located α} {a : α} :
    below step outcome = .ok a ↔ outcome = .ok a := by
  cases outcome <;> simp [below, Except.mapError]

theorem Items.readsAs_of_read {depth : Nat} :
    ∀ {items : Items} {i : Nat} {vs : List Value}, items.read depth i = .ok vs →
      items.ReadsAs depth vs
  | .closed _, _, _, read => by
    rw [← Except.ok.inj read]
    exact .closed
  | .item value next, i, vs, read => by
    rw [Items.read] at read
    split at read
    · cases read
    · next v first =>
      obtain ⟨more, readMore, rfl⟩ := map_eq_ok_iff.mp read
      exact .item (below_eq_ok_iff.mp first) (readsAs_of_read readMore)
  | .dangling _, _, _, read | .stopped _, _, _, read | .lost, _, _, read => by cases read

theorem Members.readsAs_of_read {depth : Nat} :
    ∀ {members : Members} {vs : List Member}, members.read depth = .ok vs →
      members.ReadsAs depth vs
  | .closed _, _, read => by
    rw [← Except.ok.inj read]
    exact .closed
  | .member key afterKey value next, vs, read => by
    rw [Members.read] at read
    split at read
    · cases read
    · next name behind keyRead =>
      split at read
      · cases read
      · next v first =>
        obtain ⟨more, readMore, rfl⟩ := map_eq_ok_iff.mp read
        exact .member keyRead (below_eq_ok_iff.mp first) (readsAs_of_read readMore)
  | .noColon key _, _, read | .openKey key, _, read => by
    rw [Members.read] at read
    split at read <;> cases read
  | .noKey true _, _, read | .noKey false _, _, read | .stopped _, _, read | .lost, _, read => by
    cases read

theorem Outline.readsAs_of_read {depth : Nat} {outline : Outline} {v : Value}
    (read : outline.read depth = .ok v) : outline.ReadsAs depth v := by
  cases outline with
  | scalar text =>
    rw [Outline.read] at read
    cases scalar : readScalar text with
    | error failure => simp [scalar, Except.map, Except.mapError] at read
    | ok p =>
      rw [scalar] at read
      obtain rfl := Except.ok.inj read
      exact .scalar scalar
  | array text items =>
    cases depth with
    | zero => cases read
    | succ depth =>
      obtain ⟨vs, inner, rfl⟩ := map_eq_ok_iff.mp read
      exact .array (Items.readsAs_of_read inner)
  | object text members =>
    cases depth with
    | zero => cases read
    | succ depth =>
      obtain ⟨vs, inner, rfl⟩ := map_eq_ok_iff.mp read
      exact .object (Members.readsAs_of_read inner)

mutual
/-- An outline that can be built can be passed over. -/
theorem Outline.skip_of_readsAs :
    ∀ {depth : Nat} {outline : Outline} {v : Value}, outline.ReadsAs depth v →
      outline.skip = .ok ()
  | _, .scalar text, _, .scalar read => by
    rw [Outline.skip, skipScalar_of_read read, Except.map]
  | _, .array _ items, _, .array inner => by
    rw [Outline.skip]
    exact Items.skip_of_readsAs inner
  | _, .object _ members, _, .object inner => by
    rw [Outline.skip]
    exact Members.skip_of_readsAs inner
theorem Items.skip_of_readsAs :
    ∀ {depth : Nat} {items : Items} {vs : List Value}, items.ReadsAs depth vs →
      items.skip = .ok ()
  | _, .closed _, _, _ => rfl
  | _, .item value next, _, .item first more => by
    rw [Items.skip, Outline.skip_of_readsAs (Outline.readsAs_of_read first)]
    exact Items.skip_of_readsAs more
theorem Members.skip_of_readsAs :
    ∀ {depth : Nat} {members : Members} {vs : List Member}, members.ReadsAs depth vs →
      members.skip = .ok ()
  | _, .closed _, _, _ => rfl
  | _, .member key afterKey value next, _, .member _ first more => by
    rw [Members.skip, Outline.skip_of_readsAs (Outline.readsAs_of_read first)]
    exact Members.skip_of_readsAs more
end

end Json

end SchemaGrammar
