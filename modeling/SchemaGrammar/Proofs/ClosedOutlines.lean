import SchemaGrammar.Proofs.SkippedText

/-!
# Outlines that close

An outline can be made of any text, and only some have an end. `Outlines text outline rest` says that
a value stands at the start of a text, that this is its outline, and what follows it: every scalar in
it can be skipped, and every bracket is closed. It is the function that makes outlines, read as a
relation, for the texts where that function is not lost.

An outline that closes is the one that is made (`Outlines.makes`), and of the outlines that are made
those close that can be passed over (`skip_outlineValue_iff`). So what is shown of the relation by
induction is shown of the outlines that readers and decoders work on.
-/

namespace SchemaGrammar.Json

mutual
/-- A value stands at the start of a text, with this outline, and `rest` follows it. -/
inductive Outlines : List Char → Outline → List Char → Prop
  | scalar {text rest : List Char} : (∀ more, text ≠ '[' :: more) → (∀ more, text ≠ '{' :: more) →
      skipScalar text = .ok rest → Outlines text (.scalar text) rest
  | array {text rest : List Char} {items : Items} : OutlinesItems true text items rest →
      Outlines ('[' :: text) (.array ('[' :: text) items) rest
  | object {text rest : List Char} {members : Members} : OutlinesMembers true text members rest →
      Outlines ('{' :: text) (.object ('{' :: text) members) rest
/-- Items and a closing bracket stand at the start of a text, behind an item unless `first` says that
they are the first ones. -/
inductive OutlinesItems : Bool → List Char → Items → List Char → Prop
  | close {first : Bool} {text rest : List Char} : skipBlanks text = ']' :: rest →
      OutlinesItems first text (.closed rest) rest
  | first {text middle rest : List Char} {value : Outline} {next : Items} :
      Outlines (skipBlanks text) value middle → OutlinesItems false middle next rest →
      OutlinesItems true text (.item value next) rest
  | next {text behind middle rest : List Char} {value : Outline} {next : Items} :
      skipBlanks text = ',' :: behind → Outlines (skipBlanks behind) value middle →
      OutlinesItems false middle next rest → OutlinesItems false text (.item value next) rest
/-- A key that has been opened, its value, and what follows a member. -/
inductive OutlinesMember : List Char → Members → List Char → Prop
  | intro {key afterKey behind middle rest : List Char} {value : Outline} {next : Members} :
      skipQuoted key = .ok afterKey → skipBlanks afterKey = ':' :: behind →
      Outlines (skipBlanks behind) value middle → OutlinesMembers false middle next rest →
      OutlinesMember key (.member key afterKey value next) rest
/-- Members and a closing bracket stand at the start of a text, behind a member unless `first` says
that they are the first ones. -/
inductive OutlinesMembers : Bool → List Char → Members → List Char → Prop
  | close {first : Bool} {text rest : List Char} : skipBlanks text = '}' :: rest →
      OutlinesMembers first text (.closed rest) rest
  | first {text key rest : List Char} {members : Members} : skipBlanks text = '"' :: key →
      OutlinesMember key members rest → OutlinesMembers true text members rest
  | next {text behind key rest : List Char} {members : Members} : skipBlanks text = ',' :: behind →
      skipBlanks behind = '"' :: key → OutlinesMember key members rest →
      OutlinesMembers false text members rest
end

variable {text rest : List Char}

theorem skipBlanks_append {blanks : List Char} (all : ∀ c ∈ blanks, isBlank c = true)
    (rest : List Char) : skipBlanks (blanks ++ rest) = skipBlanks rest :=
  List.dropWhile_append_of_pos all

theorem skipBlanks_cons {c : Char} (notBlank : isBlank c = false) (rest : List Char) :
    skipBlanks (c :: rest) = c :: rest :=
  List.dropWhile_cons_of_neg (Bool.not_eq_true _ ▸ notBlank)

theorem Rest.map_val_widen {m n : Nat} (le : m ≤ n) (after : Rest m) :
    (after.widen le).map Subtype.val = after.map Subtype.val := by
  rcases after with _ | ⟨rest, short⟩ <;> rfl

/-- A scalar that is skipped is outlined as one. -/
theorem Outlines.ofScalar (skipped : skipScalar text = .ok rest) :
    Outlines text (.scalar text) rest := by
  refine .scalar ?_ ?_ skipped
  · rintro more rfl
    cases skipped
  · rintro more rfl
    cases skipped

/-! ## What is passed over closes -/

/-- An outline that was made can be passed over only if it closes, and then its end is known. -/
def ClosesIfSkipped (text : List Char) : Prop :=
  (outlineValue text).1.skip = .ok () →
    ∃ rest, (outlineValue text).2.map Subtype.val = some rest ∧
      Outlines text (outlineValue text).1 rest

/-- The same of items. -/
def ItemsCloseIfSkipped (first : Bool) (text : List Char) : Prop :=
  (outlineItems first text).1.skip = .ok () →
    ∃ rest, (outlineItems first text).2.map Subtype.val = some rest ∧
      OutlinesItems first text (outlineItems first text).1 rest

/-- The same of members. -/
def MembersCloseIfSkipped (first : Bool) (text : List Char) : Prop :=
  (outlineMembers first text).1.skip = .ok () →
    ∃ rest, (outlineMembers first text).2.map Subtype.val = some rest ∧
      OutlinesMembers first text (outlineMembers first text).1 rest

/-- An item that is passed over together with what follows it. -/
theorem exists_outlines_of_item {start : List Char} (le : start.length ≤ text.length)
    (notEmpty : start ≠ []) (here : ClosesIfSkipped start)
    (following : ∀ middle, middle.length < start.length → ItemsCloseIfSkipped false middle)
    (skipped : (outlineItem text start le notEmpty).1.skip = .ok ()) :
    ∃ value middle next rest, (outlineItem text start le notEmpty).1 = .item value next ∧
      (outlineItem text start le notEmpty).2.map Subtype.val = some rest ∧
      Outlines start value middle ∧ OutlinesItems false middle next rest := by
  have notShort := List.length_pos_iff.mpr notEmpty
  unfold ClosesIfSkipped at here
  rw [outlineItem] at skipped ⊢
  rcases outlined : outlineValue start with ⟨value, _ | ⟨middle, short⟩⟩
  · simp only [outlined, Items.skip] at skipped
    split at skipped
    · cases skipped
    · cases skipped
  · simp only [outlined, Items.skip] at skipped here ⊢
    split at skipped
    · cases skipped
    · next passed =>
      obtain ⟨_, ends, outlines⟩ := here passed
      obtain rfl := Option.some.inj ends
      obtain ⟨rest, ends, items⟩ := following middle (by omega) skipped
      exact ⟨value, middle, _, rest, rfl, by rw [Rest.map_val_widen, ends], outlines, items⟩

theorem closesIfSkipped_of_scalar (notArray : ∀ more, text ≠ '[' :: more)
    (notObject : ∀ more, text ≠ '{' :: more) : ClosesIfSkipped text := by
  intro skipped
  rw [outlineValue] at skipped ⊢
  · split
    · next rest passed => exact ⟨rest, rfl, .scalar notArray notObject passed⟩
    · next failure failed =>
      split at skipped
      · next passed => cases failed.symm.trans passed
      · rw [Outline.skip, failed] at skipped
        cases skipped
  all_goals assumption

/-- Items close if the values and the items that stand behind them do. -/
theorem itemsCloseIfSkipped (first : Bool) (text : List Char)
    (values : ∀ start, start.length ≤ text.length → ClosesIfSkipped start)
    (items : ∀ middle, middle.length < text.length → ItemsCloseIfSkipped false middle) :
    ItemsCloseIfSkipped first text := by
  intro skipped
  have item {start : List Char} (le : start.length ≤ text.length) (notEmpty : start ≠ [])
      (skipped : (outlineItem text start le notEmpty).1.skip = .ok ()) :=
    exists_outlines_of_item le notEmpty (values start le)
      (fun middle short => items middle (Nat.lt_of_lt_of_le short le)) skipped
  generalize outlined : outlineItems first text = made at skipped ⊢
  rw [outlineItems] at outlined
  split at outlined
  · next rest closing =>
    subst outlined
    exact ⟨rest, rfl, .close closing⟩
  · subst outlined
    cases skipped
  · next c more _ begins =>
    split at outlined
    · next isFirst =>
      subst outlined isFirst
      obtain ⟨value, middle, next, rest, same, ends, here, following⟩ := item _ _ skipped
      exact ⟨rest, ends, same ▸ .first (begins ▸ here) following⟩
    · next notFirst =>
      obtain rfl := Bool.eq_false_iff.mpr notFirst
      split at outlined
      · next isComma =>
        obtain rfl := beq_iff_eq.mp isComma
        split at outlined
        · subst outlined
          cases skipped
        · subst outlined
          cases skipped
        · next begin =>
          subst outlined
          obtain ⟨value, middle, next, rest, same, ends, here, following⟩ := item _ _ skipped
          exact ⟨rest, ends, same ▸ .next begins (begin ▸ here) following⟩
      · subst outlined
        cases skipped

/-- A member that is passed over together with what follows it. -/
theorem exists_outlinesMember {key : List Char} (lt : key.length < text.length)
    (values : ∀ start, start.length < key.length → ClosesIfSkipped start)
    (members : ∀ middle, middle.length < key.length → MembersCloseIfSkipped false middle)
    (skipped : (outlineMember text key lt).1.skip = .ok ()) :
    ∃ rest, (outlineMember text key lt).2.map Subtype.val = some rest ∧
      OutlinesMember key (outlineMember text key lt).1 rest := by
  generalize outlined : outlineMember text key lt = made at skipped ⊢
  rw [outlineMember] at outlined
  split at outlined
  · next failed =>
    subst outlined
    rw [Members.skip, failed] at skipped
    cases skipped
  · next afterKey keyEnds =>
    split at outlined
    · next behind colon =>
      have shorter := skipQuoted_length keyEnds
      have noLonger := colon ▸ skipBlanks_length afterKey
      have noLonger' := skipBlanks_length behind
      rw [List.length_cons] at noLonger
      have here := values (skipBlanks behind) (by omega)
      unfold ClosesIfSkipped at here
      split at outlined
      · next value same =>
        subst outlined
        rw [Members.skip] at skipped
        split at skipped <;> cases skipped
      · next value middle short same =>
        subst outlined
        rw [same] at here
        rw [Members.skip] at skipped
        split at skipped
        · cases skipped
        · next passed =>
          obtain ⟨_, ends, outlines⟩ := here passed
          obtain rfl := Option.some.inj ends
          obtain ⟨rest, ends, following⟩ := members middle (by omega) skipped
          exact ⟨rest, by rw [Rest.map_val_widen, ends], .intro keyEnds colon outlines following⟩
    · subst outlined
      cases skipped

/-- Members close if the values and the members that stand behind them do. -/
theorem membersCloseIfSkipped (first : Bool) (text : List Char)
    (values : ∀ start, start.length < text.length → ClosesIfSkipped start)
    (members : ∀ middle, middle.length < text.length → MembersCloseIfSkipped false middle) :
    MembersCloseIfSkipped first text := by
  intro skipped
  have member {key : List Char} (lt : key.length < text.length)
      (skipped : (outlineMember text key lt).1.skip = .ok ()) :=
    exists_outlinesMember lt (fun start short => values start (Nat.lt_trans short lt))
      (fun middle short => members middle (Nat.lt_trans short lt)) skipped
  generalize outlined : outlineMembers first text = made at skipped ⊢
  rw [outlineMembers] at outlined
  split at outlined
  · next rest closing =>
    subst outlined
    exact ⟨rest, rfl, .close closing⟩
  · subst outlined
    cases skipped
  · next c more _ begins =>
    split at outlined
    · next isFirst =>
      subst isFirst
      split at outlined
      · next isQuote =>
        obtain rfl := beq_iff_eq.mp isQuote
        subst outlined
        obtain ⟨rest, ends, here⟩ := member _ skipped
        exact ⟨rest, ends, .first begins here⟩
      · subst outlined
        cases skipped
    · next notFirst =>
      obtain rfl := Bool.eq_false_iff.mpr notFirst
      split at outlined
      · next isComma =>
        obtain rfl := beq_iff_eq.mp isComma
        split at outlined
        · next begin =>
          subst outlined
          obtain ⟨rest, ends, here⟩ := member _ skipped
          exact ⟨rest, ends, .next begins begin here⟩
        · subst outlined
          cases skipped
      · subst outlined
        cases skipped

mutual
theorem closesIfSkipped (text : List Char) : ClosesIfSkipped text := by
  by_cases isArray : ∃ more, text = '[' :: more
  · obtain ⟨more, rfl⟩ := isArray
    intro skipped
    rw [outlineValue] at skipped ⊢
    obtain ⟨rest, ends, items⟩ := allItemsCloseIfSkipped true more skipped
    exact ⟨rest, by rw [Rest.map_val_widen, ends], .array items⟩
  · by_cases isObject : ∃ more, text = '{' :: more
    · obtain ⟨more, rfl⟩ := isObject
      intro skipped
      rw [outlineValue] at skipped ⊢
      obtain ⟨rest, ends, members⟩ := allMembersCloseIfSkipped true more skipped
      exact ⟨rest, by rw [Rest.map_val_widen, ends], .object members⟩
    · exact closesIfSkipped_of_scalar (fun more same => isArray ⟨more, same⟩)
        fun more same => isObject ⟨more, same⟩
termination_by (text.length, 0)
theorem allItemsCloseIfSkipped (first : Bool) (text : List Char) : ItemsCloseIfSkipped first text :=
  itemsCloseIfSkipped first text (fun start _ => closesIfSkipped start)
    fun middle _ => allItemsCloseIfSkipped false middle
termination_by (text.length, 1)
decreasing_by
  all_goals simp only [Prod.lex_def]
  all_goals omega
theorem allMembersCloseIfSkipped (first : Bool) (text : List Char) :
    MembersCloseIfSkipped first text :=
  membersCloseIfSkipped first text (fun start _ => closesIfSkipped start)
    fun middle _ => allMembersCloseIfSkipped false middle
termination_by (text.length, 1)
decreasing_by
  all_goals simp only [Prod.lex_def]
  all_goals omega
end

/-! ## What closes is made and passed over -/

/-- A scalar begins with a character that is no blank and closes no array. -/
theorem exists_eq_cons_of_skipScalar (skipped : skipScalar text = .ok rest) :
    ∃ c more, text = c :: more ∧ c ≠ ']' ∧ isBlank c = false := by
  rcases text with _ | ⟨c, more⟩
  · cases skipped
  · refine ⟨c, more, rfl, ?_, Bool.eq_false_iff.mpr fun blank => ?_⟩
    · rintro rfl
      cases skipped
    · simp only [isBlank, Bool.or_eq_true, beq_iff_eq] at blank
      rcases blank with ((rfl | rfl) | rfl) | rfl <;> cases skipped

/-- So does every value. -/
theorem Outlines.exists_eq_cons {outline : Outline} (outlines : Outlines text outline rest) :
    ∃ c more, text = c :: more ∧ c ≠ ']' ∧ isBlank c = false := by
  cases outlines with
  | scalar _ _ skipped => exact exists_eq_cons_of_skipScalar skipped
  | array => exact ⟨_, _, rfl, by decide, by decide⟩
  | object => exact ⟨_, _, rfl, by decide, by decide⟩

/-- What is made of a text, and what is known to follow it. -/
def Makes {α : Type} {bound : Nat} (made : α × Rest bound) (outline : α) (rest : List Char) : Prop :=
  made.1 = outline ∧ made.2.map Subtype.val = some rest

section Steps

variable {first : Bool} {start middle behind key afterKey : List Char} {value : Outline}
  {next items : Items} {following members : Members}

theorem makes_scalar (notArray : ∀ more, text ≠ '[' :: more)
    (notObject : ∀ more, text ≠ '{' :: more) (skipped : skipScalar text = .ok rest) :
    Makes (outlineValue text) (.scalar text) rest := by
  rw [outlineValue]
  · split
    · next same =>
      obtain rfl := Except.ok.inj (skipped.symm.trans same)
      exact ⟨rfl, rfl⟩
    · next failed => cases skipped.symm.trans failed
  all_goals assumption

theorem makes_array (made : Makes (outlineItems true text) items rest) :
    Makes (outlineValue ('[' :: text)) (.array ('[' :: text) items) rest := by
  obtain ⟨rfl, ends⟩ := made
  rw [outlineValue]
  exact ⟨rfl, by rw [Rest.map_val_widen, ends]⟩

theorem makes_object (made : Makes (outlineMembers true text) members rest) :
    Makes (outlineValue ('{' :: text)) (.object ('{' :: text) members) rest := by
  obtain ⟨rfl, ends⟩ := made
  rw [outlineValue]
  exact ⟨rfl, by rw [Rest.map_val_widen, ends]⟩

theorem makes_itemsClosed (closing : skipBlanks text = ']' :: rest) :
    Makes (outlineItems first text) (.closed rest) rest := by
  rw [outlineItems]
  split
  · next same =>
    obtain ⟨-, rfl⟩ := List.cons.inj (closing.symm.trans same)
    exact ⟨rfl, rfl⟩
  · next same => cases closing.symm.trans same
  · next notClose same => exact absurd (List.cons.inj (closing.symm.trans same)).1.symm notClose

/-- An item and what follows it, once it is known where the item begins. -/
theorem makes_item (here : Makes (outlineValue start) value middle)
    (more : Makes (outlineItems false middle) next rest) (le : start.length ≤ text.length)
    (notEmpty : start ≠ []) : Makes (outlineItem text start le notEmpty) (.item value next) rest := by
  obtain ⟨made, ends⟩ := here
  obtain ⟨rfl, moreEnds⟩ := more
  rw [outlineItem]
  rcases outlined : outlineValue start with ⟨found, _ | ⟨after, short⟩⟩
  · rw [outlined] at ends
    cases ends
  · rw [outlined] at made ends
    obtain rfl := made
    obtain rfl := Option.some.inj ends
    exact ⟨rfl, by rw [Rest.map_val_widen, moreEnds]⟩

theorem makes_firstItem {c : Char} {tail : List Char} (begins : skipBlanks text = c :: tail)
    (notClose : c ≠ ']')
    (made : ∀ le, Makes (outlineItem text (c :: tail) le (List.cons_ne_nil c tail)) items rest) :
    Makes (outlineItems true text) items rest := by
  rw [outlineItems]
  split
  · next same => exact absurd (List.cons.inj (begins.symm.trans same)).1 notClose
  · next same => cases begins.symm.trans same
  · next same =>
    obtain ⟨rfl, rfl⟩ := List.cons.inj (begins.symm.trans same)
    rw [if_pos rfl]
    exact made _

theorem makes_nextItem {c : Char} {tail : List Char} (comma : skipBlanks text = ',' :: behind)
    (begins : skipBlanks behind = c :: tail) (notClose : c ≠ ']')
    (made : ∀ le, Makes (outlineItem text (c :: tail) le (List.cons_ne_nil c tail)) items rest) :
    Makes (outlineItems false text) items rest := by
  rw [outlineItems]
  split
  · next same => cases comma.symm.trans same
  · next same => cases comma.symm.trans same
  · next same =>
    obtain ⟨rfl, rfl⟩ := List.cons.inj (comma.symm.trans same)
    rw [if_neg Bool.false_ne_true, if_pos (beq_self_eq_true ',')]
    split
    · next same => cases begins.symm.trans same
    · next same => exact absurd (List.cons.inj (begins.symm.trans same)).1 notClose
    · next same =>
      obtain ⟨rfl, rfl⟩ := List.cons.inj (begins.symm.trans same)
      exact made _

theorem makes_membersClosed (closing : skipBlanks text = '}' :: rest) :
    Makes (outlineMembers first text) (.closed rest) rest := by
  rw [outlineMembers]
  split
  · next same =>
    obtain ⟨-, rfl⟩ := List.cons.inj (closing.symm.trans same)
    exact ⟨rfl, rfl⟩
  · next same => cases closing.symm.trans same
  · next notClose same => exact absurd (List.cons.inj (closing.symm.trans same)).1.symm notClose

/-- A member whose key has been opened, and what follows it. -/
theorem makes_member (keyEnds : skipQuoted key = .ok afterKey)
    (colon : skipBlanks afterKey = ':' :: behind)
    (here : Makes (outlineValue (skipBlanks behind)) value middle)
    (more : Makes (outlineMembers false middle) following rest) (lt : key.length < text.length) :
    Makes (outlineMember text key lt) (.member key afterKey value following) rest := by
  obtain ⟨made, ends⟩ := here
  obtain ⟨rfl, moreEnds⟩ := more
  rw [outlineMember]
  split
  · next failed => cases keyEnds.symm.trans failed
  · next same =>
    obtain rfl := Except.ok.inj (keyEnds.symm.trans same)
    split
    · next same =>
      obtain ⟨-, rfl⟩ := List.cons.inj (colon.symm.trans same)
      split
      · next same =>
        rw [same] at ends
        cases ends
      · next same =>
        rw [same] at made ends
        obtain rfl := made
        obtain rfl := Option.some.inj ends
        exact ⟨rfl, by rw [Rest.map_val_widen, moreEnds]⟩
    · next notColon => exact absurd colon (notColon behind)

theorem makes_firstMember (begins : skipBlanks text = '"' :: key)
    (made : ∀ lt, Makes (outlineMember text key lt) members rest) :
    Makes (outlineMembers true text) members rest := by
  rw [outlineMembers]
  split
  · next same => cases begins.symm.trans same
  · next same => cases begins.symm.trans same
  · next same =>
    obtain ⟨rfl, rfl⟩ := List.cons.inj (begins.symm.trans same)
    rw [if_pos rfl, if_pos (beq_self_eq_true '"')]
    exact made _

theorem makes_nextMember (comma : skipBlanks text = ',' :: behind)
    (begins : skipBlanks behind = '"' :: key)
    (made : ∀ lt, Makes (outlineMember text key lt) members rest) :
    Makes (outlineMembers false text) members rest := by
  rw [outlineMembers]
  split
  · next same => cases comma.symm.trans same
  · next same => cases comma.symm.trans same
  · next same =>
    obtain ⟨rfl, rfl⟩ := List.cons.inj (comma.symm.trans same)
    rw [if_neg Bool.false_ne_true, if_pos (beq_self_eq_true ',')]
    split
    · next same =>
      obtain ⟨-, rfl⟩ := List.cons.inj (begins.symm.trans same)
      exact made _
    · next notKey => exact absurd begins (notKey key)

end Steps

mutual
/-- The outline that closes is the one that is made. -/
theorem Outlines.makes : ∀ {text : List Char} {outline : Outline} {rest : List Char},
    Outlines text outline rest → Makes (outlineValue text) outline rest
  | _, _, _, .scalar notArray notObject skipped => makes_scalar notArray notObject skipped
  | _, _, _, .array items => makes_array items.makes
  | _, _, _, .object members => makes_object members.makes
theorem OutlinesItems.makes : ∀ {first : Bool} {text : List Char} {items : Items} {rest : List Char},
    OutlinesItems first text items rest → Makes (outlineItems first text) items rest
  | _, _, _, _, .close closing => makes_itemsClosed closing
  | _, _, _, _, .first here more => by
    obtain ⟨c, tail, begins, notClose, -⟩ := here.exists_eq_cons
    exact makes_firstItem begins notClose fun le =>
      makes_item (begins ▸ here.makes) more.makes le (List.cons_ne_nil c tail)
  | _, _, _, _, .next comma here more => by
    obtain ⟨c, tail, begins, notClose, -⟩ := here.exists_eq_cons
    exact makes_nextItem comma begins notClose fun le =>
      makes_item (begins ▸ here.makes) more.makes le (List.cons_ne_nil c tail)
theorem OutlinesMember.makes : ∀ {key : List Char} {members : Members} {rest : List Char},
    OutlinesMember key members rest → ∀ {text : List Char} (lt : key.length < text.length),
      Makes (outlineMember text key lt) members rest
  | _, _, _, .intro keyEnds colon here more, _, lt =>
    makes_member keyEnds colon here.makes more.makes lt
theorem OutlinesMembers.makes : ∀ {first : Bool} {text : List Char} {members : Members}
    {rest : List Char}, OutlinesMembers first text members rest →
      Makes (outlineMembers first text) members rest
  | _, _, _, _, .close closing => makes_membersClosed closing
  | _, _, _, _, .first begins member => makes_firstMember begins fun lt => member.makes lt
  | _, _, _, _, .next comma begins member => makes_nextMember comma begins fun lt => member.makes lt
end

mutual
/-- What closes can be passed over. -/
theorem Outlines.skip : ∀ {text : List Char} {outline : Outline} {rest : List Char},
    Outlines text outline rest → outline.skip = .ok ()
  | _, _, _, .scalar _ _ skipped => by
    rw [Outline.skip, skipped, Except.map]
  | _, _, _, .array items => items.skip
  | _, _, _, .object members => members.skip
theorem OutlinesItems.skip : ∀ {first : Bool} {text : List Char} {items : Items} {rest : List Char},
    OutlinesItems first text items rest → items.skip = .ok ()
  | _, _, _, _, .close _ => rfl
  | _, _, _, _, .first here more => by
    rw [Items.skip, here.skip]
    exact more.skip
  | _, _, _, _, .next _ here more => by
    rw [Items.skip, here.skip]
    exact more.skip
theorem OutlinesMember.skip : ∀ {key : List Char} {members : Members} {rest : List Char},
    OutlinesMember key members rest → members.skip = .ok ()
  | _, _, _, .intro _ _ here more => by
    rw [Members.skip, here.skip]
    exact more.skip
theorem OutlinesMembers.skip : ∀ {first : Bool} {text : List Char} {members : Members}
    {rest : List Char}, OutlinesMembers first text members rest → members.skip = .ok ()
  | _, _, _, _, .close _ => rfl
  | _, _, _, _, .first _ member => member.skip
  | _, _, _, _, .next _ _ member => member.skip
end

/-- The outline that is made of a text can be passed over if it closes, and not otherwise. -/
theorem skip_outlineValue_iff :
    (outlineValue text).1.skip = .ok () ↔
      ∃ rest, (outlineValue text).2.map Subtype.val = some rest ∧
        Outlines text (outlineValue text).1 rest :=
  ⟨closesIfSkipped text, fun ⟨_, _, outlines⟩ => outlines.skip⟩

end SchemaGrammar.Json
