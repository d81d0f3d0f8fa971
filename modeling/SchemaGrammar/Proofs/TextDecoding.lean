import Mathlib
import SchemaGrammar.Chat.Normalization
import SchemaGrammar.Proofs.ChatShape
import SchemaGrammar.Proofs.DistinctKeys
import SchemaGrammar.Proofs.SkippedText

/-!
# Flattening a text and flattening its value

A chat can be decoded while its text is read, or from the value that the text has. Both ways come to
the same end for a document that repeats no key (`normalizeText_same`). What the two decoders make
of one outline is compared along its shape: a scalar, the two fields of a message, and the list of
messages (`Agrees`). Where the decoder of the text passes over the value of a key, the other one has
built it, and what can be built can be passed over. A key that is repeated stops both of them, so
only merging needs keys that are distinct.
-/

namespace SchemaGrammar

open Json

/-! ## Agreement -/

/-- Two outcomes agree if they succeed with the same result, or both fail. -/
inductive Agrees {ε δ α : Type} : Except ε α → Except δ α → Prop
  | ok {a : α} : Agrees (.ok a) (.ok a)
  | error {e : ε} {d : δ} : Agrees (.error e) (.error d)

namespace Agrees

variable {ε δ α β : Type} {x : Except ε α} {y : Except δ α}

theorem ok_or_error (agree : Agrees x y) :
    (∃ a, x = .ok a ∧ y = .ok a) ∨ ∃ e d, x = .error e ∧ y = .error d := by
  cases agree with
  | ok => exact .inl ⟨_, rfl, rfl⟩
  | error => exact .inr ⟨_, _, rfl, rfl⟩

theorem map (f : α → β) (agree : Agrees x y) : Agrees (x.map f) (y.map f) := by
  cases agree with
  | ok => exact .ok
  | error => exact .error

/-- What is mapped together with something else is mapped alone on the other side. -/
theorem map_fst {γ : Type} {x : Except ε (α × γ)} {y : Except δ α} (f : α → β)
    (agree : Agrees (x.map Prod.fst) y) : Agrees (x.map fun p => f p.1) (y.map f) := by
  cases x with
  | ok => exact agree.map f
  | error => exact agree.map f

theorem mapError {ε' δ' : Type} {f : ε → ε'} {g : δ → δ'} (agree : Agrees x y) :
    Agrees (x.mapError f) (y.mapError g) := by
  cases agree with
  | ok => exact .ok
  | error => exact .error

end Agrees

namespace Json

/-- What is read as a scalar is neither an array nor an object. -/
theorem notNested_of_readScalar {text rest : List Char} {v : Value}
    (read : readScalar text = .ok (v, rest)) :
    (∀ items, v ≠ .array items) ∧ ∀ members, v ≠ .object members := by
  unfold readScalar at read
  split at read
  · cases read
  · split_ifs at read
    all_goals
      obtain ⟨_, -, same⟩ := map_eq_ok_iff.mp read
      obtain ⟨rfl, -⟩ := Prod.mk.inj same
      simp

/-- A string or null is decoded from a text as it is from a value. -/
theorem Outline.ReadsAs.decodeOptional {depth : Nat} {outline : Outline} {v : Value}
    (read : outline.ReadsAs depth v) : Agrees outline.decodeOptional v.decodeOptional := by
  cases read with
  | scalar scalar =>
    simp only [Outline.decodeOptional, Outline.decodeAs, decodeScalar, scalar]
    cases v with
    | null | string => exact .ok
    | bool | number | array | object => exact .error
  | array => exact .error
  | object => exact .error

end Json

namespace Chat

/-! ## The two fields -/

section Fields

variable {α β : Type} {depth : Nat}
  {role : Outline → Except TextMisfit α} {content : Outline → Except TextMisfit β}
  {roleOf : Value → Except ValueMisfit α} {contentOf : Value → Except ValueMisfit β}

/-- Asks that a key of a message is new. -/
def permitNew (fields : Fields α β) (name : String) (afterKey : List Char) :
    Except TextMisfit Unit :=
  if fields.has name then .error ⟨[], .duplicateField name, byteCount (behindBracket afterKey)⟩
  else .ok ()

/-- Takes one outlined member of a message. -/
def gatherOutlined (role : Outline → Except TextMisfit α) (content : Outline → Except TextMisfit β)
    (fields : Fields α β) (name : String) (v : Outline) : Except TextMisfit (Fields α β) :=
  if name == "role" then
    match role v with
    | .error e => .error (e.under (.key name))
    | .ok a => .ok { fields with role := some a }
  else if name == "content" then
    match content v with
    | .error e => .error (e.under (.key name))
    | .ok b => .ok { fields with content := some b }
  else
    match v.skip with
    | .error failure => .error ((Misfit.ofFailure failure).under (.key name))
    | .ok _ => .ok fields

theorem fieldsOfOutlinedMembers_eq_walk (members : Members) :
    fieldsOfOutlinedMembers role content members =
      members.walk permitNew (gatherOutlined role content) .empty := rfl

/-- One member is taken from a text as it is from a value, if its key is new. -/
theorem gatherOutlined_agrees {fields : Fields α β} {name : String} {outline : Outline} {v : Value}
    (read : outline.read depth = .ok v) (new : fields.has name = false)
    (sameRole : Agrees (role outline) (roleOf v))
    (sameContent : Agrees (content outline) (contentOf v)) :
    Agrees (gatherOutlined role content fields name outline)
      (gather roleOf contentOf fields name v) := by
  simp only [gatherOutlined, gather, new, Bool.false_eq_true, if_false]
  split_ifs
  · obtain ⟨a, fromText, fromValue⟩ | ⟨e, d, fromText, fromValue⟩ := sameRole.ok_or_error
    · rw [fromText, fromValue]
      exact .ok
    · rw [fromText, fromValue]
      exact .error
  · obtain ⟨b, fromText, fromValue⟩ | ⟨e, d, fromText, fromValue⟩ := sameContent.ok_or_error
    · rw [fromText, fromValue]
      exact .ok
    · rw [fromText, fromValue]
      exact .error
  · rw [Outline.skip_of_readsAs (Outline.readsAs_of_read read)]
    exact .ok

/-- The fields of an object are gathered from a text as they are from a value. A key that is there
already stops both. -/
theorem walk_agrees {members : Members} {vs : List Member} (reads : members.ReadsAs depth vs)
    (sameRole : ∀ {outline : Outline} {v : Value}, outline.read depth = .ok v →
      Agrees (role outline) (roleOf v))
    (sameContent : ∀ {outline : Outline} {v : Value}, outline.read depth = .ok v →
      Agrees (content outline) (contentOf v)) :
    ∀ fields : Fields α β,
      Agrees ((members.walk permitNew (gatherOutlined role content) fields).map Prod.fst)
        (Value.walkMembers (gather roleOf contentOf) fields vs) := by
  induction reads with
  | closed => exact fun fields => .ok
  | @member key behind afterKey name value next v vs key read reads ih =>
    intro fields
    rw [Members.walk, key, Value.walkMembers]
    by_cases old : fields.has name = true
    · simp only [permitNew, gather, if_pos old]
      exact .error
    · simp only [permitNew, if_neg old]
      have taken := gatherOutlined_agrees read (Bool.eq_false_iff.mpr old) (sameRole read)
        (sameContent read)
      obtain ⟨more, fromText, fromValue⟩ | ⟨e, d, fromText, fromValue⟩ := taken.ok_or_error
      · rw [fromText, fromValue]
        exact ih more
      · rw [fromText, fromValue]
        exact .error

/-- The fields of a list are gathered from a text as they are from a value. -/
theorem fieldsOfOutlinedItems_agrees {items : Items} {vs : List Value}
    (reads : items.ReadsAs depth vs)
    (sameRole : ∀ {outline : Outline} {v : Value}, outline.read depth = .ok v →
      Agrees (role outline) (roleOf v))
    (sameContent : ∀ {outline : Outline} {v : Value}, outline.read depth = .ok v →
      Agrees (content outline) (contentOf v)) :
    Agrees ((fieldsOfOutlinedItems role content items).map Prod.fst)
      (fieldsOfItems roleOf contentOf vs) := by
  cases reads with
  | closed => exact .ok
  | @item value next v vs first reads =>
    simp only [fieldsOfOutlinedItems, nextItem, fieldsOfItems]
    obtain ⟨a, fromText, fromValue⟩ | ⟨e, d, fromText, fromValue⟩ := (sameRole first).ok_or_error
    · rw [fromText, fromValue]
      cases reads with
      | closed => exact .ok
      | @item value next w vs second reads =>
        simp only
        obtain ⟨b, fromText, fromValue⟩ | ⟨e, d, fromText, fromValue⟩ :=
          (sameContent second).ok_or_error
        · rw [fromText, fromValue]
          cases reads with
          | closed => exact .ok
          | item => exact .error
        · rw [fromText, fromValue]
          exact .error
    · rw [fromText, fromValue]
      exact .error

end Fields

/-! ## Messages -/

/-- A content is decoded from a text as it is from a value. -/
theorem Content.ofOutline_agrees {outline : Outline} {v : Value}
    (read : outline.read contentDepth = .ok v) :
    Agrees (Content.ofOutline outline) (.ok (.ofValue v) : Except ValueMisfit Content) := by
  rw [Content.ofOutline, read]
  exact .ok

/-- A message is decoded from a text as it is from a value. -/
theorem Message.ofOutline_agrees {outline : Outline} {v : Value}
    (read : outline.read (contentDepth + 1) = .ok v) :
    Agrees (Message.ofOutline outline) (Message.ofValue v) := by
  have sameRole {outline : Outline} {v : Value} (read : outline.read contentDepth = .ok v) :
      Agrees outline.decodeOptional v.decodeOptional :=
    (Outline.readsAs_of_read read).decodeOptional
  have sameContent {outline : Outline} {v : Value} (read : outline.read contentDepth = .ok v) :
      Agrees (Content.ofOutline outline) ((fun w => .ok (.ofValue w)) v) :=
    Content.ofOutline_agrees read
  cases Outline.readsAs_of_read read with
  | @scalar _ text rest v scalar =>
    simp only [Message.ofOutline, Outline.decodeAs, decodeScalar, scalar]
    cases v with
    | null | bool | number | string => exact .error
    | array items => exact absurd rfl ((notNested_of_readScalar scalar).1 items)
    | object members => exact absurd rfl ((notNested_of_readScalar scalar).2 members)
  | array reads => exact (fieldsOfOutlinedItems_agrees reads sameRole sameContent).map_fst ofFields
  | object reads =>
    rw [Message.ofOutline, Message.ofValue, fieldsOfOutlinedMembers_eq_walk, fieldsOfMembers_eq_walk]
    exact (walk_agrees reads sameRole sameContent .empty).map_fst ofFields

/-- The items of a list are decoded from a text as they are from a value. -/
theorem decodeItems_agrees {α : Type} {depth : Nat} {each : Outline → Except TextMisfit α}
    {eachOf : Value → Except ValueMisfit α} {items : Items} {vs : List Value}
    (reads : items.ReadsAs depth vs)
    (same : ∀ {outline : Outline} {v : Value}, outline.read depth = .ok v →
      Agrees (each outline) (eachOf v)) :
    ∀ i : Nat, Agrees (items.decodeItems each i) (Value.decodeItems eachOf i vs) := by
  induction reads with
  | closed => exact fun _ => .ok
  | item first _ ih =>
    intro i
    rw [Items.decodeItems, Value.decodeItems]
    obtain ⟨a, fromText, fromValue⟩ | ⟨e, d, fromText, fromValue⟩ := (same first).ok_or_error
    · rw [fromText, fromValue]
      exact (ih (i + 1)).map (a :: ·)
    · rw [fromText, fromValue]
      exact .error

/-- The messages are decoded from a text as they are from the value with all its members. -/
theorem messagesOfText_agrees {text : String} {v : Value}
    (read : (Outline.ofText text.toList).read nestingLimit = .ok v) :
    Agrees (messagesOfText text) (messagesOfValue v) := by
  refine Agrees.mapError ?_
  generalize Outline.ofText text.toList = outline at read
  rw [show nestingLimit = contentDepth + 1 + 1 from rfl] at read
  cases Outline.readsAs_of_read read with
  | scalar scalar =>
    simp only [Outline.decodeList, Outline.decodeAs, decodeScalar, scalar]
    cases v with
    | null | bool | number | string | object => exact .error
    | array items => exact absurd rfl ((notNested_of_readScalar scalar).1 items)
  | array reads => exact decodeItems_agrees reads Message.ofOutline_agrees 0
  | object => exact .error

/-! ## Flattening -/

/-- The same messages, or the same message that is bad for the same reason, or two inputs that
cannot be decoded. -/
inductive SameOutcome : Except ChatError (List FormattedMessage) →
    Except ChatError (List FormattedMessage) → Prop
  | ok {out : List FormattedMessage} : SameOutcome (.ok out) (.ok out)
  | missingContent {i : Nat} :
      SameOutcome (.error (.missingContent i)) (.error (.missingContent i))
  | invalidContent {i : Nat} {found : String} :
      SameOutcome (.error (.invalidContent i found)) (.error (.invalidContent i found))
  | undecodable {e d : DecodeError} : SameOutcome (.error (.undecodable e)) (.error (.undecodable d))

theorem SameOutcome.refl : ∀ outcome : Except ChatError (List FormattedMessage),
    SameOutcome outcome outcome
  | .ok _ => .ok
  | .error (.missingContent _) => .missingContent
  | .error (.invalidContent _ _) => .invalidContent
  | .error (.undecodable _) => .undecodable

/-- A document that repeats no key is flattened as its value is. -/
theorem normalizeText_same {text : String} {v : Value} (parsed : Value.parse text = .ok v)
    (distinct : Value.RepeatsNoKey text) : SameOutcome (normalizeText text) (normalizeValue v) := by
  rw [normalizeText, normalizeValue]
  obtain ⟨messages, fromText, fromValue⟩ | ⟨e, d, fromText, fromValue⟩ :=
    (messagesOfText_agrees (Value.read_of_parse parsed distinct)).ok_or_error
  · rw [fromText, fromValue]
    exact .refl _
  · rw [fromText, fromValue]
    exact .undecodable

/-- A message given as a list, with one part of each kind, is flattened to the same empty text. -/
theorem normalizeText_same_listed :
    let v : Value := .array [.array [.null, .array [.object [], .array []]]]
    Value.parse "[[null, [{}, []]]]" = .ok v ∧ normalizeValue v = .ok [⟨"", ""⟩] ∧
      SameOutcome (normalizeText "[[null, [{}, []]]]") (normalizeValue v) := by
  intro v
  have parsed : Value.parse "[[null, [{}, []]]]" = .ok v := by cbv
  have distinct : Value.RepeatsNoKey "[[null, [{}, []]]]" := by
    refine ⟨v, by cbv, ?_⟩
    simp [v, Value.hasDistinctKeys_array_iff, Value.hasDistinctKeys_object_iff, Value.HasDistinctKeys.null]
  exact ⟨parsed, rfl, normalizeText_same parsed distinct⟩

end Chat

end SchemaGrammar
