import Mathlib
import SchemaGrammar.Proofs.EncodedMessages

/-!
# How flattening ends

A list of messages is flattened to a list of the same length, message by message, or the first bad
message is reported under its index (`Flattening`). That is all that can happen, and which of it
happens is told by the messages alone (`normalizeFrom_eq_ok_iff`, `normalizeFrom_eq_error_iff`).

Messages that have to be decoded first are all decoded before any of them is judged. A message that
cannot be decoded, wherever it stands in the list, therefore hides every bad message, also those
before it (`normalize_outcome`). For a text the list is the one that its outline shows: it needs its
closing bracket (`Outline.Lists`).
-/

namespace SchemaGrammar

namespace Json

/-! ## Outlined lists -/

theorem decodeScalar_eq_ok_iff {α : Type} {expected : String} {convert : Value → Option α}
    {text : List Char} {a : α} :
    decodeScalar expected convert text = .ok a ↔
      ∃ v rest, readScalar text = .ok (v, rest) ∧ convert v = some a := by
  unfold decodeScalar
  split
  · next failed => simp [failed]
  · next v rest read =>
    rw [read]
    split
    · next converted => simp [converted]
    · next converted => simp [converted]

/-- Where no scalar will do, nothing is decoded of one. -/
theorem decodeAs_none_ne_ok {α : Type} {expected : String} {outline : Outline} {a : α} :
    outline.decodeAs expected (fun _ => none) ≠ .ok a := by
  cases outline with
  | scalar text =>
    rw [Outline.decodeAs, ne_eq, decodeScalar_eq_ok_iff]
    rintro ⟨v, rest, -, ⟨⟩⟩
  | array =>
    intro decoded
    cases decoded
  | object =>
    intro decoded
    cases decoded

/-- A list is decoded from an array, by its items. -/
theorem decodeList_eq_ok_iff {α : Type} {each : Outline → Except TextMisfit α} {outline : Outline}
    {decoded : List α} :
    outline.decodeList each = .ok decoded ↔
      ∃ text items, outline = .array text items ∧ items.decodeItems each 0 = .ok decoded := by
  constructor
  · intro list
    cases outline with
    | array text items => exact ⟨text, items, rfl, list⟩
    | scalar text =>
      simp only [Outline.decodeList] at list
      exact absurd list decodeAs_none_ne_ok
    | object => cases list
  · rintro ⟨text, items, rfl, items⟩
    exact items

end Json

namespace Chat

open Json

/-! ## Single messages -/

/-- What a message is flattened to: its role, or the empty one, and its text, or the texts that its
parts have with a line break between each two. -/
inductive Flattens : Message → FormattedMessage → Prop
  | text {role : Option String} {s : String} :
      Flattens ⟨role, some (.text s)⟩ ⟨role.getD "", s⟩
  | parts {role : Option String} {ps : List Part} :
      Flattens ⟨role, some (.parts ps)⟩ ⟨role.getD "", "\n".intercalate (ps.filterMap Part.text)⟩

/-- The words that tell the kind of a content. An array is one with a part that has no text in it,
as it would be parts otherwise. -/
inductive KindWords : Value → String → Prop
  | null : KindWords .null "null"
  | bool {b : Bool} : KindWords (.bool b) "boolean"
  | number {n : Number} : KindWords (.number n) "number"
  | string {s : String} : KindWords (.string s) "string"
  | array {items : List Value} : KindWords (.array items) "array with non-text parts"
  | object {members : List Member} : KindWords (.object members) "object"

/-- A message with an index is bad: its content is missing, or it is neither a text nor parts. -/
inductive IsBad (index : Nat) : Message → ChatError → Prop
  | missing {role : Option String} : IsBad index ⟨role, none⟩ (.missingContent index)
  | other {role : Option String} {v : Value} {found : String} (words : KindWords v found) :
      IsBad index ⟨role, some (.other v)⟩ (.invalidContent index found)

theorem kindWords_iff {v : Value} {found : String} : KindWords v found ↔ foundKind v = found := by
  constructor
  · rintro ⟨⟩ <;> rfl
  · rintro rfl
    cases v <;> constructor

theorem Message.flatten_eq_ok_iff {message : Message} {i : Nat} {formatted : FormattedMessage} :
    message.flatten i = .ok formatted ↔ Flattens message formatted := by
  constructor
  · intro flat
    obtain ⟨role, _ | _ | _ | _⟩ := message
    · cases flat
    · cases flat
      exact .text
    · cases flat
      exact .parts
    · cases flat
  · rintro (_ | _) <;> rfl

theorem Message.flatten_eq_error_iff {message : Message} {i : Nat} {e : ChatError} :
    message.flatten i = .error e ↔ IsBad i message e := by
  constructor
  · intro fails
    obtain ⟨role, _ | _ | _ | _⟩ := message
    · cases fails
      exact .missing
    · cases fails
    · cases fails
    · cases fails
      exact .other (kindWords_iff.mpr rfl)
  · rintro (_ | words)
    · rfl
    · rw [← kindWords_iff.mp words]
      rfl

/-! ## Lists of messages -/

/-- Messages are flattened one by one. -/
theorem normalizeFrom_eq_ok_iff {messages : List Message} :
    ∀ {i : Nat} {out : List FormattedMessage},
      normalizeFrom i messages = .ok out ↔ List.Forall₂ Flattens messages out := by
  induction messages with
  | nil => simp [normalizeFrom, eq_comm]
  | cons m rest ih =>
    intro i out
    rw [normalizeFrom, List.forall₂_cons_left_iff]
    cases flat : m.flatten i with
    | error e =>
      refine ⟨fun flattened => (by cases flattened), ?_⟩
      rintro ⟨formatted, _, here, -⟩
      rw [Message.flatten_eq_ok_iff.mpr here] at flat
      cases flat
    | ok formatted =>
      have only : ∀ {other}, Flattens m other ↔ formatted = other := by
        intro other
        rw [← Message.flatten_eq_ok_iff (i := i), flat, Except.ok.injEq]
      simp only [map_eq_ok_iff, ih, only]
      constructor
      · rintro ⟨more, flattened, rfl⟩
        exact ⟨formatted, more, rfl, flattened, rfl⟩
      · rintro ⟨_, more, rfl, flattened, rfl⟩
        exact ⟨more, flattened, rfl⟩

/-- The first bad message is the one that is reported. -/
theorem normalizeFrom_eq_error_iff {messages : List Message} {e : ChatError} :
    ∀ {i : Nat}, normalizeFrom i messages = .error e ↔
      ∃ before bad after, messages = before ++ bad :: after ∧ (∀ m ∈ before, m.IsUsable) ∧
        IsBad (i + before.length) bad e := by
  intro i
  constructor
  · induction messages generalizing i with
    | nil =>
      intro fails
      cases fails
    | cons m rest ih =>
      rw [normalizeFrom]
      intro fails
      cases flat : m.flatten i with
      | error d =>
        rw [flat] at fails
        obtain rfl := Except.error.inj fails
        refine ⟨[], m, rest, rfl, fun m mem => ?_, Message.flatten_eq_error_iff.mp flat⟩
        exact absurd mem List.not_mem_nil
      | ok formatted =>
        rw [flat] at fails
        obtain ⟨before, bad, after, rfl, usable, isBad⟩ := ih (map_eq_error_iff.mp fails)
        refine ⟨m :: before, bad, after, rfl, ?_, ?_⟩
        · exact List.forall_mem_cons.mpr ⟨Message.exists_flatten_iff.mp ⟨_, flat⟩, usable⟩
        · rw [List.length_cons, Nat.add_comm before.length 1, ← Nat.add_assoc]
          exact isBad
  · rintro ⟨before, bad, after, rfl, usable, isBad⟩
    exact normalizeFrom_append_of_flatten usable (Message.flatten_eq_error_iff.mpr isBad)

/-- How flattening a list of messages ends. -/
inductive Flattening (messages : List Message) :
    Except ChatError (List FormattedMessage) → Prop
  /-- Every message is flattened. -/
  | all {out : List FormattedMessage} : List.Forall₂ Flattens messages out →
      Flattening messages (.ok out)
  /-- Every message before a bad one could be flattened. -/
  | firstBad {before after : List Message} {bad : Message} {e : ChatError} :
      messages = before ++ bad :: after → (∀ m ∈ before, m.IsUsable) → IsBad before.length bad e →
      Flattening messages (.error e)

theorem normalize_eq_iff {messages : List Message}
    {outcome : Except ChatError (List FormattedMessage)} :
    normalize messages = outcome ↔ Flattening messages outcome := by
  cases outcome with
  | ok out =>
    rw [normalize, normalizeFrom_eq_ok_iff]
    constructor
    · exact .all
    · rintro ⟨flattened⟩
      exact flattened
  | error e =>
    rw [normalize, normalizeFrom_eq_error_iff]
    simp only [Nat.zero_add]
    constructor
    · rintro ⟨before, bad, after, same, usable, isBad⟩
      exact .firstBad same usable isBad
    · intro ends
      cases ends with
      | firstBad same usable isBad => exact ⟨_, _, _, same, usable, isBad⟩

/-- Judging messages never says that they cannot be decoded. -/
theorem normalize_ne_undecodable {messages : List Message} {e : DecodeError} :
    normalize messages ≠ .error (.undecodable e) := by
  intro ends
  cases normalize_eq_iff.mp ends with
  | firstBad _ _ isBad => cases isBad

/-! ## Lists that are decoded first -/

/-- The outlined list has these items and its closing bracket. -/
inductive ItemsAre : Items → List Outline → Prop
  | closed {rest : List Char} : ItemsAre (.closed rest) []
  | item {value : Outline} {next : Items} {more : List Outline} : ItemsAre next more →
      ItemsAre (.item value next) (value :: more)

/-- What is outlined is a list of these items. -/
inductive Lists : Outline → List Outline → Prop
  | array {text : List Char} {items : Items} {listed : List Outline} : ItemsAre items listed →
      Lists (.array text items) listed

/-- How flattening ends for a list whose items have to be decoded first. -/
structure EndsAfterDecoding {α ε : Type} (decode : α → Except ε Message) (isList : List α → Prop)
    (outcome : Except ChatError (List FormattedMessage)) : Prop where
  /-- Items that can all be decoded are judged as the messages that they are. -/
  judged : ∀ {items : List α} {messages : List Message}, isList items →
    List.Forall₂ (fun a m => decode a = .ok m) items messages → Flattening messages outcome
  /-- An item that cannot be decoded is all that is reported, whatever the others are, and nothing
  else is reported so but that there is no list. -/
  undecodable : (∃ e, outcome = .error (.undecodable e)) ↔
    ∀ items, isList items → ∃ bad ∈ items, ∃ d, decode bad = .error d

/-- An outlined list is decoded item by item up to its closing bracket. -/
theorem decodeItems_outlined_eq_ok_iff {α : Type} {each : Outline → Except TextMisfit α} :
    ∀ {items : Items} {i : Nat} {decoded : List α}, items.decodeItems each i = .ok decoded ↔
      ∃ listed, ItemsAre items listed ∧ List.Forall₂ (fun o a => each o = .ok a) listed decoded
  | .closed _, i, decoded => by
    rw [Items.decodeItems, Except.ok.injEq]
    constructor
    · rintro rfl
      exact ⟨[], .closed, .nil⟩
    · rintro ⟨_, ⟨⟩, ⟨⟩⟩
      rfl
  | .item value next, i, decoded => by
    rw [Items.decodeItems]
    cases here : each value with
    | error e =>
      refine ⟨fun decoded => (by cases decoded), ?_⟩
      rintro ⟨_, _ | _, _ | ⟨first, _⟩⟩
      cases here.symm.trans first
    | ok a =>
      simp only [map_eq_ok_iff, decodeItems_outlined_eq_ok_iff]
      constructor
      · rintro ⟨_, ⟨listed, are, more⟩, rfl⟩
        exact ⟨value :: listed, .item are, .cons here more⟩
      · rintro ⟨_, _ | are, _ | ⟨first, more⟩⟩
        obtain rfl := Except.ok.inj (here.symm.trans first)
        exact ⟨_, ⟨_, are, more⟩, rfl⟩
  | .dangling _, _, _ | .stopped _, _, _ | .lost, _, _ => by
    refine ⟨fun decoded => (by cases decoded), ?_⟩
    rintro ⟨_, ⟨⟩, -⟩

/-- A text is decoded to messages if it begins with a list of items that are. -/
theorem messagesOfText_eq_ok_iff {text : String} {messages : List Message} :
    messagesOfText text = .ok messages ↔
      ∃ listed, Lists (Outline.ofText text.toList) listed ∧
        List.Forall₂ (fun o m => Message.ofOutline o = .ok m) listed messages := by
  rw [messagesOfText, mapError_eq_ok_iff, decodeList_eq_ok_iff]
  simp only [decodeItems_outlined_eq_ok_iff]
  constructor
  · rintro ⟨start, items, same, listed, are, each⟩
    exact ⟨listed, same ▸ .array are, each⟩
  · rintro ⟨listed, lists, each⟩
    generalize Outline.ofText text.toList = outline at lists
    obtain ⟨are⟩ := lists
    exact ⟨_, _, rfl, listed, are, each⟩

/-- Either all items can be decoded, or one of them cannot. -/
theorem not_exists_forall₂_iff {α β ε : Type} {decode : α → Except ε β} {items : List α} :
    (¬ ∃ results, List.Forall₂ (fun a b => decode a = .ok b) items results) ↔
      ∃ bad ∈ items, ∃ d, decode bad = .error d := by
  rw [exists_forall₂_iff_forall]
  push Not
  refine exists_congr fun a => and_congr_right fun _ => ?_
  cases decode a <;> simp

/-- What becomes of messages that were decoded, or of the misfit that was found. -/
def judge : Except DecodeError (List Message) → Except ChatError (List FormattedMessage)
  | .error e => .error (.undecodable e)
  | .ok messages => normalize messages

/-- A misfit is reported as it is, and messages are never said to be undecodable. -/
theorem exists_judge_eq_undecodable_iff {decoded : Except DecodeError (List Message)} :
    (∃ e, judge decoded = .error (.undecodable e)) ↔ ∀ messages, decoded ≠ .ok messages := by
  cases decoded with
  | error e => simp [judge]
  | ok messages => simp [judge, normalize_ne_undecodable]

/-- Flattening ends after decoding if decoding succeeds exactly for lists whose items all decode. -/
theorem endsAfterDecoding_judge {α ε : Type} {decode : α → Except ε Message}
    {isList : List α → Prop} {decoded : Except DecodeError (List Message)}
    (decodes : ∀ messages, decoded = .ok messages ↔
      ∃ items, isList items ∧ List.Forall₂ (fun a m => decode a = .ok m) items messages) :
    EndsAfterDecoding decode isList (judge decoded) := by
  constructor
  · intro items messages list each
    rw [(decodes messages).mpr ⟨items, list, each⟩]
    exact normalize_eq_iff.mp rfl
  · simp only [exists_judge_eq_undecodable_iff, ne_eq, decodes, ← not_exists_forall₂_iff]
    push Not
    exact ⟨fun none items list messages => none messages items list,
      fun none messages items list => none items list messages⟩

/-- Flattening messages ends with a list of flattened messages, or with the first bad message and what
is bad about it. In a value or a text the messages are decoded first, and one that cannot be decoded
is reported before any bad message. -/
theorem normalize_outcome :
    (∀ messages outcome, normalize messages = outcome ↔ Flattening messages outcome) ∧
    (∀ v, EndsAfterDecoding Message.ofValue (v = .array ·) (normalizeValue v)) ∧
    ∀ text, EndsAfterDecoding Message.ofOutline (Lists (Outline.ofText text.toList))
      (normalizeText text) := by
  refine ⟨fun _ _ => normalize_eq_iff, fun v => ?_, fun text => ?_⟩
  · exact endsAfterDecoding_judge fun _ => messagesOfValue_eq_ok_iff
  · exact endsAfterDecoding_judge fun _ => messagesOfText_eq_ok_iff

/-- A message that is no object hides that the one before it has no content. -/
example : normalizeValue (.array [.object [("role", .string "u")], .null]) =
    .error (.undecodable ⟨[.index 1], .wrongType "null" "struct ChatMessage", none⟩) := rfl

end Chat

end SchemaGrammar
