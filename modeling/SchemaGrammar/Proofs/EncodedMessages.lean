import Mathlib
import SchemaGrammar.Proofs.ChatShape

/-!
# Messages that are read back from their encoding

An encoded message leaves out what is absent, and an encoded content does not say of which kind it
is. Decoding takes a string for a text, a list of nothing but parts for parts, and keeps everything
else. So a content that was kept comes back only if the value that stands for it would be kept again
(`Content.IsSettled`). Every content that comes of a value is such a one
(`Content.isSettled_ofValue`), and so are texts and parts. The fields of a message are then read
back one by one (`Message.ofValue_toValue`), and a list of messages is decoded message by message
(`messagesOfValue_toValue`).

The values that messages are decoded from repeat no key, and this is needed. A part that gives its
text twice is kept as a value; its keys are merged, and what is kept is a part.
-/

namespace SchemaGrammar.Chat

open Json

/-! ## Contents -/

/-- A content that is decoded from its encoding, which repeats no key. -/
structure Content.IsSettled (content : Content) : Prop where
  again : .ofValue content.toValue = content
  distinct : content.toValue.HasDistinctKeys

theorem keys_optionalMember (key : String) (v : Option Value) :
    (optionalMember key v).map Prod.fst = if v.isSome then [key] else [] := by
  cases v <;> rfl

theorem Part.ofValue?_toValue (part : Part) : ofValue? part.toValue = some part := by
  obtain ⟨_ | s⟩ := part
  · rfl
  · rfl

theorem Part.hasDistinctKeys_toValue (part : Part) : part.toValue.HasDistinctKeys := by
  obtain ⟨_ | s⟩ := part
  · exact .object .nil fun m mem => absurd mem List.not_mem_nil
  · exact .object (List.nodup_singleton _) (by simp [optionalMember, Value.HasDistinctKeys.string])

theorem mapM_ofValue?_toValue : ∀ ps : List Part,
    (ps.map Part.toValue).mapM Part.ofValue? = some ps
  | [] => rfl
  | part :: ps => by
    rw [List.map_cons, List.mapM_cons, part.ofValue?_toValue, mapM_ofValue?_toValue ps]
    rfl

theorem Content.isSettled_text (s : String) : (text s).IsSettled := ⟨rfl, .string⟩

theorem Content.isSettled_parts (ps : List Part) : (parts ps).IsSettled := by
  constructor
  · rw [toValue, ofValue, mapM_ofValue?_toValue ps]
  · refine .array fun v mem => ?_
    obtain ⟨part, -, rfl⟩ := List.mem_map.mp mem
    exact part.hasDistinctKeys_toValue

/-- What comes of a value comes of its own encoding. -/
theorem Content.isSettled_ofValue {v : Value} (distinct : v.HasDistinctKeys) :
    (ofValue v).IsSettled := by
  -- a value that is kept is the same after its keys are merged
  have kept (isOther : ofValue v = .other v.merged) : (ofValue v).IsSettled := by
    rw [Value.merged_eq_self distinct] at isOther
    rw [isOther]
    exact ⟨isOther, distinct⟩
  match v, kept with
  | .string s, _ => exact isSettled_text s
  | .array items, kept =>
    cases read : items.mapM Part.ofValue? with
    | none => exact kept (by rw [ofValue, read])
    | some ps =>
      rw [ofValue, read]
      exact isSettled_parts ps
  | .null, kept | .bool _, kept | .number _, kept | .object _, kept => exact kept rfl

/-! ## Messages -/

/-- A message whose content, if it has one, is settled. -/
def Message.IsSettled (message : Message) : Prop :=
  ∀ content, message.content = some content → content.IsSettled

theorem lookup_optionalMember (key other : String) (v : Option Value) :
    (optionalMember key v).lookup other = if other = key then v else none := by
  cases v with
  | none => simp [optionalMember]
  | some v => by_cases same : other = key <;> simp [optionalMember, same]

/-- The fields of an encoded message. -/
def fieldMembers (role content : Option Value) : List Member :=
  optionalMember "role" role ++ optionalMember "content" content

theorem nodup_fieldMembers (role content : Option Value) :
    ((fieldMembers role content).map Prod.fst).Nodup := by
  rw [fieldMembers, List.map_append, keys_optionalMember, keys_optionalMember]
  cases role.isSome <;> cases content.isSome <;> decide

theorem lookup_role_fieldMembers (role content : Option Value) :
    (fieldMembers role content).lookup "role" = role := by
  rw [fieldMembers, List.lookup_append, lookup_optionalMember, lookup_optionalMember, if_pos rfl,
    if_neg (by decide), Option.or_none]

theorem lookup_content_fieldMembers (role content : Option Value) :
    (fieldMembers role content).lookup "content" = content := by
  rw [fieldMembers, List.lookup_append, lookup_optionalMember, lookup_optionalMember, if_pos rfl,
    if_neg (by decide), Option.none_or]

/-- A settled message is decoded from its encoding. -/
theorem Message.ofValue_toValue {message : Message} (settled : message.IsSettled) :
    ofValue message.toValue = .ok message := by
  obtain ⟨role, content⟩ := message
  have fields : fieldsOfMembers Value.decodeOptional (fun w => .ok (Content.ofValue w))
      (fieldMembers (role.map .string) (content.map Content.toValue)) =
        .ok ⟨role.map some, content⟩ := by
    rw [fieldsOfMembers_eq_ok_iff (nodup_fieldMembers _ _), lookup_role_fieldMembers,
      lookup_content_fieldMembers, fieldAfter_content_iff]
    constructor
    · cases role with
      | none => exact .kept
      | some s => exact .found rfl
    · cases content with
      | none => rfl
      | some content => exact congrArg some (settled content rfl).again.symm
  refine map_eq_ok_iff.mpr ⟨_, fields, ?_⟩
  cases role <;> rfl

theorem Message.hasDistinctKeys_toValue {message : Message} (settled : message.IsSettled) :
    message.toValue.HasDistinctKeys := by
  obtain ⟨role, content⟩ := message
  refine .object (nodup_fieldMembers _ _) fun member mem => ?_
  rcases List.mem_append.mp mem with inRole | inContent
  · cases role with
    | none => cases inRole
    | some s =>
      rw [List.mem_singleton.mp inRole]
      exact .string
  · cases content with
    | none => cases inContent
    | some content =>
      rw [List.mem_singleton.mp inContent]
      exact (settled content rfl).distinct

/-- A message that is decoded from a value is settled. -/
theorem Message.isSettled_of_ofValue {v : Value} {message : Message} (distinct : v.HasDistinctKeys)
    (decoded : ofValue v = .ok message) : message.IsSettled := by
  obtain ⟨role, _⟩ := message
  rintro content rfl
  match v, distinct with
  | .object members, .object nodup each =>
    obtain ⟨-, given⟩ := (exists_ofValue_object_iff nodup).mp ⟨role, decoded⟩
    obtain ⟨w, there, rfl⟩ := Option.map_eq_some_iff.mp given.symm
    exact Content.isSettled_ofValue (each _ ((Keyed.lookup_eq_some_iff nodup).mp there))
  | .array items, .array each =>
    obtain ⟨_, w, rfl, -, rfl⟩ := exists_ofValue_array_iff.mp ⟨role, decoded⟩
    exact Content.isSettled_ofValue (each w (by simp))
  | .null, _ | .bool _, _ | .number _, _ | .string _, _ => cases decoded

/-! ## Lists of messages -/

/-- The encoding of a list of messages. -/
def encoded (messages : List Message) : Value := .array (messages.map Message.toValue)

/-- A value is decoded to messages if it is a list of values that are. -/
theorem messagesOfValue_eq_ok_iff {v : Value} {messages : List Message} :
    messagesOfValue v = .ok messages ↔
      ∃ items, v = .array items ∧
        List.Forall₂ (fun v m => Message.ofValue v = .ok m) items messages := by
  rw [messagesOfValue, mapError_eq_ok_iff]
  cases v with
  | array items => simp [Value.decodeList, decodeItems_eq_ok_iff]
  | null | bool | number | string | object => simp [Value.decodeList]

/-- Settled messages are decoded from their encoding. -/
theorem messagesOfValue_encoded {messages : List Message}
    (settled : ∀ m ∈ messages, m.IsSettled) : messagesOfValue (encoded messages) = .ok messages := by
  refine messagesOfValue_eq_ok_iff.mpr ⟨_, rfl, List.forall₂_map_left_iff.mpr ?_⟩
  exact List.forall₂_same.mpr fun m mem => Message.ofValue_toValue (settled m mem)

theorem hasDistinctKeys_encoded {messages : List Message}
    (settled : ∀ m ∈ messages, m.IsSettled) : (encoded messages).HasDistinctKeys := by
  refine .array fun v mem => ?_
  obtain ⟨m, there, rfl⟩ := List.mem_map.mp mem
  exact Message.hasDistinctKeys_toValue (settled m there)

/-- The messages that come of a value, and those that are built: from a role and a text, from a role
and parts, or with nothing in them. -/
inductive Message.IsGiven : Message → Prop
  | decoded {v : Value} {messages : List Message} {m : Message} : v.HasDistinctKeys →
      messagesOfValue v = .ok messages → m ∈ messages → IsGiven m
  | text {role text : String} : IsGiven (.ofText role text)
  | parts {role : String} {texts : List (Option String)} : IsGiven (.ofParts role texts)
  | empty : IsGiven default

theorem Message.isSettled_ofText (role text : String) : (ofText role text).IsSettled := by
  rintro _ ⟨⟩
  exact Content.isSettled_text text

theorem Message.IsGiven.isSettled {message : Message} (given : message.IsGiven) :
    message.IsSettled := by
  cases given with
  | decoded distinct decoded mem =>
    obtain ⟨items, rfl, each⟩ := messagesOfValue_eq_ok_iff.mp decoded
    obtain ⟨w, memItems, here⟩ := exists_mem_of_forall₂ each mem
    exact isSettled_of_ofValue (Value.hasDistinctKeys_array_iff.mp distinct w memItems) here
  | text => exact isSettled_ofText _ _
  | parts =>
    rintro _ ⟨⟩
    exact Content.isSettled_parts _
  | empty => rintro _ ⟨⟩

/-- Messages that were decoded from a value or built are decoded from their encoding as they are, and
so they are flattened as they would be. Their encoding is itself a value that repeats no key. -/
theorem messagesOfValue_toValue {messages : List Message} (given : ∀ m ∈ messages, m.IsGiven) :
    (encoded messages).HasDistinctKeys ∧ messagesOfValue (encoded messages) = .ok messages ∧
      normalizeValue (encoded messages) = normalize messages := by
  have settled : ∀ m ∈ messages, m.IsSettled := fun m mem => (given m mem).isSettled
  have decoded := messagesOfValue_encoded settled
  refine ⟨hasDistinctKeys_encoded settled, decoded, ?_⟩
  rw [normalizeValue, decoded]

/-- A list for a message, an explicit null, parts in both forms and a list with an item that is no
part keep their kinds, beside messages that are built. -/
theorem messagesOfValue_toValue_mixed :
    let kept : Value := .array [.object [("text", .bool true)], .array []]
    let decoded : List Message := [⟨none, some (.parts [])⟩, ⟨some "a", some (.other .null)⟩,
      ⟨none, some (.parts [⟨some ""⟩, ⟨none⟩])⟩, ⟨none, some (.other kept)⟩, ⟨none, none⟩]
    let messages := decoded ++ [.ofText "u" "x", .ofParts "u" [none, some "y"], default]
    (∀ m ∈ messages, m.IsGiven) ∧ messagesOfValue (encoded messages) = .ok messages ∧
      normalizeValue (encoded messages) = .error (.invalidContent 1 "null") := by
  intro kept decoded messages
  let v : Value := .array [.array [.null, .array []],
    .object [("role", .string "a"), ("content", .null)],
    .object [("content", .array [.array [.string ""], .object [("text", .null), ("type", .null)]])],
    .object [("content", kept)], .object [("role", .null)]]
  have distinct : v.HasDistinctKeys := by
    simp [v, kept, Value.hasDistinctKeys_array_iff, Value.hasDistinctKeys_object_iff,
      Value.HasDistinctKeys.string, Value.HasDistinctKeys.null, Value.HasDistinctKeys.bool]
  have given : ∀ m ∈ messages, m.IsGiven := by
    intro m mem
    rcases List.mem_append.mp mem with mem | mem
    · exact .decoded distinct (rfl : messagesOfValue v = .ok decoded) mem
    · simp only [List.mem_cons, List.not_mem_nil, or_false] at mem
      rcases mem with rfl | rfl | rfl
      · exact .text
      · exact .parts
      · exact .empty
  obtain ⟨-, again, flattened⟩ := messagesOfValue_toValue given
  exact ⟨given, again, flattened⟩

end SchemaGrammar.Chat
