import Mathlib
import SchemaGrammar.Chat.Normalization
import SchemaGrammar.Proofs.DistinctKeys
import SchemaGrammar.Proofs.SkippedText

/-!
# Which values are chats

A chat is a list of messages, a message is an object with a role and a content, and a content is a
text or a list of parts, which are objects again. `normalizeValue_ok_iff` says exactly which values
can be flattened. Each object may also be given as a list: a part as its text in brackets, and a
message as its role and its content. These lists are all that is accepted beside chats of objects.

The statement is assembled from the inside. A value that is a part under either reading is told by
`Part.isSome_ofValue?_iff`, the content of a message by `isUsable_ofValue_iff`, and a message by
`exists_ofValue_isUsable_iff`. Decoding a list decodes every item (`decodeItems_eq_ok_iff`), and
flattening succeeds if every message can be flattened (`exists_normalizeFrom_iff`).
-/

namespace SchemaGrammar.Chat

open Json

/-! ## Shapes -/

/-- What may stand under a field for an optional string: nothing, null or a string. -/
inductive IsOptionalString : Option Value → Prop
  | absent : IsOptionalString none
  | null : IsOptionalString (some .null)
  | string {s : String} : IsOptionalString (some (.string s))

/-- A part is an object whose text is an optional string. Its other keys do not matter. -/
inductive IsPart : Value → Prop
  | object {members : List Member} : IsOptionalString (members.lookup "text") →
      IsPart (.object members)

/-- A list in place of a part: an empty one, or one with the part's text alone. -/
inductive IsListedPart : Value → Prop
  | empty : IsListedPart (.array [])
  | text {v : Value} : IsOptionalString (some v) → IsListedPart (.array [v])

/-- A content is a text or a list of parts. -/
inductive IsContent (Part : Value → Prop) : Value → Prop
  | text {s : String} : IsContent Part (.string s)
  | parts {items : List Value} : (∀ p ∈ items, Part p) → IsContent Part (.array items)

/-- A message is an object whose role is an optional string, and whose content has to be there. Its
other keys do not matter. -/
inductive IsMessage (Part : Value → Prop) : Value → Prop
  | object {members : List Member} {content : Value} : IsOptionalString (members.lookup "role") →
      members.lookup "content" = some content → IsContent Part content →
      IsMessage Part (.object members)

/-- A list in place of a message: its role and its content. -/
inductive IsListedMessage (Part : Value → Prop) : Value → Prop
  | pair {role content : Value} : IsOptionalString (some role) → IsContent Part content →
      IsListedMessage Part (.array [role, content])

/-- A chat is a list of messages. -/
inductive IsChat (Message : Value → Prop) : Value → Prop
  | messages {items : List Value} : (∀ m ∈ items, Message m) → IsChat Message (.array items)

/-- A part as an object or as a list. -/
def IsAnyPart (v : Value) : Prop := IsPart v ∨ IsListedPart v

/-- A message as an object or as a list. -/
def IsAnyMessage (v : Value) : Prop := IsMessage IsAnyPart v ∨ IsListedMessage IsAnyPart v

/-- Some list stands in place of a message, or in place of a part in a message's content. -/
def HasListed : Value → Prop
  | .array items => ∃ m ∈ items, IsListedMessage IsAnyPart m ∨
      ∃ members parts, m = .object members ∧ members.lookup "content" = some (.array parts) ∧
        ∃ p ∈ parts, IsListedPart p
  | _ => False

/-! ## Parts and contents -/

theorem isSome_ofField?_iff {v : Value} :
    (Part.ofField? v).isSome = true ↔ IsOptionalString (some v) := by
  constructor
  · intro found
    unfold Part.ofField? at found
    split at found
    · exact .null
    · exact .string
    · cases found
  · rintro (_ | _ | _) <;> rfl

theorem isAnyPart_object_iff {members : List Member} :
    IsAnyPart (.object members) ↔ IsOptionalString (members.lookup "text") := by
  constructor
  · intro either
    cases either with
    | inl part =>
      cases part with
      | object text => exact text
    | inr listed => cases listed
  · exact fun text => .inl (.object text)

/-- The part reader takes objects and lists, and what it takes under either is a part. -/
theorem Part.isSome_ofValue?_iff {v : Value} (distinct : v.HasDistinctKeys) :
    (Part.ofValue? v).isSome = true ↔ IsAnyPart v := by
  match v, distinct with
  | .object members, .object distinct _ =>
    rw [isAnyPart_object_iff, Part.ofValue?, Keyed.filter_key distinct]
    cases members.lookup "text" with
    | none => exact ⟨fun _ => .absent, fun _ => rfl⟩
    | some w => exact isSome_ofField?_iff
  | .array [], _ => exact ⟨fun _ => .inr .empty, fun _ => rfl⟩
  | .array [w], _ =>
    rw [Part.ofValue?, isSome_ofField?_iff]
    constructor
    · exact fun text => .inr (.text text)
    · intro either
      cases either with
      | inl part => cases part
      | inr listed =>
        cases listed with
        | text text => exact text
  | .array (_ :: _ :: _), _ | .null, _ | .bool _, _ | .number _, _ | .string _, _ =>
    exact ⟨nofun, fun either => either.elim nofun nofun⟩

/-- A list is one of parts if each of its items is a part. -/
theorem isSome_mapM_iff {f : α → Option β} {items : List α} :
    (items.mapM f).isSome = true ↔ ∀ v ∈ items, (f v).isSome = true := by
  induction items with
  | nil => simp
  | cons v rest ih =>
    rw [List.forall_mem_cons, ← ih, List.mapM_cons]
    cases f v <;> cases rest.mapM f <;> simp

/-- The contents that mean something. -/
inductive Content.IsUsable : Content → Prop
  | text {s : String} : IsUsable (.text s)
  | parts {ps : List Part} : IsUsable (.parts ps)

theorem isContent_array_iff {P : Value → Prop} {items : List Value} :
    IsContent P (.array items) ↔ ∀ p ∈ items, P p := by
  constructor
  · rintro (_ | each)
    exact each
  · exact .parts

theorem Content.isUsable_ofValue_iff {v : Value} (distinct : v.HasDistinctKeys) :
    (Content.ofValue v).IsUsable ↔ IsContent IsAnyPart v := by
  match v, distinct with
  | .string s, _ => exact ⟨fun _ => .text, fun _ => .text⟩
  | .array items, .array distinct =>
    have each : (∀ p ∈ items, IsAnyPart p) ↔ (items.mapM Part.ofValue?).isSome = true := by
      rw [isSome_mapM_iff]
      exact forall₂_congr fun p mem => (Part.isSome_ofValue?_iff (distinct p mem)).symm
    rw [isContent_array_iff, each, Content.ofValue]
    cases items.mapM Part.ofValue? with
    | none => exact ⟨nofun, nofun⟩
    | some ps => exact ⟨fun _ => rfl, fun _ => .parts⟩
  | .null, _ | .bool _, _ | .number _, _ | .object _, _ => exact ⟨nofun, nofun⟩

/-! ## The two fields -/

section Fields

variable {α β : Type} {decode : Value → Except ValueMisfit α}
  {role : Value → Except ValueMisfit α} {content : Value → Except ValueMisfit β}

/-- What a field holds after a value was found for it, or after none was. -/
inductive FieldAfter (decode : Value → Except ValueMisfit α) (before : Option α) :
    Option Value → Option α → Prop
  | kept : FieldAfter decode before none before
  | found {v : Value} {a : α} : decode v = .ok a → FieldAfter decode before (some v) (some a)

theorem fieldAfter_none_iff {before after : Option α} :
    FieldAfter decode before none after ↔ after = before := by
  constructor
  · rintro ⟨⟩
    rfl
  · rintro rfl
    exact .kept

theorem fieldAfter_some_iff {before after : Option α} {v : Value} :
    FieldAfter decode before (some v) after ↔ ∃ a, decode v = .ok a ∧ after = some a := by
  constructor
  · rintro (_ | decoded)
    exact ⟨_, decoded, rfl⟩
  · rintro ⟨a, decoded, rfl⟩
    exact .found decoded

/-- Takes one member of a message. -/
def gather (role : Value → Except ValueMisfit α) (content : Value → Except ValueMisfit β)
    (fields : Fields α β) (name : String) (v : Value) : Except ValueMisfit (Fields α β) :=
  if fields.has name then .error ⟨[], .duplicateField name, ()⟩
  else if name == "role" then
    match role v with
    | .error e => .error (e.under (.key name))
    | .ok a => .ok { fields with role := some a }
  else if name == "content" then
    match content v with
    | .error e => .error (e.under (.key name))
    | .ok b => .ok { fields with content := some b }
  else .ok fields

theorem fieldsOfMembers_eq_walk (members : List Member) :
    fieldsOfMembers role content members =
      Value.walkMembers (gather role content) .empty members := rfl

/-- The keys to come are distinct, and a field that is among them is not there yet. -/
structure Awaits (fields : Fields α β) (names : List String) : Prop where
  distinct : names.Nodup
  role : "role" ∈ names → fields.role = none
  content : "content" ∈ names → fields.content = none

theorem Awaits.has_eq_false {fields : Fields α β} {name : String} {names : List String}
    (awaits : Awaits fields (name :: names)) : fields.has name = false := by
  unfold Fields.has
  by_cases isRole : name = "role"
  · subst isRole
    simp [awaits.role List.mem_cons_self]
  · by_cases isContent : name = "content"
    · subst isContent
      simp [awaits.content List.mem_cons_self]
    · simp [isRole, isContent]

/-- After a member the fields await the members behind it. -/
theorem Awaits.after {before after : Fields α β} {name : String} {names : List String}
    (awaits : Awaits before (name :: names)) (sameRole : name = "role" ∨ after.role = before.role)
    (sameContent : name = "content" ∨ after.content = before.content) : Awaits after names := by
  obtain ⟨new, distinct⟩ := List.nodup_cons.mp awaits.distinct
  refine ⟨distinct, fun mem => ?_, fun mem => ?_⟩
  · rcases sameRole with rfl | same
    · exact absurd mem new
    · rw [same, awaits.role (List.mem_cons_of_mem name mem)]
  · rcases sameContent with rfl | same
    · exact absurd mem new
    · rw [same, awaits.content (List.mem_cons_of_mem name mem)]

/-- Walking through an object gives each field what stands under its name. The induction is on the
members, and what it needs of the fields gathered so far is that none of them comes again. -/
theorem walkMembers_gather_eq_ok_iff {after : Fields α β} (members : List Member) :
    ∀ before : Fields α β, Awaits before (members.map Prod.fst) →
      (Value.walkMembers (gather role content) before members = .ok after ↔
        FieldAfter role before.role (members.lookup "role") after.role ∧
        FieldAfter content before.content (members.lookup "content") after.content) := by
  induction members with
  | nil =>
    intro before _
    simp only [Value.walkMembers, List.lookup_nil, fieldAfter_none_iff, Except.ok.injEq]
    obtain ⟨r, c⟩ := before
    obtain ⟨r', c'⟩ := after
    simp [eq_comm]
  | cons member rest ih =>
    obtain ⟨name, v⟩ := member
    intro before awaits
    have absent : name ∉ rest.map Prod.fst := (List.nodup_cons.mp awaits.distinct).1
    simp only [Value.walkMembers, gather, awaits.has_eq_false, List.lookup_cons]
    by_cases isRole : name = "role"
    · subst isRole
      have notThere : rest.lookup "role" = none := Keyed.lookup_eq_none_of_notMem absent
      cases decoded : role v with
      | error e => simp [fieldAfter_some_iff, decoded]
      | ok a =>
        have later := ih { before with role := some a } (awaits.after (.inl rfl) (.inr rfl))
        simpa [fieldAfter_some_iff, fieldAfter_none_iff, decoded, notThere] using later
    · by_cases isContent : name = "content"
      · subst isContent
        have notThere : rest.lookup "content" = none := Keyed.lookup_eq_none_of_notMem absent
        cases decoded : content v with
        | error e => simp [fieldAfter_some_iff, decoded]
        | ok b =>
          have later := ih { before with content := some b } (awaits.after (.inr rfl) (.inl rfl))
          simpa [fieldAfter_some_iff, fieldAfter_none_iff, decoded, notThere] using later
      · have later := ih before (awaits.after (.inr rfl) (.inr rfl))
        have elsewhere : ("role" == name) = false ∧ ("content" == name) = false :=
          ⟨beq_false_of_ne (Ne.symm isRole), beq_false_of_ne (Ne.symm isContent)⟩
        simpa [isRole, isContent, elsewhere] using later

theorem fieldsOfMembers_eq_ok_iff {fields : Fields α β} {members : List Member}
    (distinct : (members.map Prod.fst).Nodup) :
    fieldsOfMembers role content members = .ok fields ↔
      FieldAfter role none (members.lookup "role") fields.role ∧
      FieldAfter content none (members.lookup "content") fields.content := by
  rw [fieldsOfMembers_eq_walk]
  exact walkMembers_gather_eq_ok_iff members .empty ⟨distinct, fun _ => rfl, fun _ => rfl⟩

end Fields

/-! ## Messages -/

/-- The messages that can be flattened. -/
def Message.IsUsable (message : Message) : Prop :=
  ∃ content, message.content = some content ∧ content.IsUsable

/-- A message is flattened under every index or under none. -/
theorem Message.exists_flatten_iff {message : Message} {i : Nat} :
    (∃ formatted, message.flatten i = .ok formatted) ↔ message.IsUsable := by
  obtain ⟨role, _ | _ | _ | _⟩ := message
  · exact ⟨nofun, nofun⟩
  · exact ⟨fun _ => ⟨_, rfl, .text⟩, fun _ => ⟨_, rfl⟩⟩
  · exact ⟨fun _ => ⟨_, rfl, .parts⟩, fun _ => ⟨_, rfl⟩⟩
  · exact ⟨nofun, nofun⟩

theorem exists_decodeOptional_iff {v : Value} :
    (∃ s, v.decodeOptional = .ok s) ↔ IsOptionalString (some v) := by
  constructor
  · rintro ⟨s, decoded⟩
    unfold Value.decodeOptional at decoded
    split at decoded
    · exact .null
    · exact .string
    · cases decoded
  · rintro (_ | _ | _)
    · exact ⟨none, rfl⟩
    · exact ⟨_, rfl⟩

/-- A role is decoded, or left out, if it is an optional string. -/
theorem exists_fieldAfter_role_iff {found : Option Value} :
    (∃ role, FieldAfter Value.decodeOptional none found role) ↔ IsOptionalString found := by
  cases found with
  | none => exact ⟨fun _ => .absent, fun _ => ⟨none, .kept⟩⟩
  | some v =>
    rw [← exists_decodeOptional_iff]
    constructor
    · rintro ⟨_, _ | decoded⟩
      exact ⟨_, decoded⟩
    · rintro ⟨s, decoded⟩
      exact ⟨some s, .found decoded⟩

/-- Contents are decoded whatever they are. -/
theorem fieldAfter_content_iff {found : Option Value} {content : Option Content} :
    FieldAfter (fun w => .ok (.ofValue w)) none found content ↔ content = found.map .ofValue := by
  cases found with
  | none => exact fieldAfter_none_iff
  | some v => simp [fieldAfter_some_iff]

/-- An object is decoded if its role is an optional string. Its content is taken as it is. -/
theorem exists_ofValue_object_iff {members : List Member} {content : Option Content}
    (distinct : (members.map Prod.fst).Nodup) :
    (∃ role, Message.ofValue (.object members) = .ok ⟨role, content⟩) ↔
      IsOptionalString (members.lookup "role") ∧
        content = (members.lookup "content").map .ofValue := by
  simp only [Message.ofValue, map_eq_ok_iff, fieldsOfMembers_eq_ok_iff distinct,
    fieldAfter_content_iff, ← exists_fieldAfter_role_iff]
  constructor
  · rintro ⟨_, fields, ⟨role, found⟩, same⟩
    obtain ⟨-, rfl⟩ := Message.mk.inj same
    exact ⟨⟨_, role⟩, found⟩
  · rintro ⟨⟨role, decoded⟩, rfl⟩
    exact ⟨role.join, ⟨role, _⟩, ⟨decoded, rfl⟩, rfl⟩

/-- A list that gives a message its content has exactly its role and its content. -/
theorem exists_ofValue_array_iff {items : List Value} {content : Content} :
    (∃ role, Message.ofValue (.array items) = .ok ⟨role, some content⟩) ↔
      ∃ role w, items = [role, w] ∧ IsOptionalString (some role) ∧ content = .ofValue w := by
  simp only [Message.ofValue, map_eq_ok_iff, ← exists_decodeOptional_iff]
  match items with
  | [] =>
    simp [fieldsOfItems, Fields.empty, Message.ofFields]
  | [v] =>
    cases decoded : v.decodeOptional <;> simp [fieldsOfItems, Message.ofFields, decoded]
  | [v, w] =>
    cases decoded : v.decodeOptional <;>
      simp [fieldsOfItems, Message.ofFields, decoded, eq_comm]
  | v :: w :: _ :: _ =>
    cases decoded : v.decodeOptional <;> simp [fieldsOfItems, decoded]

theorem isAnyMessage_object_iff {members : List Member} :
    IsAnyMessage (.object members) ↔ IsOptionalString (members.lookup "role") ∧
      ∃ content, members.lookup "content" = some content ∧ IsContent IsAnyPart content := by
  constructor
  · intro either
    cases either with
    | inl message =>
      cases message with
      | object role content meaning => exact ⟨role, _, content, meaning⟩
    | inr listed => cases listed
  · rintro ⟨role, content, found, meaning⟩
    exact .inl (.object role found meaning)

theorem isAnyMessage_array_iff {items : List Value} :
    IsAnyMessage (.array items) ↔ ∃ role content, items = [role, content] ∧
      IsOptionalString (some role) ∧ IsContent IsAnyPart content := by
  constructor
  · intro either
    cases either with
    | inl message => cases message
    | inr listed =>
      cases listed with
      | pair role content => exact ⟨_, _, rfl, role, content⟩
  · rintro ⟨role, content, rfl, isRole, meaning⟩
    exact .inr (.pair isRole meaning)

/-- A value decodes to a message that can be flattened if it is a message under either reading. -/
theorem exists_ofValue_isUsable_iff {v : Value} (distinct : v.HasDistinctKeys) :
    (∃ message, Message.ofValue v = .ok message ∧ message.IsUsable) ↔ IsAnyMessage v := by
  have split : (∃ message, Message.ofValue v = .ok message ∧ message.IsUsable) ↔
      ∃ content : Content, content.IsUsable ∧
        ∃ role, Message.ofValue v = .ok ⟨role, some content⟩ := by
    constructor
    · rintro ⟨⟨role, _⟩, decoded, content, rfl, usable⟩
      exact ⟨content, usable, role, decoded⟩
    · rintro ⟨content, usable, role, decoded⟩
      exact ⟨⟨role, some content⟩, decoded, content, rfl, usable⟩
  rw [split]
  match v, distinct with
  | .object members, .object nodup distinct =>
    simp only [exists_ofValue_object_iff nodup, isAnyMessage_object_iff]
    constructor
    · rintro ⟨content, usable, role, given⟩
      obtain ⟨w, found, rfl⟩ := Option.map_eq_some_iff.mp given.symm
      have mem : ("content", w) ∈ members := (Keyed.lookup_eq_some_iff nodup).mp found
      exact ⟨role, w, found, (Content.isUsable_ofValue_iff (distinct _ mem)).mp usable⟩
    · rintro ⟨role, w, found, meaning⟩
      have mem : ("content", w) ∈ members := (Keyed.lookup_eq_some_iff nodup).mp found
      refine ⟨.ofValue w, (Content.isUsable_ofValue_iff (distinct _ mem)).mpr meaning, role, ?_⟩
      rw [found, Option.map_some]
  | .array items, .array distinct =>
    simp only [exists_ofValue_array_iff, isAnyMessage_array_iff]
    constructor
    · rintro ⟨_, usable, role, w, rfl, isRole, rfl⟩
      have keys : w.HasDistinctKeys := distinct w (by simp)
      exact ⟨role, w, rfl, isRole, (Content.isUsable_ofValue_iff keys).mp usable⟩
    · rintro ⟨role, w, rfl, isRole, meaning⟩
      have keys : w.HasDistinctKeys := distinct w (by simp)
      exact ⟨_, (Content.isUsable_ofValue_iff keys).mpr meaning, role, w, rfl, isRole, rfl⟩
  | .null, _ | .bool _, _ | .number _, _ | .string _, _ =>
    refine ⟨?_, fun either => either.elim nofun nofun⟩
    rintro ⟨_, _, _, decoded⟩
    cases decoded

/-! ## Chats -/

/-- Decoding a list decodes every item. -/
theorem decodeItems_eq_ok_iff {each : Value → Except ValueMisfit α} {items : List Value} :
    ∀ {i : Nat} {decoded : List α}, Value.decodeItems each i items = .ok decoded ↔
      List.Forall₂ (fun v a => each v = .ok a) items decoded := by
  induction items with
  | nil => simp [Value.decodeItems, eq_comm]
  | cons v rest ih =>
    intro i decoded
    rw [Value.decodeItems, List.forall₂_cons_left_iff]
    cases first : each v with
    | error e => simp
    | ok a =>
      simp only [map_eq_ok_iff, ih, Except.ok.injEq]
      constructor
      · rintro ⟨more, found, rfl⟩
        exact ⟨a, more, rfl, found, rfl⟩
      · rintro ⟨_, more, rfl, found, rfl⟩
        exact ⟨more, found, rfl⟩

/-- Messages are flattened together if each of them can be. -/
theorem exists_normalizeFrom_iff {messages : List Message} :
    ∀ {i : Nat}, (∃ out, normalizeFrom i messages = .ok out) ↔ ∀ m ∈ messages, m.IsUsable := by
  induction messages with
  | nil => simp [normalizeFrom]
  | cons m rest ih =>
    intro i
    rw [List.forall_mem_cons, ← ih (i := i + 1), ← Message.exists_flatten_iff (i := i),
      normalizeFrom]
    cases m.flatten i <;> cases normalizeFrom (i + 1) rest <;> simp [Except.map]

/-- The first message that cannot be flattened is the one reported. -/
theorem normalizeFrom_append_of_flatten {before after : List Message} {bad : Message}
    {e : ChatError} : ∀ {i : Nat}, (∀ m ∈ before, m.IsUsable) →
      bad.flatten (i + before.length) = .error e →
      normalizeFrom i (before ++ bad :: after) = .error e := by
  induction before with
  | nil =>
    intro i _ fails
    rw [List.nil_append, normalizeFrom, show bad.flatten i = .error e from fails]
  | cons m rest ih =>
    intro i usable fails
    obtain ⟨formatted, flat⟩ := Message.exists_flatten_iff.mpr (usable m List.mem_cons_self)
    have later : normalizeFrom (i + 1) (rest ++ bad :: after) = .error e := by
      refine ih (fun m mem => usable m (List.mem_cons_of_mem _ mem)) ?_
      rw [← fails, List.length_cons]
      congr 1
      omega
    rw [List.cons_append, normalizeFrom, flat, later]
    rfl

theorem normalizeValue_array {items : List Value} {messages : List Message}
    (decoded : List.Forall₂ (fun v m => Message.ofValue v = .ok m) items messages) :
    normalizeValue (.array items) = normalizeFrom 0 messages := by
  rw [normalizeValue, messagesOfValue, Value.decodeList, decodeItems_eq_ok_iff.mpr decoded]
  rfl

theorem isChat_array_iff {P : Value → Prop} {items : List Value} :
    IsChat P (.array items) ↔ ∀ m ∈ items, P m := by
  constructor
  · rintro ⟨each⟩
    exact each
  · exact .messages

/-- A value that can be flattened is a chat with messages and parts under either reading. -/
theorem exists_normalizeValue_iff {v : Value} (distinct : v.HasDistinctKeys) :
    (∃ out, normalizeValue v = .ok out) ↔ IsChat IsAnyMessage v := by
  match v, distinct with
  | .array items, .array distinct =>
    have each : (∀ m ∈ items, IsAnyMessage m) ↔
        ∀ m ∈ items, ∃ message, Message.ofValue m = .ok message ∧ message.IsUsable :=
      forall₂_congr fun m mem => (exists_ofValue_isUsable_iff (distinct m mem)).symm
    rw [isChat_array_iff, each, ← exists_forall₂_iff]
    constructor
    · rintro ⟨out, normalized⟩
      cases read : Value.decodeItems Message.ofValue 0 items with
      | error e =>
        rw [normalizeValue, messagesOfValue, Value.decodeList, read] at normalized
        cases normalized
      | ok messages =>
        have decoded := decodeItems_eq_ok_iff.mp read
        rw [normalizeValue_array decoded] at normalized
        exact ⟨messages, decoded, exists_normalizeFrom_iff.mp ⟨out, normalized⟩⟩
    · rintro ⟨messages, decoded, usable⟩
      rw [normalizeValue_array decoded]
      exact exists_normalizeFrom_iff.mpr usable
  | .null, _ | .bool _, _ | .number _, _ | .string _, _ | .object _, _ => exact ⟨nofun, nofun⟩

/-- A message is one of objects unless a list stands in its place or in the place of a part. -/
theorem isMessage_isPart_iff {m : Value} :
    IsMessage IsPart m ↔ IsAnyMessage m ∧ ¬ IsListedMessage IsAnyPart m ∧
      ∀ members parts, m = .object members → members.lookup "content" = some (.array parts) →
        ∀ p ∈ parts, ¬ IsListedPart p := by
  constructor
  · rintro ⟨role, found, content⟩
    refine ⟨isAnyMessage_object_iff.mpr ⟨role, _, found, ?_⟩, nofun, ?_⟩
    · cases content with
      | text => exact .text
      | parts each => exact .parts fun p mem => .inl (each p mem)
    · rintro _ parts ⟨⟩ given p mem listed
      obtain rfl := Option.some.inj (found.symm.trans given)
      cases isContent_array_iff.mp content p mem
      cases listed
  · rintro ⟨message | listed, noList, noPart⟩
    · cases message with
      | object role found content =>
        refine .object role found ?_
        cases content with
        | text => exact .text
        | parts each =>
          exact .parts fun p mem => (each p mem).resolve_right (noPart _ _ rfl found p mem)
    · exact absurd listed noList

/-- A chat of objects alone is one that holds no list in place of a message or of a part. -/
theorem isChat_isPart_iff {v : Value} :
    IsChat (IsMessage IsPart) v ↔ IsChat IsAnyMessage v ∧ ¬ HasListed v := by
  match v with
  | .array items =>
    simp only [isChat_array_iff, isMessage_isPart_iff, HasListed]
    constructor
    · intro each
      refine ⟨fun m mem => (each m mem).1, ?_⟩
      rintro ⟨m, mem, listed | ⟨members, parts, object, found, p, inParts, listed⟩⟩
      · exact (each m mem).2.1 listed
      · exact (each m mem).2.2 members parts object found p inParts listed
    · rintro ⟨each, noList⟩ m mem
      refine ⟨each m mem, fun listed => noList ⟨m, mem, .inl listed⟩, ?_⟩
      intro members parts object found p inParts listed
      exact noList ⟨m, mem, .inr ⟨members, parts, object, found, p, inParts, listed⟩⟩
  | .null | .bool _ | .number _ | .string _ | .object _ => exact ⟨nofun, nofun⟩

theorem forall₂_ofValue_of_isAnyMessage {items : List Value}
    (distinct : ∀ m ∈ items, m.HasDistinctKeys) (each : ∀ m ∈ items, IsAnyMessage m) :
    ∃ messages, List.Forall₂ (fun v m => Message.ofValue v = .ok m) items messages ∧
      ∀ m ∈ messages, m.IsUsable :=
  exists_forall₂_iff.mpr fun m mem => (exists_ofValue_isUsable_iff (distinct m mem)).mpr (each m mem)

/-- A list is kept as it is if one of its items is no part. -/
theorem Content.ofValue_array_of_not_isAnyPart {parts : List Value} {p : Value}
    (distinct : ∀ p ∈ parts, p.HasDistinctKeys) (mem : p ∈ parts) (bad : ¬ IsAnyPart p) :
    Content.ofValue (.array parts) = .other (.array (Value.mergedItems parts)) := by
  have unread : parts.mapM Part.ofValue? = none := by
    rw [← Option.not_isSome_iff_eq_none, isSome_mapM_iff]
    exact fun each => bad ((Part.isSome_ofValue?_iff (distinct p mem)).mp (each p mem))
  rw [Content.ofValue, unread, Value.merged]

/-- Among messages that can be flattened, one with a list as its content is rejected if an item of
the list is no part. -/
theorem normalizeValue_eq_invalidContent_iff {before after : List Value} {members : List Member}
    {parts : List Value}
    (distinct : (Value.array (before ++ .object members :: after)).HasDistinctKeys)
    (others : ∀ m ∈ before ++ after, IsAnyMessage m)
    (role : IsOptionalString (members.lookup "role"))
    (found : members.lookup "content" = some (.array parts)) :
    normalizeValue (.array (before ++ .object members :: after)) =
        .error (.invalidContent before.length "array with non-text parts") ↔
      ∃ p ∈ parts, ¬ IsAnyPart p := by
  constructor
  · intro rejected
    by_contra none
    push Not at none
    have message : IsAnyMessage (.object members) :=
      isAnyMessage_object_iff.mpr ⟨role, _, found, .parts none⟩
    obtain ⟨out, normalized⟩ := (exists_normalizeValue_iff distinct).mpr <|
      .messages fun m mem => by
        rcases List.mem_append.mp mem with mem | mem
        · exact others m (List.mem_append_left _ mem)
        · rcases List.mem_cons.mp mem with rfl | mem
          · exact message
          · exact others m (List.mem_append_right _ mem)
    rw [rejected] at normalized
    cases normalized
  · -- every message decodes, so the ones before the bad one are flattened and it is the first to fail
    rintro ⟨p, mem, bad⟩
    rw [Value.hasDistinctKeys_array_iff, List.forall_mem_append, List.forall_mem_cons,
      Value.hasDistinctKeys_object_iff] at distinct
    obtain ⟨eachBefore, ⟨nodup, eachMember⟩, eachAfter⟩ := distinct
    obtain ⟨othersBefore, othersAfter⟩ := List.forall_mem_append.mp others
    obtain ⟨front, decodedFront, usable⟩ :=
      forall₂_ofValue_of_isAnyMessage eachBefore othersBefore
    obtain ⟨back, decodedBack, -⟩ := forall₂_ofValue_of_isAnyMessage eachAfter othersAfter
    obtain ⟨who, decoded⟩ := (exists_ofValue_object_iff nodup).mpr ⟨role, rfl⟩
    have eachPart : ∀ p ∈ parts, p.HasDistinctKeys :=
      Value.hasDistinctKeys_array_iff.mp (eachMember _ ((Keyed.lookup_eq_some_iff nodup).mp found))
    rw [found, Option.map_some, Content.ofValue_array_of_not_isAnyPart eachPart mem bad] at decoded
    rw [normalizeValue_array (List.rel_append decodedFront (.cons decoded decodedBack))]
    refine normalizeFrom_append_of_flatten usable ?_
    rw [Nat.zero_add, ← decodedFront.length_eq]
    rfl

/-- The values that can be flattened are the chats with messages and parts under either reading,
chats of objects alone are those without a list in the place of a message or a part, and among
messages that can be flattened a list of parts is rejected for an item that is no part. -/
theorem normalizeValue_ok_iff {v : Value} (distinct : v.HasDistinctKeys) :
    ((∃ out, normalizeValue v = .ok out) ↔ IsChat IsAnyMessage v) ∧
    (IsChat (IsMessage IsPart) v ↔ (∃ out, normalizeValue v = .ok out) ∧ ¬ HasListed v) ∧
    ∀ before members after parts, v = .array (before ++ .object members :: after) →
      (∀ m ∈ before ++ after, IsAnyMessage m) → IsOptionalString (members.lookup "role") →
      members.lookup "content" = some (.array parts) →
      (normalizeValue v = .error (.invalidContent before.length "array with non-text parts") ↔
        ∃ p ∈ parts, ¬ IsAnyPart p) := by
  refine ⟨exists_normalizeValue_iff distinct, ?_, ?_⟩
  · rw [exists_normalizeValue_iff distinct]
    exact isChat_isPart_iff
  · rintro before members after parts rfl others role found
    exact normalizeValue_eq_invalidContent_iff distinct others role found

/-- A list in the place of a part is flattened, although the chat is not one of objects alone. -/
theorem normalizeValue_ok_iff_listed_part :
    let parts : List Value := [.array [.string "x"]]
    let members : List Member := [("role", .string "user"), ("content", .array parts)]
    normalizeValue (.array [.object members]) = .ok [⟨"user", "x"⟩] ∧
      ¬ IsChat (IsMessage IsPart) (.array [.object members]) ∧
      ¬ ∃ p ∈ parts, ¬ IsAnyPart p := by
  intro parts members
  have flat : normalizeValue (.array [.object members]) = .ok [⟨"user", "x"⟩] := rfl
  have distinct : (Value.array [.object members]).HasDistinctKeys := by
    simp [members, parts, Value.hasDistinctKeys_array_iff, Value.hasDistinctKeys_object_iff,
      Value.HasDistinctKeys.string]
  obtain ⟨-, objects, rejected⟩ := normalizeValue_ok_iff distinct
  refine ⟨flat, fun chat => (objects.mp chat).2 ?_, fun bad => ?_⟩
  · exact ⟨_, List.mem_cons_self, .inr ⟨members, parts, rfl, rfl, _, List.mem_cons_self, .text .string⟩⟩
  · have error := (rejected [] members [] parts rfl (by simp) .string rfl).mpr bad
    rw [flat] at error
    cases error

end SchemaGrammar.Chat
