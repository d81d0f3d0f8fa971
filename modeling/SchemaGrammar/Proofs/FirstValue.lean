import SchemaGrammar.Command.Material
import SchemaGrammar.Proofs.Flattening
import SchemaGrammar.Proofs.FollowingText
import SchemaGrammar.Proofs.TextDecoding

/-!
# Decoding takes the first value of a text

A text is decoded from its start, and nothing asks whether it ends behind the value that is found
there. So a text that decodes need not be a document. It begins with one, which is a value of the
grammar with blanks before it; whatever is put in place of what follows, the same thing is decoded
(`ComesFromFirstValue`). The whole text is a document only if what follows is blank.

What is asked of a decoder for this is that it reads an outline through (`ReadsThrough`): it takes
nothing that could not be passed over, and it sees no difference between outlines that read alike.
Decoders of scalars do so because scalars are read alike, and every other decoder because those that
it is made of do.
-/

namespace SchemaGrammar

open Json

namespace Json

/-! ## Documents -/

/-- A text is a document if it is a value with nothing but blanks around it. -/
def IsDocument (text : List Char) : Prop :=
  ∃ start rest, IsBlanks standard text start ∧ IsValue standard start rest ∧
    IsBlanks standard rest []

theorem isBlanks_nil_iff {text : List Char} :
    IsBlanks standard text [] ↔ ∀ c ∈ text, isBlank c = true := by
  constructor
  · intro blanks
    generalize none : [] = rest at blanks
    induction blanks with
    | none =>
      subst none
      exact fun c mem => absurd mem List.not_mem_nil
    | more blank _ ih => exact List.forall_mem_cons.mpr ⟨isBlank_iff.mpr blank, ih none⟩
  · intro areBlank
    induction text with
    | nil => exact .none
    | cons c text ih =>
      obtain ⟨blank, areBlank⟩ := List.forall_mem_cons.mp areBlank
      exact .more (isBlank_iff.mp blank) (ih areBlank)

theorem endsNumber_of_areBlank {text : List Char} (areBlank : ∀ c ∈ text, isBlank c = true) :
    EndsNumber text := by
  intro c mem isNumber
  cases (areBlank c (List.mem_of_mem_head? mem)).symm.trans (isBlank_of_mem_numberChars c isNumber)

/-- A text that begins with a value is a document if nothing but blanks follows the value. -/
theorem isDocument_iff {text rest : List Char} {outline : Outline}
    (outlines : Outlines (skipBlanks text) outline rest) :
    IsDocument text ↔ ∀ c ∈ rest, isBlank c = true := by
  constructor
  · rintro ⟨start, behind, blanks, value, blanksBehind⟩
    have areBlank := isBlanks_nil_iff.mp blanksBehind
    obtain ⟨other, here⟩ := value.exists_outlines (endsNumber_of_areBlank areBlank)
    -- both ends are the one that the outlining gives
    have ends := here.makes.2
    rw [← here.skipBlanks_eq blanks] at ends
    obtain rfl := Option.some.inj (outlines.makes.2.symm.trans ends)
    exact areBlank
  · exact fun areBlank =>
      ⟨_, rest, isBlanks_skipBlanks text, outlines.isValue, isBlanks_nil_iff.mpr areBlank⟩

/-! ## Reading through -/

/-- A decoder reads outlines through: it takes only what can be passed over, and it takes the same of
outlines that read alike. -/
structure ReadsThrough {α : Type} (decode : Outline → Except TextMisfit α) : Prop where
  skips : ∀ {outline : Outline} {a : α}, decode outline = .ok a → outline.skip = .ok ()
  alike : ∀ {outline other : Outline} {a : α}, outline.Alike other → decode outline = .ok a →
    decode other = .ok a

theorem readsThrough_decodeAs {α : Type} (expected : String) (convert : Value → Option α) :
    ReadsThrough (Outline.decodeAs expected convert) where
  skips {outline a} decoded := by
    cases outline with
    | scalar text =>
      obtain ⟨v, rest, read, -⟩ := decodeScalar_eq_ok_iff.mp decoded
      rw [Outline.skip, skipScalar_of_read read, Except.map]
    | array => cases decoded
    | object => cases decoded
  alike {outline other a} alike decoded := by
    cases alike with
    | scalar reads _ =>
      obtain ⟨v, rest, read, converted⟩ := decodeScalar_eq_ok_iff.mp decoded
      obtain ⟨behind, read⟩ := reads v rest read
      exact decodeScalar_eq_ok_iff.mpr ⟨v, behind, read, converted⟩
    | array => cases decoded
    | object => cases decoded

/-- What is done with a result, or with a misfit, does not matter. -/
theorem ReadsThrough.adapt {α β : Type} {decode : Outline → Except TextMisfit α}
    (through : ReadsThrough decode) (misfit : TextMisfit → TextMisfit) (result : α → β) :
    ReadsThrough fun outline => match decode outline with
      | .error e => .error (misfit e)
      | .ok a => .ok (result a) where
  skips {outline b} decoded := by
    split at decoded
    · cases decoded
    · next here => exact through.skips here
  alike {outline other b} alike decoded := by
    split at decoded
    · cases decoded
    · next here =>
      rw [through.alike alike here]
      exact decoded

theorem readsThrough_skip {α : Type} (misfit : Failure → TextMisfit) (a : α) :
    ReadsThrough fun outline => match outline.skip with
      | .error failure => .error (misfit failure)
      | .ok _ => .ok a where
  skips {outline b} decoded := by
    split at decoded
    · cases decoded
    · next skipped => exact skipped
  alike {outline other b} alike decoded := by
    split at decoded
    · cases decoded
    · rw [alike.skip]
      exact decoded

/-- Whether a key is permitted does not depend on what follows it. -/
def JudgesKeys {σ : Type} (permit : σ → String → List Char → Except TextMisfit Unit) : Prop :=
  ∀ gathered name afterKey afterKey', permit gathered name afterKey = .ok () →
    permit gathered name afterKey' = .ok ()

/-- A walk through members takes what its steps take. -/
theorem walk_readsThrough {σ : Type} {permit : σ → String → List Char → Except TextMisfit Unit}
    {take : σ → String → Outline → Except TextMisfit σ} (permits : JudgesKeys permit)
    (takes : ∀ gathered name, ReadsThrough (take gathered name)) :
    ∀ {members : Members} {gathered : σ} {result : σ × List Char},
      members.walk permit take gathered = .ok result →
        members.skip = .ok () ∧ ∀ {other : Members}, members.Alike other →
          ∃ rest, other.walk permit take gathered = .ok (result.1, rest)
  | .closed _, gathered, result, walked => by
    obtain rfl := Except.ok.inj walked
    refine ⟨rfl, fun alike => ?_⟩
    cases alike
    exact ⟨_, rfl⟩
  | .member key afterKey value next, gathered, result, walked => by
    rw [Members.walk] at walked
    split at walked
    · cases walked
    · next name behind keyRead =>
      split at walked
      · cases walked
      · next permitted =>
        split at walked
        · cases walked
        · next more taken =>
          obtain ⟨skipped, following⟩ := walk_readsThrough permits takes walked
          refine ⟨?_, fun alike => ?_⟩
          · rw [Members.skip, (takes _ _).skips taken]
            exact skipped
          · cases alike with
            | @member _ key' _ afterKey' _ value' _ next' keys here rest =>
              obtain ⟨behind', keyRead'⟩ := keys _ _ keyRead
              obtain ⟨left, walked'⟩ := following rest
              refine ⟨left, ?_⟩
              rw [Members.walk, keyRead']
              dsimp only
              rw [permits _ _ _ afterKey' permitted]
              dsimp only
              rw [(takes _ _).alike here taken]
              exact walked'
  | .noColon key afterKey, gathered, result, walked => by
    rw [Members.walk] at walked
    split at walked
    · cases walked
    · split at walked <;> cases walked
  | .openKey key, gathered, result, walked => by
    rw [Members.walk] at walked
    split at walked <;> cases walked
  | .noKey true _, _, _, walked | .noKey false _, _, _, walked | .stopped _, _, _, walked
  | .lost, _, _, walked => by cases walked

/-- The items of a list are taken as each of them is. -/
theorem decodeItems_readsThrough {α : Type} {each : Outline → Except TextMisfit α}
    (through : ReadsThrough each) :
    ∀ {items : Items} {i : Nat} {as : List α}, items.decodeItems each i = .ok as →
      items.skip = .ok () ∧ ∀ {other : Items}, items.Alike other →
        other.decodeItems each i = .ok as
  | .closed _, i, as, decoded => by
    refine ⟨rfl, fun alike => ?_⟩
    cases alike
    exact decoded
  | .item value next, i, as, decoded => by
    rw [Items.decodeItems] at decoded
    split at decoded
    · cases decoded
    · next a here =>
      obtain ⟨as, more, rfl⟩ := map_eq_ok_iff.mp decoded
      obtain ⟨skipped, following⟩ := decodeItems_readsThrough through more
      refine ⟨?_, fun alike => ?_⟩
      · rw [Items.skip, through.skips here]
        exact skipped
      · cases alike with
        | item alike rest =>
          rw [Items.decodeItems, through.alike alike here]
          exact map_eq_ok_iff.mpr ⟨as, following rest, rfl⟩
  | .dangling _, _, _, decoded | .stopped _, _, _, decoded | .lost, _, _, decoded => by cases decoded

theorem readsThrough_decodeList {α : Type} {each : Outline → Except TextMisfit α}
    (through : ReadsThrough each) : ReadsThrough (Outline.decodeList each) where
  skips {outline a} list := by
    obtain ⟨text, items, rfl, decoded⟩ := decodeList_eq_ok_iff.mp list
    exact (decodeItems_readsThrough through decoded).1
  alike {outline other a} alike list := by
    obtain ⟨text, items, rfl, decoded⟩ := decodeList_eq_ok_iff.mp list
    obtain - | alike := alike
    exact decodeList_eq_ok_iff.mpr
      ⟨_, _, rfl, (decodeItems_readsThrough through decoded).2 alike⟩

end Json

namespace Chat

/-! ## Messages -/

theorem readsThrough_content : ReadsThrough Content.ofOutline where
  skips {outline content} decoded := by
    unfold Content.ofOutline at decoded
    split at decoded
    · cases decoded
    · next read => exact Outline.skip_of_readsAs (Outline.readsAs_of_read read)
  alike {outline other content} alike decoded := by
    unfold Content.ofOutline at decoded ⊢
    split at decoded
    · cases decoded
    · next read =>
      rw [alike.read read]
      exact decoded

section Fields

theorem judgesKeys_permitNew {α β : Type} : JudgesKeys (@permitNew α β) := by
  intro fields name afterKey afterKey' permitted
  unfold permitNew at permitted ⊢
  split at permitted
  · cases permitted
  · next new => exact if_neg new

variable {α β : Type} {role : Outline → Except TextMisfit α} {content : Outline → Except TextMisfit β}

theorem readsThrough_gatherOutlined (throughRole : ReadsThrough role)
    (throughContent : ReadsThrough content) (fields : Fields α β) (name : String) :
    ReadsThrough (gatherOutlined role content fields name) := by
  unfold gatherOutlined
  split_ifs
  · exact throughRole.adapt _ _
  · exact throughContent.adapt _ _
  · exact readsThrough_skip _ _

/-- The fields of a list are taken as their decoders take them. -/
theorem fieldsOfOutlinedItems_readsThrough (throughRole : ReadsThrough role)
    (throughContent : ReadsThrough content) {items : Items} {result : Fields α β × List Char}
    (taken : fieldsOfOutlinedItems role content items = .ok result) :
    items.skip = .ok () ∧ ∀ {other : Items}, items.Alike other →
      ∃ rest, fieldsOfOutlinedItems role content other = .ok (result.1, rest) := by
  cases items with
  | closed =>
    obtain rfl := Except.ok.inj taken
    refine ⟨rfl, fun alike => ?_⟩
    cases alike
    exact ⟨_, rfl⟩
  | item v next =>
    simp only [fieldsOfOutlinedItems, nextItem] at taken
    split at taken
    · cases taken
    · next a first =>
      cases next with
      | closed =>
        obtain rfl := Except.ok.inj taken
        refine ⟨by rw [Items.skip, throughRole.skips first]; rfl, fun alike => ?_⟩
        obtain - | ⟨here, ⟨⟩⟩ := alike
        simp only [fieldsOfOutlinedItems, nextItem, throughRole.alike here first]
        exact ⟨_, rfl⟩
      | item w last =>
        dsimp only at taken
        split at taken
        · cases taken
        · next b second =>
          obtain ⟨rest, ends, rfl⟩ := map_eq_ok_iff.mp taken
          cases last with
          | closed =>
            refine ⟨?_, fun alike => ?_⟩
            · rw [Items.skip, throughRole.skips first]
              dsimp only
              rw [Items.skip, throughContent.skips second]
              rfl
            · obtain - | ⟨here, - | ⟨here', ⟨⟩⟩⟩ := alike
              simp only [fieldsOfOutlinedItems, nextItem, throughRole.alike here first,
                throughContent.alike here' second]
              exact ⟨_, rfl⟩
          | _ => cases ends
      | _ => cases taken
  | _ => cases taken

end Fields

theorem readsThrough_message : ReadsThrough Message.ofOutline := by
  have role : ReadsThrough Outline.decodeOptional := readsThrough_decodeAs _ _
  have listed {items : Items} {result : Fields (Option String) Content × List Char}
      (taken : fieldsOfOutlinedItems Outline.decodeOptional Content.ofOutline items = .ok result) :=
    fieldsOfOutlinedItems_readsThrough role readsThrough_content taken
  have members {members : Members} {result : Fields (Option String) Content × List Char}
      (taken :
        fieldsOfOutlinedMembers Outline.decodeOptional Content.ofOutline members = .ok result) :=
    walk_readsThrough judgesKeys_permitNew (readsThrough_gatherOutlined role readsThrough_content)
      (fieldsOfOutlinedMembers_eq_walk members ▸ taken)
  constructor
  · intro outline message decoded
    cases outline with
    | scalar =>
      simp only [Message.ofOutline] at decoded
      exact absurd decoded decodeAs_none_ne_ok
    | array text items =>
      obtain ⟨fields, taken, -⟩ := map_eq_ok_iff.mp decoded
      exact (listed taken).1
    | object text inner =>
      obtain ⟨fields, taken, -⟩ := map_eq_ok_iff.mp decoded
      exact (members taken).1
  · intro outline other message alike decoded
    cases alike with
    | scalar =>
      simp only [Message.ofOutline] at decoded
      exact absurd decoded decodeAs_none_ne_ok
    | array alike =>
      obtain ⟨fields, taken, same⟩ := map_eq_ok_iff.mp decoded
      obtain ⟨rest, again⟩ := (listed taken).2 alike
      exact map_eq_ok_iff.mpr ⟨_, again, same⟩
    | object alike =>
      obtain ⟨fields, taken, same⟩ := map_eq_ok_iff.mp decoded
      obtain ⟨rest, again⟩ := (members taken).2 alike
      exact map_eq_ok_iff.mpr ⟨_, again, same⟩

end Chat

namespace PropertyOrder

/-! ## Orders -/

/-- The rank of one name. -/
def setRank (order : PropertyOrder) (name : String) (v : Outline) : Except TextMisfit PropertyOrder :=
  match v.decodeDouble with
  | .error e => .error (e.under (.key name))
  | .ok rank => .ok (Keyed.set order name rank)

theorem readsThrough_setRank (order : PropertyOrder) (name : String) :
    ReadsThrough (setRank order name) := by
  have rank : ReadsThrough Outline.decodeDouble := readsThrough_decodeAs _ _
  refine (congrArg ReadsThrough (funext fun v => ?_)).mp
    (rank.adapt (Misfit.under (.key name)) (Keyed.set order name))
  rw [setRank]
  cases v.decodeDouble <;> rfl

/-- An order is decoded from an object, by its members. -/
theorem ofOutline_eq_ok_iff {outline : Outline} {order : PropertyOrder} :
    ofOutline outline = .ok order ↔ ∃ text members rest,
      outline = .object text members ∧
        members.walk (fun _ _ _ => .ok ()) setRank [] = .ok (order, rest) := by
  constructor
  · intro decoded
    cases outline with
    | object text members =>
      obtain ⟨⟨ranks, rest⟩, walked, rfl⟩ := map_eq_ok_iff.mp decoded
      exact ⟨text, members, rest, rfl, walked⟩
    | scalar =>
      simp only [ofOutline] at decoded
      exact absurd decoded decodeAs_none_ne_ok
    | array => cases decoded
  · rintro ⟨text, members, rest, rfl, walked⟩
    exact map_eq_ok_iff.mpr ⟨_, walked, rfl⟩

theorem judgesKeys_all : JudgesKeys fun (_ : PropertyOrder) _ _ => .ok () :=
  fun _ _ _ _ permitted => permitted

theorem readsThrough_ofOutline : ReadsThrough ofOutline where
  skips {outline order} decoded := by
    obtain ⟨text, members, rest, rfl, walked⟩ := ofOutline_eq_ok_iff.mp decoded
    exact (walk_readsThrough judgesKeys_all readsThrough_setRank walked).1
  alike {outline other order} alike decoded := by
    obtain ⟨text, members, rest, rfl, walked⟩ := ofOutline_eq_ok_iff.mp decoded
    obtain - | - | alike := alike
    obtain ⟨rest, again⟩ :=
      (walk_readsThrough judgesKeys_all readsThrough_setRank walked).2 alike
    exact ofOutline_eq_ok_iff.mpr ⟨_, _, rest, rfl, again⟩

end PropertyOrder

/-! ## Texts -/

/-- A text that is decoded begins with a document, which is all that matters: before anything else it
is decoded in the same way. The text itself is a document only if nothing but blanks follows. -/
def ComesFromFirstValue {ε α : Type} (decode : String → Except ε α) (text : String) (a : α) : Prop :=
  ∃ first rest : String,
    text = first ++ rest ∧ IsDocument first.toList ∧ (∀ other, decode (first ++ other) = .ok a) ∧
      (IsDocument text.toList ↔ ∀ c ∈ rest.toList, isBlank c = true)

/-- Whatever is decoded comes from the first value of the text. -/
def TakesFirstValue {ε α : Type} (decode : String → Except ε α) : Prop :=
  ∀ text a, decode text = .ok a → ComesFromFirstValue decode text a

/-- What decodes the outline of a text, and no scalar, takes the first value of the text. -/
theorem takesFirstValue_of_readsThrough {ε α : Type} {decode : Outline → Except TextMisfit α}
    (through : ReadsThrough decode) (nested : ∀ start a, decode (.scalar start) ≠ .ok a)
    {decodeText : String → Except ε α}
    (ofText : ∀ text a, decodeText text = .ok a ↔ decode (Outline.ofText text.toList) = .ok a) :
    TakesFirstValue decodeText := by
  intro text a decoded
  have decoded := (ofText text a).mp decoded
  obtain ⟨rest, -, outlines⟩ := skip_outlineValue_iff.mp (through.skips decoded)
  have notScalar (start : List Char) : Outline.ofText text.toList ≠ .scalar start :=
    fun same => nested start a (same ▸ decoded)
  obtain ⟨first, same, cut⟩ := (outlines.cuts_nested notScalar).behind_blanks
  refine ⟨.ofList first, .ofList rest, ?_, ?_, fun other => ?_, ?_⟩
  · rw [← String.toList_inj, String.toList_append, String.toList_ofList, String.toList_ofList, same]
  · obtain ⟨outline', outlines', -⟩ := cut [] trivial
    rw [List.append_nil] at outlines'
    rw [String.toList_ofList]
    exact (isDocument_iff outlines').mpr fun c mem => absurd mem List.not_mem_nil
  · obtain ⟨outline', outlines', alike⟩ := cut other.toList trivial
    rw [ofText, String.toList_append, String.toList_ofList, Outline.ofText, outlines'.makes.1]
    exact through.alike alike decoded
  · rw [String.toList_ofList]
    exact isDocument_iff outlines

/-- What works on a decoded text alone takes the first value as well. -/
theorem TakesFirstValue.next {ε δ α β : Type} {decode : String → Except ε α}
    {further : String → Except δ β} (takes : TakesFirstValue decode) (next : α → β → Prop)
    (works : ∀ text b, further text = .ok b ↔ ∃ a, decode text = .ok a ∧ next a b) :
    TakesFirstValue further := by
  intro text b worked
  obtain ⟨a, decoded, here⟩ := (works text b).mp worked
  obtain ⟨first, rest, same, document, stable, whole⟩ := takes text a decoded
  exact ⟨first, rest, same, document, fun other => (works _ b).mpr ⟨a, stable other, here⟩, whole⟩

theorem takesFirstValue_messages : TakesFirstValue Chat.messagesOfText := by
  refine takesFirstValue_of_readsThrough (readsThrough_decodeList Chat.readsThrough_message)
    (fun start messages decoded => ?_) fun _ _ => mapError_eq_ok_iff
  obtain ⟨_, _, ⟨⟩, -⟩ := decodeList_eq_ok_iff.mp decoded

theorem takesFirstValue_order : TakesFirstValue PropertyOrder.ofText := by
  refine takesFirstValue_of_readsThrough PropertyOrder.readsThrough_ofOutline
    (fun start order decoded => ?_) fun _ _ => mapError_eq_ok_iff
  obtain ⟨_, _, _, ⟨⟩, -⟩ := PropertyOrder.ofOutline_eq_ok_iff.mp decoded

theorem takesFirstValue_normalized : TakesFirstValue Chat.normalizeText := by
  refine takesFirstValue_messages.next (fun messages out => Chat.normalize messages = .ok out)
    fun text out => ?_
  rw [Chat.normalizeText]
  cases Chat.messagesOfText text <;> simp

theorem takesFirstValue_orderFile (path : String)
    (sources : Except Files.InputError (List Command.Source)) :
    TakesFirstValue fun text => Command.Material.fileOrder ⟨some (path, .ok text), sources⟩ := by
  refine takesFirstValue_order.next (fun order given => some order = given) fun text given => ?_
  simp only [Command.Material.fileOrder]
  cases PropertyOrder.ofText text <;> simp

/-- Messages, flattened messages, orders and the order of a file come from the first value of the text
that they are decoded from, and what follows it is not looked at. -/
theorem decodings_take_first_value (text path : String)
    (sources : Except Files.InputError (List Command.Source)) :
    (∀ messages, Chat.messagesOfText text = .ok messages →
        ComesFromFirstValue Chat.messagesOfText text messages) ∧
      (∀ out, Chat.normalizeText text = .ok out → ComesFromFirstValue Chat.normalizeText text out) ∧
      (∀ order, PropertyOrder.ofText text = .ok order →
        ComesFromFirstValue PropertyOrder.ofText text order) ∧
      ∀ order, Command.Material.fileOrder ⟨some (path, .ok text), sources⟩ = .ok order →
        ComesFromFirstValue (fun text => Command.Material.fileOrder ⟨some (path, .ok text), sources⟩)
          text order :=
  ⟨takesFirstValue_messages text, takesFirstValue_normalized text, takesFirstValue_order text,
    takesFirstValue_orderFile path sources text⟩

/-- An empty list is decoded, with a word behind it or without, though only one of the two texts is a
document. -/
theorem decodings_take_first_value_word :
    Chat.normalizeText "[] x" = .ok [] ∧ ¬ IsDocument "[] x".toList ∧
      ∃ first rest : String, "[] x" = first ++ rest ∧ IsDocument first.toList ∧
        (∀ other, Chat.normalizeText (first ++ other) = .ok []) ∧
        ¬ ∀ c ∈ rest.toList, isBlank c = true := by
  have decoded : Chat.normalizeText "[] x" = .ok [] := by cbv
  have notDocument : ¬ IsDocument "[] x".toList := by
    have outlines : Outlines (skipBlanks "[] x".toList)
        (.array "[] x".toList (.closed " x".toList)) " x".toList := .array (.close rfl)
    rw [isDocument_iff outlines]
    exact fun areBlank => absurd (areBlank 'x' (by simp)) (by decide)
  obtain ⟨first, rest, same, document, stable, whole⟩ :=
    (decodings_take_first_value "[] x" "" (.ok [])).2.1 [] decoded
  exact ⟨decoded, notDocument, first, rest, same, document, stable,
    fun areBlank => notDocument (whole.mpr areBlank)⟩

end SchemaGrammar
