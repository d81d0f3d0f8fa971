import SchemaGrammar.Proofs.RereadValue
import SchemaGrammar.Proofs.Stages
import SchemaGrammar.Query.Evaluation

/-!
# The query that asks for its input

In an engine whose query `.` gives its input and nothing else (`Query.Engine.EmitsInput`), what it
gives is written and read again. So a document comes back with each of its doubles read from its text
(`Query.Engine.EmitsInput.run_identity`), and a command that asks every document so works on these.
-/

namespace SchemaGrammar

open Json

/-! ## Values that come of documents -/

namespace Json

theorem Value.Fits.mono {v : Value} {m n : Nat} (fits : v.Fits m) (le : m ≤ n) : v.Fits n := by
  induction fits generalizing n with
  | null => exact .null
  | bool => exact .bool
  | number => exact .number
  | string => exact .string
  | array _ ih =>
    obtain ⟨n, rfl⟩ := Nat.exists_eq_succ_of_ne_zero (Nat.ne_zero_of_lt le)
    exact .array fun v mem => ih v mem (by omega)
  | object _ ih =>
    obtain ⟨n, rfl⟩ := Nat.exists_eq_succ_of_ne_zero (Nat.ne_zero_of_lt le)
    exact .object fun m mem => ih m mem (by omega)

/-- A scalar fits at any depth. -/
theorem fits_of_readScalar {depth : Nat} {text rest : List Char} {v : Value}
    (read : readScalar text = .ok (v, rest)) : v.Fits depth := by
  unfold readScalar at read
  split at read
  · cases read
  · split_ifs at read
    all_goals
      obtain ⟨_, -, same⟩ := map_eq_ok_iff.mp read
      obtain ⟨rfl, -⟩ := Prod.mk.inj same
    · exact .null
    · exact .bool
    · exact .bool
    · exact .string
    · exact .number

mutual
/-- What is built with so many levels to go is nested no deeper. -/
theorem Outline.fits_of_readsAs : ∀ {depth : Nat} {outline : Outline} {v : Value},
    outline.ReadsAs depth v → v.Fits depth
  | _, .scalar _, _, .scalar read => fits_of_readScalar read
  | _, .array _ _, _, .array inner => .array (Items.fits_of_readsAs inner)
  | _, .object _ _, _, .object inner => .object (Members.fits_of_readsAs inner)
theorem Items.fits_of_readsAs : ∀ {depth : Nat} {items : Items} {vs : List Value},
    items.ReadsAs depth vs → ∀ v ∈ vs, v.Fits depth
  | _, .closed _, _, .closed => nofun
  | _, .item _ _, _, .item first more => List.forall_mem_cons.mpr
      ⟨Outline.fits_of_readsAs (Outline.readsAs_of_read first), Items.fits_of_readsAs more⟩
theorem Members.fits_of_readsAs : ∀ {depth : Nat} {members : Members} {vs : List Member},
    members.ReadsAs depth vs → ∀ m ∈ vs, m.2.Fits depth
  | _, .closed _, _, .closed => nofun
  | _, .member _ _ _ _, _, .member _ first more => List.forall_mem_cons.mpr
      ⟨Outline.fits_of_readsAs (Outline.readsAs_of_read first), Members.fits_of_readsAs more⟩
end

namespace Value

mutual
theorem fits_merged : ∀ {v : Value} {depth : Nat}, v.Fits depth → v.merged.Fits depth
  | .null, _, _ => .null
  | .bool _, _, _ => .bool
  | .number _, _, _ => .number
  | .string _, _, _ => .string
  | .array _, _, .array each => .array (fits_mergedItems each)
  | .object _, _, .object each => .object fun m mem =>
      fits_mergedMembers each m ((Keyed.mem_extend _ [] mem).resolve_left List.not_mem_nil)
theorem fits_mergedItems : ∀ {items : List Value} {depth : Nat}, (∀ v ∈ items, v.Fits depth) →
    ∀ v ∈ mergedItems items, v.Fits depth
  | [], _, _ => nofun
  | v :: _, _, each => List.forall_mem_cons.mpr ⟨fits_merged (each v List.mem_cons_self),
      fits_mergedItems fun w mem => each w (List.mem_cons_of_mem v mem)⟩
theorem fits_mergedMembers : ∀ {members : List Member} {depth : Nat},
    (∀ m ∈ members, m.2.Fits depth) → ∀ m ∈ mergedMembers members, m.2.Fits depth
  | [], _, _ => nofun
  | (k, v) :: _, _, each => List.forall_mem_cons.mpr ⟨fits_merged (each (k, v) List.mem_cons_self),
      fits_mergedMembers fun m mem => each m (List.mem_cons_of_mem (k, v) mem)⟩
end

theorem keys_mapNumbersInMembers (f : Number → Number) : ∀ members : List Member,
    (mapNumbersInMembers f members).map Prod.fst = members.map Prod.fst
  | [] => rfl
  | _ :: rest => congrArg (_ :: ·) (keys_mapNumbersInMembers f rest)

mutual
/-- Changing numbers changes no key. -/
theorem hasDistinctKeys_mapNumbers (f : Number → Number) :
    ∀ {v : Value}, v.HasDistinctKeys → (v.mapNumbers f).HasDistinctKeys
  | .null, _ => .null
  | .bool _, _ => .bool
  | .number _, _ => .number
  | .string _, _ => .string
  | .array _, .array each => .array (hasDistinctKeys_mapNumbersInItems f each)
  | .object members, .object distinct each =>
    .object (keys_mapNumbersInMembers f members ▸ distinct)
      (hasDistinctKeys_mapNumbersInMembers f each)
theorem hasDistinctKeys_mapNumbersInItems (f : Number → Number) : ∀ {items : List Value},
    (∀ v ∈ items, v.HasDistinctKeys) → ∀ v ∈ mapNumbersInItems f items, v.HasDistinctKeys
  | [], _ => nofun
  | v :: _, each => List.forall_mem_cons.mpr
      ⟨hasDistinctKeys_mapNumbers f (each v List.mem_cons_self),
        hasDistinctKeys_mapNumbersInItems f fun w mem => each w (List.mem_cons_of_mem v mem)⟩
theorem hasDistinctKeys_mapNumbersInMembers (f : Number → Number) : ∀ {members : List Member},
    (∀ m ∈ members, m.2.HasDistinctKeys) → ∀ m ∈ mapNumbersInMembers f members, m.2.HasDistinctKeys
  | [], _ => nofun
  | (k, v) :: _, each => List.forall_mem_cons.mpr
      ⟨hasDistinctKeys_mapNumbers f (each (k, v) List.mem_cons_self),
        hasDistinctKeys_mapNumbersInMembers f fun m mem => each m (List.mem_cons_of_mem (k, v) mem)⟩
end

/-- A value that can come of a document: it is not nested too deeply, and no object repeats a key. -/
structure IsDocument (v : Value) : Prop where
  fits : v.Fits nestingLimit
  distinct : v.HasDistinctKeys

theorem isDocument_of_parse {text : String} {v : Value} (parsed : parse text = .ok v) :
    v.IsDocument := by
  refine ⟨?_, hasDistinctKeys_of_parse parsed⟩
  unfold parse ofChars at parsed
  split at parsed
  · cases parsed
  · next written read =>
    split at parsed
    · rw [← Except.ok.inj parsed]
      exact fits_merged (Outline.fits_of_readsAs (Outline.readsAs_of_read read))
    · cases parsed

theorem Fits.of_mem_items {items : List Value} {depth : Nat} (fits : (Value.array items).Fits depth)
    {v : Value} (mem : v ∈ items) : v.Fits depth := by
  cases fits with
  | array each => exact (each v mem).mono (Nat.le_succ _)

theorem Fits.of_mem_members {members : List Member} {depth : Nat}
    (fits : (Value.object members).Fits depth) {m : Member} (mem : m ∈ members) :
    m.2.Fits depth := by
  cases fits with
  | object each => exact (each m mem).mono (Nat.le_succ _)

/-- What a token of a pointer selects of a document could be a document. -/
theorem IsDocument.of_select {v part : Value} {token : String} (isDocument : v.IsDocument)
    (selected : Pointer.select? v token = some part) : part.IsDocument := by
  obtain ⟨fits, distinct⟩ := isDocument
  unfold Pointer.select? at selected
  split at selected
  · obtain ⟨nodup, each⟩ := hasDistinctKeys_object_iff.mp distinct
    have mem := (Keyed.lookup_eq_some_iff nodup).mp selected
    exact ⟨fits.of_mem_members mem, each _ mem⟩
  · obtain ⟨i, -, found⟩ := Option.bind_eq_some_iff.mp selected
    have mem := List.mem_of_getElem? found
    exact ⟨fits.of_mem_items mem, hasDistinctKeys_array_iff.mp distinct _ mem⟩
  · cases selected

/-- So could what a whole pointer selects. -/
theorem IsDocument.of_pointer {v part : Value} {pointer : String} (isDocument : v.IsDocument)
    (selected : v.pointer? pointer = some part) : part.IsDocument := by
  obtain ⟨tokens, -, folded⟩ := Option.bind_eq_some_iff.mp selected
  clear selected
  induction tokens generalizing v with
  | nil => exact Option.some.inj folded ▸ isDocument
  | cons token tokens ih =>
    rw [List.foldlM_cons] at folded
    obtain ⟨next, first, folded⟩ := Option.bind_eq_some_iff.mp folded
    exact ih (isDocument.of_select first) folded

/-- The text of a datum is read as the value that it stands for, but for the doubles. -/
theorem parse_text_ofValue {v : Value} (isDocument : v.IsDocument) :
    parse (Query.Datum.ofValue v).text = .ok v.reread := by
  have begins := begins_write_ofValue [] v isDocument.fits endsNumber_nil
  rw [List.append_nil] at begins
  rw [parse, Query.Datum.text, String.toList_ofList]
  exact ofChars_eq_of_begins begins (hasDistinctKeys_mapNumbers _ isDocument.distinct)

end Value

end Json

/-! ## Running the query -/

namespace Query

theorem group_nil (f : Filter) : group f [] = f := by
  rw [group]
  rfl

theorem ofText_point : Filter.ofText? "." = some .identity := by
  have tokens : Token.ofText? "." = some [.symbol "."] := by decide
  have noFiles : asksForFiles [.symbol "."] = false := by decide
  have operand : readOperand 11 [.symbol "."] = some (.identity, []) := rfl
  have none : readTail 11 true [] = some ([], []) := rfl
  have term : readTerm 12 true [.symbol "."] = some (.identity, []) := by
    rw [readTerm, operand]
    dsimp only [bind, Option.bind]
    rw [none]
    dsimp only
    rw [group_nil]
  rw [Filter.ofText?, tokens]
  dsimp only [bind, Option.bind]
  rw [noFiles, show 6 * [Token.symbol "."].length + 6 = 12 from rfl, term]
  rfl

/-- An engine whose query `.` gives its input, as JSON text, and nothing else. -/
def Engine.EmitsInput (engine : Engine) : Prop :=
  ∃ program, engine.load "." = .ok program ∧
    ∀ v, (program v).toList = [.ok (Datum.ofValue v).text]

theorem evaluator_emitsInput : evaluator.EmitsInput := by
  have noneMissing : Filter.missing ⟨[], startScope.2⟩ .identity = [] := rfl
  refine ⟨fun v => (eval fuelLimit startScope.1 .identity (Datum.ofValue v)).map shown, ?_,
    fun v => ?_⟩
  · rw [evaluator]
    dsimp only
    rw [ofText_point]
    dsimp only
    rw [noneMissing]
  · have output : eval fuelLimit startScope.1 .identity (Datum.ofValue v) =
        .last (.ok (Datum.ofValue v)) := by
      rw [fuelLimit, eval]
      rfl
    dsimp only
    rw [output]
    rfl

/-- The query gives the document with its doubles read from their texts, and nothing else. -/
theorem Engine.EmitsInput.run_identity {engine : Engine} (emits : engine.EmitsInput) {v : Value}
    (isDocument : v.IsDocument) : engine.run "." v = .ok [v.reread] := by
  obtain ⟨program, loaded, gives⟩ := emits
  refine Command.run_eq_ok_iff.mpr (.outputs loaded ?_)
  rw [gives]
  exact .cons (.json (Value.parse_text_ofValue isDocument)) .nil

end Query

/-! ## Asking every document -/

namespace Command

/-- The selection that asks a query of every document. -/
def Selection.asking (selection : Selection) (query : String) : Selection :=
  { selection with query := some query }

/-- The document with its doubles read from their texts. -/
def Document.reread (document : Document) : Document :=
  { document with value := document.value.reread }

section Documents

variable {engine : Query.Engine} {selection : Selection} {source : Source} {document : Document}

theorem isDocument_of_document (read : source.document = .ok document) :
    document.value.IsDocument := by
  unfold Source.document at read
  split at read
  · cases read
  · split at read
    · cases read
    · next value parsed =>
      obtain rfl := Except.ok.inj read
      exact Value.isDocument_of_parse parsed

theorem isDocument_of_point {part : Document} (isDocument : document.value.IsDocument)
    (pointed : selection.point document = .ok part) : part.value.IsDocument := by
  unfold Selection.point at pointed
  split at pointed
  · exact Except.ok.inj pointed ▸ isDocument
  · split at pointed
    · cases pointed
    · next value selected =>
      obtain rfl := Except.ok.inj pointed
      exact isDocument.of_pointer selected

theorem ask_asking (emits : engine.EmitsInput) {part : Document} (unasked : selection.query = none)
    (isDocument : part.value.IsDocument) :
    (selection.asking ".").ask engine part =
      (selection.ask engine part).map (·.map Document.reread) := by
  rw [Selection.ask, Selection.ask, unasked]
  dsimp only [Selection.asking]
  rw [emits.run_identity isDocument]
  rfl

/-- A source gives the same documents as without the query, but each of them reread. -/
theorem documentsOf_asking (emits : engine.EmitsInput) (unasked : selection.query = none)
    (source : Source) :
    (selection.asking ".").documentsOf engine source =
      (selection.documentsOf engine source).map (·.map Document.reread) := by
  rw [Selection.documentsOf, Selection.documentsOf]
  cases read : source.document with
  | error e => rfl
  | ok document =>
    have isDocument := isDocument_of_document read
    change (selection.point document >>= (selection.asking ".").ask engine) =
      (selection.point document >>= selection.ask engine).map (·.map Document.reread)
    cases pointed : selection.point document with
    | error e => rfl
    | ok part => exact ask_asking emits unasked (isDocument_of_point isDocument pointed)

/-- Steps that differ from others by a function give results that differ by it. -/
theorem mapM_eq_map_mapM {α β γ : Type} {f : α → Except Failure β} {g : α → Except Failure γ}
    {h : β → γ} (each : ∀ a, g a = (f a).map h) (items : List α) :
    items.mapM g = (items.mapM f).map (·.map h) := by
  induction items with
  | nil => rfl
  | cons a items ih =>
    rw [List.mapM_cons, List.mapM_cons, each, ih]
    cases f a with
    | error e => rfl
    | ok b => cases items.mapM f <;> rfl

/-- All sources together give the same documents as without the query, but each of them reread. -/
theorem documents_asking (emits : engine.EmitsInput) (unasked : selection.query = none)
    (material : Material) :
    (selection.asking ".").documents engine material =
      (selection.documents engine material).map (·.map Document.reread) := by
  rw [Selection.documents, Selection.documents]
  cases material.sources with
  | error e => rfl
  | ok sources =>
    change ((sources.mapM ((selection.asking ".").documentsOf engine)) >>=
        fun found => .ok found.flatten) =
      ((sources.mapM (selection.documentsOf engine)) >>= fun found => .ok found.flatten).map
        (·.map Document.reread)
    rw [mapM_eq_map_mapM (documentsOf_asking emits unasked)]
    cases sources.mapM (selection.documentsOf engine) with
    | error e => rfl
    | ok found => exact congrArg Except.ok (List.map_flatten ..).symm

/-- One source, with no pointer and no query, gives its document. -/
theorem documents_of_parse {text : String} {v : Value} (unpointed : selection.pointer = none)
    (unasked : selection.query = none) (file : Option (String × Except Files.FileError String))
    (label : String) (parsed : Value.parse text = .ok v) :
    selection.documents engine ⟨file, .ok [⟨label, .ok text⟩]⟩ = .ok [⟨label, v⟩] := by
  have document : Source.document ⟨label, .ok text⟩ = .ok ⟨label, v⟩ := by
    rw [Source.document]
    dsimp only
    rw [parsed]
  have documentsOf : selection.documentsOf engine ⟨label, .ok text⟩ = .ok [⟨label, v⟩] := by
    rw [Selection.documentsOf, document]
    change (selection.point ⟨label, v⟩ >>= selection.ask engine) = _
    rw [Selection.point, unpointed]
    change selection.ask engine ⟨label, v⟩ = _
    rw [Selection.ask, unasked]
  rw [Selection.documents]
  change ([_].mapM (selection.documentsOf engine) >>= fun found => .ok found.flatten) = _
  rw [List.mapM_cons, documentsOf]
  rfl

/-- Documents whose doubles are all kept are not changed by the query. -/
theorem documents_asking_eq_self (emits : engine.EmitsInput) {material : Material}
    (unasked : selection.query = none)
    (kept : ∀ documents, selection.documents engine material = .ok documents →
      ∀ d ∈ documents, ∀ x, .real x ∈ d.value.numbers → x.reread = x) :
    (selection.asking ".").documents engine material = selection.documents engine material := by
  rw [documents_asking emits unasked]
  cases found : selection.documents engine material with
  | error e => rfl
  | ok documents =>
    refine congrArg Except.ok ((List.map_congr_left fun d mem => ?_).trans (List.map_id _))
    rw [Document.reread, Value.reread_eq_self_iff.mpr (kept documents found d mem)]
    rfl

end Documents

end Command

open Command (GrammarRequest Material)

/-- There is an engine whose query `.` gives its input as JSON text. In any such engine the query
gives a document back with every double in it read again from its text, and with all else as it was,
so it gives the same document if and only if each double is read as itself. A double is, if its
digits make a number of 53 bits and the power of ten that they are scaled by is between the
twenty-second and its inverse. A request that asks this query of every document works on the
documents of the request without it, each of them read again, and reports the same if all their
doubles are kept. -/
theorem identity_query_rereads (engine : Query.Engine) (text : String) (v : Value)
    (request : GrammarRequest) (material : Material) :
    Query.evaluator.EmitsInput ∧ (engine.EmitsInput →
      (Value.parse text = .ok v → engine.run "." v = .ok [v.reread] ∧
        (engine.run "." v = .ok [v] ↔ ∀ x, .real x ∈ v.numbers → x.reread = x)) ∧
      (∀ x : FiniteDouble, (x.numeral Json.doubleFormat.tiesUp).significand ≤ 2 ^ 53 →
        (x.numeral Json.doubleFormat.tiesUp).exponent.natAbs ≤ 22 → x.reread = x) ∧
      (request.selection.query = none →
        (request.selection.asking ".").documents engine material =
          (request.selection.documents engine material).map (·.map (·.reread)) ∧
        ((∀ documents, request.selection.documents engine material = .ok documents →
            ∀ d ∈ documents, ∀ x, .real x ∈ d.value.numbers → x.reread = x) →
          GrammarRequest.report engine
              { request with selection := request.selection.asking "." } material =
            request.report engine material))) := by
  refine ⟨Query.evaluator_emitsInput, fun emits => ⟨fun parsed => ?_, FiniteDouble.reread_eq_self,
    fun unasked => ⟨Command.documents_asking emits unasked material, fun kept => ?_⟩⟩⟩
  · have answer := emits.run_identity (Value.isDocument_of_parse parsed)
    refine ⟨answer, ?_⟩
    rw [answer, ← Value.reread_eq_self_iff, Except.ok.injEq, List.singleton_inj]
  · rw [GrammarRequest.report, GrammarRequest.report]
    dsimp only
    rw [Command.documents_asking_eq_self emits unasked kept]

/-- What is read for `1e-24` is the double behind the one that is nearest to it, and the query gives
the nearest one; the largest integer and one half are kept. -/
theorem identity_query_rereads_tiny :
    let read : FiniteDouble := ⟨false, 4247835366853742248, by decide⟩
    let again : FiniteDouble := ⟨false, 4247835366853742247, by decide⟩
    let half : FiniteDouble := ⟨false, 1022 * 2 ^ 52, by decide⟩
    let largest : Value := .number (.integer 18446744073709551615 (by decide))
    let request : GrammarRequest := ⟨⟨["half.json"], none, none⟩, none, none, false, none⟩
    let material : Material := ⟨none, .ok [⟨"half.json", .ok "\x7b\"const\":0.5\x7d"⟩]⟩
    Value.parse "[1e-24,18446744073709551615]" = .ok (.array [.number (.real read), largest]) ∧
      Query.evaluator.run "." (.array [.number (.real read), largest]) =
        .ok [.array [.number (.real again), largest]] ∧
      half.reread = half ∧
      request.selection.documents Query.evaluator material =
        .ok [⟨"half.json", .object [("const", .number (.real half))]⟩] ∧
      GrammarRequest.report Query.evaluator
          { request with selection := request.selection.asking "." } material =
        request.report Query.evaluator material := by
  intro read again half largest request material
  have tiny : readScalar "1e-24,18446744073709551615]".toList =
      .ok (.number (.real read), ",18446744073709551615]".toList) :=
    @readScalar_real _ _ 1 (-24) _ rfl ((scale_of_le (by decide)).trans (by decide +kernel))
  have parsed : Value.parse "[1e-24,18446744073709551615]" =
      .ok (.array [.number (.real read), largest]) := by
    refine Value.ofChars_eq_of_begins (.array (.cons rfl (.scalar tiny) (.next rfl rfl (.scalar rfl)
      (.close rfl)))) ?_
    simp [Value.hasDistinctKeys_array_iff, Value.HasDistinctKeys.number, largest]
  have fraction : readScalar "0.5\x7d".toList = .ok (.number (.real half), ['}']) :=
    @readScalar_real _ _ 5 (-1) _ rfl ((scale_of_le (by decide)).trans (by decide +kernel))
  have schema : Value.parse "\x7b\"const\":0.5\x7d" =
      .ok (.object [("const", .number (.real half))]) := by
    refine Value.ofChars_eq_of_begins (.object (.cons rfl (readString_flatMap "const" _) rfl
      (.scalar fraction) (.close rfl))) ?_
    simp [Value.hasDistinctKeys_object_iff, Value.HasDistinctKeys.number]
  obtain ⟨emits, rereads⟩ := identity_query_rereads Query.evaluator "[1e-24,18446744073709551615]"
    (.array [.number (.real read), largest]) request material
  have law := rereads emits
  have kept : half.reread = half := law.2.1 half (by decide +kernel) (by decide +kernel)
  have documents : request.selection.documents Query.evaluator material =
      .ok [⟨"half.json", .object [("const", .number (.real half))]⟩] :=
    Command.documents_of_parse rfl rfl none "half.json" schema
  refine ⟨parsed, ?_, kept, documents, ?_⟩
  · have reread : read.reread = again := FiniteDouble.reread_behind_tiny
    rw [(law.1 parsed).1]
    simp [Value.reread, Value.mapNumbers, Value.mapNumbersInItems, Number.reread, reread, largest]
  · refine (law.2.2 rfl).2 fun found same d mem x inValue => ?_
    obtain rfl := Except.ok.inj (documents.symm.trans same)
    obtain rfl := List.mem_singleton.mp mem
    have isHalf : x = half := by simpa [Value.numbers, Value.numbersOfMembers] using inValue
    rw [isHalf, kept]

end SchemaGrammar
