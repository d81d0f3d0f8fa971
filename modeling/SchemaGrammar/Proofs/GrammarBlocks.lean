import SchemaGrammar.Command.Report
import SchemaGrammar.Proofs.ReadBack
import SchemaGrammar.Proofs.RuleOrder
import SchemaGrammar.Proofs.Stages
import SchemaGrammar.Proofs.TableText

/-!
# Both forms of a report hold the same grammars

A request reports grammars as plain text or as parameters. The grammars are read back from either
form without knowing how many they are: from parameters by reading the JSON text
(`readParams_paramsText`), and from plain text by cutting it at the lines that begin with `# `
(`readGrammars_grammarsText`). No line of a grammar begins so, and none is blank, since it begins
with the name of its rule; and each rule stays on its line, whatever the schema quotes.

`exists_report_readBack` puts this together for all documents that compile: either form holds the
texts of their grammars, in their order.
-/

namespace SchemaGrammar.Command

open Gbnf (Grammar RuleTable IsRuleName OnOneLine ruleLine rulesText)
open Json (Value)

/-! ## The reading -/

/-- Whether a line says that a grammar begins behind it. -/
def isHeader (line : List Char) : Bool := "# ".toList.isPrefixOf line

/-- Cuts lines into those before the first header, and those behind each header. -/
def cutBlocks : List (List Char) → List (List Char) × List (List (List Char))
  | [] => ([], [])
  | line :: lines =>
    let (before, blocks) := cutBlocks lines
    if isHeader line then ([], before :: blocks) else (line :: before, blocks)

/-- The text of a block: its lines, each of which has been ended, without the blank one behind
them. -/
def blockText (lines : List (List Char)) : String :=
  String.ofList (lines.dropLast.flatMap (· ++ ['\n']))

/-- The grammars of a plain text; without a header, the text is that of one grammar or of none. -/
def readGrammars (text : String) : List String :=
  match (cutBlocks (Text.split '\n' text.toList)).2 with
  | [] => if text.isEmpty then [] else [text]
  | blocks => blocks.map blockText

/-- The text of a grammar that is given as a parameter. -/
def grammarText? (v : Value) : Option String := (v.get? "grammar").bind Value.asString?

/-- The grammars of a text of parameters. -/
def readParams (text : String) : Option (List String) :=
  match Value.parse text with
  | .error _ => none
  | .ok (.array vs) => vs.mapM grammarText?
  | .ok v => (grammarText? v).map ([·])

/-! ## Parameters -/

theorem nests_params (grammar : Grammar) (depth : Nat) : grammar.params.Nests (depth + 1) := by
  refine .object fun m mem => ?_
  rw [List.mem_singleton.mp mem]
  exact .string

theorem hasDistinctKeys_params (grammar : Grammar) : grammar.params.HasDistinctKeys := by
  refine .object (List.nodup_singleton _) fun m mem => ?_
  rw [List.mem_singleton.mp mem]
  exact .string

theorem grammarText?_params (grammar : Grammar) :
    grammarText? grammar.params = some grammar.text := by
  simp [grammarText?, Grammar.params, Value.get?, Value.asString?]

theorem mapM_grammarText? (grammars : List Grammar) :
    (grammars.map (·.params)).mapM grammarText? = some (grammars.map (·.text)) := by
  induction grammars with
  | nil => rfl
  | cons grammar grammars ih =>
    rw [List.map_cons, List.mapM_cons, grammarText?_params, ih]
    rfl

theorem parse_params (grammar : Grammar) :
    Value.parse grammar.params.pretty = .ok grammar.params :=
  Value.parse_pretty (nests_params grammar _) (hasDistinctKeys_params grammar)

theorem parse_listed_params (grammars : List Grammar) :
    Value.parse (Value.array (grammars.map (·.params))).pretty =
      .ok (.array (grammars.map (·.params))) := by
  refine Value.parse_pretty (.array fun v mem => ?_) (.array fun v mem => ?_)
  · obtain ⟨grammar, -, rfl⟩ := List.mem_map.mp mem
    exact nests_params grammar _
  · obtain ⟨grammar, -, rfl⟩ := List.mem_map.mp mem
    exact hasDistinctKeys_params grammar

theorem aloneOrListed_eq_array {vs : List Value} (notAlone : ∀ v, vs ≠ [v]) :
    aloneOrListed vs = .array vs := by
  unfold aloneOrListed
  split
  · next v => exact absurd rfl (notAlone v)
  · rfl

/-- The grammars are read back from their text as parameters. -/
theorem readParams_paramsText (grammars : List Grammar) :
    readParams (paramsText grammars) = some (grammars.map (·.text)) := by
  by_cases alone : ∃ grammar, grammars = [grammar]
  · obtain ⟨grammar, rfl⟩ := alone
    rw [readParams, paramsText, List.map_singleton, aloneOrListed, parse_params]
    exact congrArg (Option.map ([·])) (grammarText?_params grammar)
  · have notAlone (v : Value) : grammars.map (·.params) ≠ [v] := by
      intro same
      obtain ⟨grammar, rfl, -⟩ := List.map_eq_singleton_iff.mp same
      exact alone ⟨grammar, rfl⟩
    rw [readParams, paramsText, aloneOrListed_eq_array notAlone, parse_listed_params]
    exact mapM_grammarText? grammars

/-! ## Plain text -/

theorem isHeader_append (label : List Char) : isHeader ("# ".toList ++ label) = true :=
  List.isPrefixOf_iff_prefix.mpr (List.prefix_append _ _)

/-- The lines of a grammar, without their ends. -/
def linesOf (grammar : Grammar) : List (List Char) :=
  grammar.rules.map fun rule => rule.1.toList ++ (" ::= ".toList ++ rule.2.toList)

/-- The text of a grammar is its lines with an end each. -/
theorem toList_text (grammar : Grammar) :
    grammar.text.toList = (linesOf grammar).flatMap (· ++ ['\n']) := by
  rw [Grammar.text, rulesText, linesOf]
  induction grammar.rules with
  | nil => rfl
  | cons rule rules ih =>
    rw [List.map_cons, String.join_cons, String.toList_append, ih, List.map_cons,
      List.flatMap_cons, ruleLine]
    simp only [String.toList_append, List.append_assoc]
    rfl

/-- A block of a grammar's lines and a blank one is the grammar's text. -/
theorem blockText_linesOf (grammar : Grammar) :
    blockText (linesOf grammar ++ [[]]) = grammar.text := by
  rw [blockText, List.dropLast_concat, ← toList_text, String.ofList_toList]

/-- Each rule has a rule name, and a body without a line break. -/
def Legible (grammar : Grammar) : Prop :=
  ∀ rule ∈ grammar.rules, IsRuleName rule.1 ∧ OnOneLine rule.2.toList

section Legible

variable {grammar : Grammar} (legible : Legible grammar)

include legible

theorem newline_notMem_linesOf : ∀ line ∈ linesOf grammar, '\n' ∉ line := by
  intro line memLines mem
  obtain ⟨rule, memRules, rfl⟩ := List.mem_map.mp memLines
  obtain ⟨isName, onOneLine⟩ := legible rule memRules
  rcases List.mem_append.mp mem with mem | mem
  · exact absurd (isName.2 _ mem) (by decide)
  rcases List.mem_append.mp mem with mem | mem
  · exact absurd mem (by decide)
  · exact onOneLine.newline_notMem mem

/-- No line of a grammar is taken for a header: it begins with a rule name. -/
theorem isHeader_linesOf : ∀ line ∈ linesOf grammar, isHeader line = false := by
  intro line memLines
  obtain ⟨rule, memRules, rfl⟩ := List.mem_map.mp memLines
  obtain ⟨notEmpty, nameChars⟩ := (legible rule memRules).1
  cases name : rule.1.toList with
  | nil => exact absurd (String.toList_eq_nil_iff.mp name) notEmpty
  | cons c rest =>
    have nameChar := nameChars c (name ▸ List.mem_cons_self)
    have different : c ≠ '#' := by
      rintro rfl
      exact absurd nameChar (by decide)
    simp [isHeader, List.isPrefixOf, Ne.symm different]

/-- Cutting a text at its line breaks gives the lines of the grammar that it begins with. -/
theorem split_text_append (rest : List Char) :
    Text.split '\n' (grammar.text.toList ++ rest) = linesOf grammar ++ Text.split '\n' rest := by
  have unbroken := newline_notMem_linesOf legible
  rw [toList_text]
  generalize linesOf grammar = lines at unbroken
  induction lines with
  | nil => rfl
  | cons line lines ih =>
    rw [List.flatMap_cons, List.append_assoc, List.append_assoc, List.singleton_append,
      Text.split_append (unbroken line List.mem_cons_self),
      ih fun other mem => unbroken other (List.mem_cons_of_mem line mem), List.cons_append]

end Legible

/-! ## Blocks -/

theorem cutBlocks_append {lines : List (List Char)} (plain : ∀ line ∈ lines, isHeader line = false)
    (more : List (List Char)) :
    cutBlocks (lines ++ more) = (lines ++ (cutBlocks more).1, (cutBlocks more).2) := by
  induction lines with
  | nil => rfl
  | cons line lines ih =>
    rw [List.cons_append, cutBlocks, plain line List.mem_cons_self,
      ih fun other mem => plain other (List.mem_cons_of_mem line mem)]
    rfl

theorem cutBlocks_header {line : List Char} (header : isHeader line = true)
    (more : List (List Char)) :
    cutBlocks (line :: more) = ([], (cutBlocks more).1 :: (cutBlocks more).2) := by
  rw [cutBlocks, header]
  rfl

/-- The text of a grammar under its label. -/
def sectionText (labelled : String × Grammar) : String :=
  s!"# {labelled.1}\n{labelled.2.text}"

theorem grammarsText_eq {labelled : List (String × Grammar)}
    (notAlone : ∀ one, labelled ≠ [one]) :
    grammarsText labelled = "\n".intercalate (labelled.map sectionText) := by
  unfold grammarsText
  split
  · next label grammar => exact absurd rfl (notAlone (label, grammar))
  · rfl

/-- A section is a header, and the lines of its grammar behind it. -/
theorem split_sectionText {labelled : String × Grammar} (label : '\n' ∉ labelled.1.toList)
    (legible : Legible labelled.2) (rest : List Char) :
    Text.split '\n' ((sectionText labelled).toList ++ rest) =
      ("# ".toList ++ labelled.1.toList) :: (linesOf labelled.2 ++ Text.split '\n' rest) := by
  have cut : (sectionText labelled).toList ++ rest =
      ("# ".toList ++ labelled.1.toList) ++ '\n' :: (labelled.2.text.toList ++ rest) := by
    simp [sectionText, toString]
  have header : '\n' ∉ "# ".toList ++ labelled.1.toList := by
    intro mem
    rcases List.mem_append.mp mem with mem | mem
    · exact absurd mem (by decide)
    · exact label mem
  rw [cut, Text.split_append header, split_text_append legible]

/-- Sections with a line break between each two are cut into the lines of their grammars, with a
blank one behind each. -/
theorem cutBlocks_intercalate {labelled : List (String × Grammar)} (notEmpty : labelled ≠ [])
    (labels : ∀ one ∈ labelled, '\n' ∉ one.1.toList) (legible : ∀ one ∈ labelled, Legible one.2) :
    cutBlocks (Text.split '\n' ("\n".intercalate (labelled.map sectionText)).toList) =
      ([], labelled.map fun one => linesOf one.2 ++ [[]]) := by
  induction labelled with
  | nil => exact absurd rfl notEmpty
  | cons one labelled ih =>
    have label := labels one List.mem_cons_self
    have readable := legible one List.mem_cons_self
    have plain := isHeader_linesOf readable
    cases labelled with
    | nil =>
      have cut := split_sectionText label readable []
      rw [List.append_nil] at cut
      rw [List.map_singleton, String.intercalate_singleton, cut,
        cutBlocks_header (isHeader_append _), cutBlocks_append plain]
      rfl
    | cons two labelled =>
      have later := ih (List.cons_ne_nil _ _)
        (fun other mem => labels other (List.mem_cons_of_mem _ mem))
        (fun other mem => legible other (List.mem_cons_of_mem _ mem))
      have blank (rest : List Char) :
          Text.split '\n' ("\n".toList ++ rest) = [] :: Text.split '\n' rest :=
        @Text.split_append '\n' [] List.not_mem_nil rest
      rw [List.map_cons, List.map_cons] at later ⊢
      rw [String.intercalate_cons_cons, String.toList_append, String.toList_append,
        List.append_assoc, split_sectionText label readable, blank,
        cutBlocks_header (isHeader_append _), cutBlocks_append plain, cutBlocks, later]
      rfl

theorem text_ne_empty {grammar : Grammar} (hasRules : grammar.rules ≠ []) :
    grammar.text.isEmpty = false := by
  refine Bool.eq_false_iff.mpr fun isEmpty => hasRules ?_
  have noLines : (linesOf grammar).flatMap (· ++ ['\n']) = [] := by
    rw [← toList_text, String.isEmpty_iff.mp isEmpty]
    rfl
  rw [List.flatMap_eq_nil_iff] at noLines
  refine List.eq_nil_iff_forall_not_mem.mpr fun rule mem => ?_
  have ended := noLines _ (List.mem_map_of_mem mem)
  exact absurd ended (List.append_ne_nil_of_right_ne_nil _ (List.cons_ne_nil _ _))

/-- If there are headers, the grammars are those behind them. -/
theorem readGrammars_of_blocks {text : String} {blocks : List (List (List Char))}
    (cut : (cutBlocks (Text.split '\n' text.toList)).2 = blocks) (notEmpty : blocks ≠ []) :
    readGrammars text = blocks.map blockText := by
  rw [readGrammars, cut]
  split
  · exact absurd rfl notEmpty
  · rfl

/-- The grammars are read back from their plain text. -/
theorem readGrammars_grammarsText {labelled : List (String × Grammar)}
    (labels : ∀ one ∈ labelled, '\n' ∉ one.1.toList) (legible : ∀ one ∈ labelled, Legible one.2)
    (hasRules : ∀ one ∈ labelled, one.2.rules ≠ []) :
    readGrammars (grammarsText labelled) = labelled.map (·.2.text) := by
  by_cases alone : ∃ one, labelled = [one]
  · obtain ⟨⟨label, grammar⟩, rfl⟩ := alone
    have readable : Legible grammar := legible _ List.mem_cons_self
    have noBlocks : (cutBlocks (Text.split '\n' grammar.text.toList)).2 = [] := by
      have lines := split_text_append readable []
      rw [List.append_nil] at lines
      rw [lines, cutBlocks_append (isHeader_linesOf readable)]
      rfl
    rw [grammarsText, readGrammars, noBlocks, List.map_singleton]
    dsimp only
    rw [text_ne_empty (hasRules _ List.mem_cons_self), if_neg Bool.false_ne_true]
  · have notAlone (one : String × Grammar) : labelled ≠ [one] := fun same => alone ⟨one, same⟩
    rw [grammarsText_eq notAlone]
    cases labelled with
    | nil => rfl
    | cons one labelled =>
      have cut := cutBlocks_intercalate (List.cons_ne_nil one labelled) labels legible
      rw [readGrammars_of_blocks (congrArg Prod.snd cut) (List.cons_ne_nil _ _), List.map_map]
      exact List.map_congr_left fun one _ => blockText_linesOf one.2

/-! ## Reports -/

/-- A grammar that is compiled is legible and has a rule. -/
theorem legible_of_compileGrammar {order : Option PropertyOrder} {schema : Value}
    {grammar : Grammar} (compiled : compileGrammar order schema = .ok grammar) :
    Legible grammar ∧ grammar.rules ≠ [] := by
  obtain ⟨top, given, sameRules⟩ := exists_of_compiled compiled
  have sound : (Visit.ofSchema order schema).after.table.Sound :=
    Visit.sound_after RuleTable.sound_initial
  have legible : RuleTable.Legible (Visit.ofSchema order schema).after.table :=
    emitValue_legible order schema "" RuleTable.sound_initial legible_initial
  obtain ⟨text, found⟩ := Visit.exists_get?_after RuleTable.sound_initial given
  rw [Legible, sameRules]
  exact ⟨legible, List.ne_nil_of_mem (sound.get?_eq_some_iff.mp found)⟩

/-- Documents that compile have grammars, with the texts that come of compiling them. -/
theorem exists_labelled {order : Option PropertyOrder} {documents : List Document}
    {texts : List String}
    (each : List.Forall₂ (fun d text => compile order d.value = .ok text) documents texts) :
    ∃ labelled, List.Forall₂ (fun d one => Document.grammar order d = .ok one) documents labelled ∧
      labelled.map (·.2.text) = texts := by
  induction each with
  | nil => exact ⟨[], .nil, rfl⟩
  | @cons document text documents texts here _ ih =>
    obtain ⟨grammar, compiled, rfl⟩ := map_eq_ok_iff.mp here
    obtain ⟨labelled, others, rfl⟩ := ih
    have own : document.grammar order = .ok (document.label, grammar) :=
      Document.grammar_eq_ok_iff.mpr ⟨rfl, compiled⟩
    exact ⟨(document.label, grammar) :: labelled, .cons own others, rfl⟩

/-- For all documents that compile, and whose labels have no line break, either form of the report
holds the texts of their grammars, in the order of the documents. -/
theorem exists_report_readBack {order : Option PropertyOrder} {documents : List Document}
    {texts : List String} (compiled : documents.mapM (fun d => compile order d.value) = .ok texts)
    (labels : ∀ document ∈ documents, '\n' ∉ document.label.toList) :
    ∃ plain params, readGrammars plain = texts ∧ readParams params = some texts ∧
      ∀ (engine : Query.Engine) (request : GrammarRequest) (material : Material),
        material.order request.order = .ok order →
        request.selection.documents engine material = .ok documents →
        request.report engine material = .ok (if request.params then params else plain) := by
  obtain ⟨labelled, each, rfl⟩ := exists_labelled (mapM_eq_ok_iff.mp compiled)
  have ofDocument (one : String × Grammar) (mem : one ∈ labelled) : ∃ document ∈ documents,
      one.1 = document.label ∧ compileGrammar order document.value = .ok one.2 := by
    obtain ⟨document, memDocuments, own⟩ := exists_mem_of_forall₂ each mem
    exact ⟨document, memDocuments, Document.grammar_eq_ok_iff.mp own⟩
  have plain : readGrammars (grammarsText labelled) = labelled.map (·.2.text) := by
    refine readGrammars_grammarsText (fun one mem => ?_) (fun one mem => ?_) (fun one mem => ?_)
    all_goals obtain ⟨document, memDocuments, label, compiled⟩ := ofDocument one mem
    · exact label ▸ labels document memDocuments
    · exact (legible_of_compileGrammar compiled).1
    · exact (legible_of_compileGrammar compiled).2
  have params : readParams (paramsText (labelled.map (·.2))) = some (labelled.map (·.2.text)) := by
    rw [readParams_paramsText, List.map_map]
    rfl
  refine ⟨_, _, plain, params, fun engine request material ordered loaded => ?_⟩
  rw [GrammarRequest.report, ordered, bind_eq_ok_iff]
  refine ⟨order, rfl, bind_eq_ok_iff.mpr ⟨documents, loaded, ?_⟩⟩
  exact bind_eq_ok_iff.mpr ⟨labelled, mapM_eq_ok_iff.mpr each, rfl⟩

/-- Two documents, one of which quotes what looks like a header. -/
theorem exists_report_readBack_quoted :
    let documents : List Document := [⟨"a.json", .object [("const", .string "\n# b.json\n")]⟩,
      ⟨"b.json", .object [("type", .string "null")]⟩]
    let texts := ["space ::= \" \"?\nroot ::= \"\\\"\\n# b.json\\n\\\"\"\n",
      "space ::= \" \"?\nroot ::= \"null\" space\n"]
    documents.mapM (fun d => compile none d.value) = .ok texts ∧
      (∀ document ∈ documents, '\n' ∉ document.label.toList) ∧
      ∃ plain params, readGrammars plain = texts ∧ readParams params = some texts ∧
        ∀ (engine : Query.Engine) (request : GrammarRequest) (material : Material),
          material.order request.order = .ok none →
          request.selection.documents engine material = .ok documents →
          request.report engine material = .ok (if request.params then params else plain) := by
  intro documents texts
  have compiled : documents.mapM (fun d => compile none d.value) = .ok texts := by cbv
  have labels : ∀ document ∈ documents, '\n' ∉ document.label.toList := by decide
  exact ⟨compiled, labels, exists_report_readBack compiled labels⟩

end SchemaGrammar.Command
