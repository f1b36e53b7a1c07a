import SchemaForge.Proofs.BoxedReferences
import SchemaForge.Proofs.Counterparts
import SchemaForge.Proofs.LineForms

/-! # Changes of descriptions

Descriptions are written as doc comments and decide nothing else, as long as the one-or-many
pattern does not depend on them. Take the doc comments out of what is generated from two documents
that differ in descriptions alone, and the same is left.
-/

namespace SchemaForge

namespace Rust

/-! ## What descriptions do not change -/

section

variable (told : Option String → Option String)

@[simp] theorem Declaration.name_redescribe (declaration : Declaration) :
    (declaration.redescribe told).name = declaration.name := by
  cases declaration <;> rfl

@[simp] theorem Declaration.slots_redescribe (declaration : Declaration) :
    (declaration.redescribe told).slots = declaration.slots := by
  cases declaration with
  | struct declared =>
    simp only [redescribe, slots, List.map_map]
    rfl
  | enum declared => rfl
  | typeAlias declared => rfl

theorem Declaration.redescribe_mapSlots (change : Ty → Ty) (declaration : Declaration) :
    (declaration.mapSlots change).redescribe told
      = (declaration.redescribe told).mapSlots change := by
  cases declaration with
  | struct declared =>
    simp only [redescribe, mapSlots, List.map_map]
    rfl
  | enum declared => rfl
  | typeAlias declared => rfl

theorem aliases_redescribe (declarations : List Declaration) :
    aliases (declarations.map (Declaration.redescribe told))
      = (aliases declarations).map fun declared =>
        { declared with description := told declared.description } := by
  induction declarations with
  | nil => rfl
  | cons declaration rest ih =>
    rw [aliases, aliases] at ih
    cases declaration <;> simp [aliases, Declaration.redescribe, ih]

/-- Aliases expand into each other whatever their descriptions. -/
theorem checkAliases_redescribe (declarations : List Declaration) :
    checkAliases (declarations.map (Declaration.redescribe told)) = checkAliases declarations := by
  have hgraph : ∀ declared : List TypeAlias, mentionGraph (declared.map fun synonym =>
      { synonym with description := told synonym.description }) = mentionGraph declared := by
    intro declared
    simp only [mentionGraph, List.map_map, List.find?_map, Function.comp_def]
    congr 1
    funext name
    cases declared.find? fun synonym => synonym.name = name <;> rfl
  rw [checkAliases, checkAliases, aliases_redescribe, hgraph]

/-- The same references are boxed whatever the descriptions. -/
theorem boxCycles_redescribe (declarations : List Declaration) :
    boxCycles (declarations.map (Declaration.redescribe told))
      = (boxCycles declarations).map (Declaration.redescribe told) :=
  boxCycles_map (Declaration.name_redescribe told) (Declaration.slots_redescribe told)
    (Declaration.redescribe_mapSlots told) declarations

theorem any_usesOneOrMany_redescribe (declarations : List Declaration) :
    (declarations.map (Declaration.redescribe told)).any Declaration.usesOneOrMany
      = declarations.any Declaration.usesOneOrMany := by
  have huses : Declaration.usesOneOrMany ∘ Declaration.redescribe told
      = Declaration.usesOneOrMany := by
    funext declaration
    simp [Declaration.usesOneOrMany]
  rw [List.any_map, huses]

end

end Rust

/-- Two programs that differ in descriptions alone. -/
def Program.SameUndescribed (first second : Program) : Prop :=
  first.declarations.map (Rust.Declaration.redescribe fun _ => none)
      = second.declarations.map (Rust.Declaration.redescribe fun _ => none) ∧
    first.needsOneOrMany = second.needsOneOrMany

namespace Document

open Rust

theorem exists_expand_of_agree {first second : Document} {breaking : Bool}
    (hagree : Agree (fun declarations others =>
        declarations.map (Declaration.redescribe fun _ => none)
          = others.map (Declaration.redescribe fun _ => none))
      (expandAll first).outcome (expandAll second).outcome) {program : Program}
    (h : (first.expand breaking).outcome = .ok program) :
    ∃ other, (second.expand breaking).outcome = .ok other ∧ program.SameUndescribed other := by
  obtain ⟨declarations, hall, hcheck, rfl⟩ := expand_eq_ok_iff.mp h
  obtain ⟨others, hothers, hsame⟩ := hagree.exists_ok hall
  rw [← checkAliases_redescribe fun _ => none, hsame, checkAliases_redescribe] at hcheck
  have hother : (second.expand breaking).outcome = .ok _ :=
    expand_eq_ok_iff.mpr ⟨others, hothers, hcheck, rfl⟩
  have hdeclarations : (if breaking then boxCycles declarations else declarations).map
        (Declaration.redescribe fun _ => none)
      = (if breaking then boxCycles others else others).map
        (Declaration.redescribe fun _ => none) := by
    cases breaking with
    | false => exact hsame
    | true =>
      rw [if_pos rfl, if_pos rfl, ← boxCycles_redescribe, hsame, boxCycles_redescribe]
  refine ⟨_, hother, hdeclarations, ?_⟩
  rw [needsOneOrMany_of_expand h, needsOneOrMany_of_expand hother,
    ← any_usesOneOrMany_redescribe fun _ => none, hdeclarations, any_usesOneOrMany_redescribe]

/-- Documents are expanded into programs that differ in descriptions alone, or neither of them is
expanded. -/
theorem agree_expand {first second : Document} (hname : first.rootName = second.rootName)
    (hdocuments : Schema.SameUndescribed first.root second.root)
    (hpatterns : Schema.PatternsAlike first.root second.root) (breaking : Bool) :
    Agree Program.SameUndescribed (first.expand breaking).outcome
      (second.expand breaking).outcome := by
  have hroot : Schema.Counterparts first.root second.root first.root second.root := .root
  have hagree := (comparison_matched hname hdocuments hpatterns).agree_expandAll (.place hroot)
    ((hroot.definitions hdocuments).imp fun _ _ hpaired => ⟨hpaired.1, .place hpaired.2⟩)
  refine .of_forall_ok (fun program hprogram => exists_expand_of_agree hagree hprogram) ?_
  intro program hprogram
  obtain ⟨other, hother, -⟩ :=
    exists_expand_of_agree (hagree.flip.mono fun _ _ hsame => Eq.symm hsame) hprogram
  exact ⟨other, hother⟩

end Document

/-! ## Lines that are no doc comments -/

namespace Text

/-- The first characters of the line that are no blanks are the mark of a doc comment. -/
def isDocLine (line : List Char) : Bool :=
  Rust.DocComment.mark.isPrefixOf (line.dropWhile isBlank)

/-- The lines of a text that are no doc comments. -/
def undocumented (text : List Char) : List (List Char) :=
  (text.splitOn '\n').filter fun line => !isDocLine line

end Text

namespace Rust

open Output Text

/-- The line is no doc comment. -/
def isCode (line : String) : Bool := !isDocLine line.toList

theorem isCode_of_commentLine {indent line : String} (hindent : indent ∈ ["", Style.indent])
    (h : CommentLine indent line) : isCode line = false := by
  obtain ⟨rest, hline, -⟩ := h
  have hmark : (indent.toList ++ DocComment.mark ++ rest).dropWhile isBlank
      = DocComment.mark ++ rest := by
    rcases List.mem_cons.mp hindent with rfl | hmore
    · rfl
    · rw [List.mem_singleton.mp hmore]
      rfl
  rw [isCode, isDocLine, hline, hmark, List.isPrefixOf_iff_prefix.mpr (List.prefix_append _ _)]
  rfl

theorem filter_docLines {style : Style} {indent : String} (hindent : indent ∈ ["", Style.indent])
    {description : Option String} {lines : List String}
    (h : style.docLines indent description = .ok lines) : lines.filter isCode = [] := by
  rw [List.filter_eq_nil_iff]
  intro line hline
  simp [isCode_of_commentLine hindent (commentLine_of_docLines h line hline)]

/-- What a step writes for each of many things, it writes for them without descriptions apart from
doc comments. -/
theorem exists_mapM_filter {α : Type} {step : α → Except Error (List String)} {change : α → α}
    (hstep : ∀ a lines, step a = .ok lines → ∃ plain, step (change a) = .ok plain ∧
      plain.filter isCode = lines.filter isCode) {as : List α} {blocks : List (List String)}
    (h : as.mapM step = .ok blocks) :
    ∃ plains, (as.map change).mapM step = .ok plains ∧
      plains.map (List.filter isCode) = blocks.map (List.filter isCode) := by
  simp only [mapM_eq_ok] at h ⊢
  induction h with
  | nil => exact ⟨[], List.Forall₂.nil, rfl⟩
  | cons hfirst _ ih =>
    obtain ⟨plain, hplain, hfilter⟩ := hstep _ _ hfirst
    obtain ⟨plains, hplains, hfilters⟩ := ih
    refine ⟨plain :: plains, List.Forall₂.cons hplain hplains, ?_⟩
    rw [List.map_cons, List.map_cons, hfilter, hfilters]

section

variable {style : Style}

theorem exists_fieldLines_filter (field : Field) {lines : List String}
    (h : style.fieldLines field = .ok lines) :
    ∃ plain, style.fieldLines (field.redescribe fun _ => none) = .ok plain ∧
      plain.filter isCode = lines.filter isCode := by
  obtain ⟨doc, hdoc, rfl⟩ := Style.fieldLines_eq_ok h
  have hindent : Style.indent ∈ ["", Style.indent] := List.mem_cons_of_mem _ List.mem_cons_self
  refine ⟨_, rfl, ?_⟩
  simp only [List.filter_append, filter_docLines hindent hdoc]
  rfl

/-- Without descriptions the lines of a declaration are the same but for doc comments. -/
theorem exists_declarationLines_filter (declaration : Declaration) {lines : List String}
    (h : style.declarationLines declaration = .ok lines) :
    ∃ plain, style.declarationLines (declaration.redescribe fun _ => none) = .ok plain ∧
      plain.filter isCode = lines.filter isCode := by
  cases declaration with
  | struct declared =>
    obtain ⟨fields, derived, doc, hfields, hderived, hdoc, rfl⟩ := Style.structLines_eq_ok h
    obtain ⟨plains, hplains, hfilters⟩ :=
      exists_mapM_filter (fun field _ => exists_fieldLines_filter field) hfields
    refine ⟨[] ++ [derived] ++ Style.renameLines "" declared.rename
      ++ ["pub struct " ++ declared.name ++ " \x7b"] ++ plains.flatten ++ ["\x7d"], ?_, ?_⟩
    · rw [Declaration.redescribe, Style.declarationLines, Style.structLines]
      simp only [hplains, hderived]
      rfl
    · simp only [List.filter_append, filter_docLines List.mem_cons_self hdoc, List.filter_flatten,
        hfilters, List.filter_nil]
  | enum declared =>
    obtain ⟨derived, doc, hderived, hdoc, rfl⟩ := Style.enumLines_eq_ok h
    refine ⟨[] ++ [derived] ++ Style.renameLines "" declared.rename
      ++ ["pub enum " ++ declared.name ++ " \x7b"] ++ declared.variants.flatMap Style.variantLines
      ++ ["\x7d"], ?_, ?_⟩
    · rw [Declaration.redescribe, Style.declarationLines, Style.enumLines, hderived]
      rfl
    · simp only [List.filter_append, filter_docLines List.mem_cons_self hdoc, List.filter_nil]
  | typeAlias declared =>
    obtain ⟨doc, hdoc, rfl⟩ := Style.aliasLines_eq_ok h
    refine ⟨_, rfl, ?_⟩
    simp only [List.filter_append, filter_docLines List.mem_cons_self hdoc]
    rfl

end

/-- Sections are spaced before or after doc comments are taken out. -/
theorem filter_spaced (sections : List (List String)) :
    (spaced sections).filter isCode = spaced (sections.map (List.filter isCode)) := by
  induction sections with
  | nil => rfl
  | cons first rest ih =>
    cases rest with
    | nil => simp [spaced]
    | cons second rest =>
      rw [spaced_cons_cons, List.filter_append, List.filter_append, ih]
      exact (spaced_cons_cons _ _ _).symm

theorem undocumented_ended {lines : List String} (h : ∀ line ∈ lines, OneLine line) :
    undocumented (ended lines) = (lines.filter isCode).map String.toList ++ [[]] := by
  rw [undocumented, splitOn_ended h, List.filter_append, List.filter_map]
  rfl

/-- Declarations that differ in descriptions alone are written alike but for doc comments. -/
theorem exists_write_undocumented {style : Style} (hstyle : style.Tidy)
    (hannounced : style.announced) {declarations others : List Declaration}
    (hlegal : ∀ declaration ∈ declarations, ∀ name ∈ declaration.identifiers, Legal name)
    (hothers : ∀ declaration ∈ others, ∀ name ∈ declaration.identifiers, Legal name)
    (hsame : declarations.map (Declaration.redescribe fun _ => none)
      = others.map (Declaration.redescribe fun _ => none)) (oneOrMany : Bool) :
    ∃ text other, style.write declarations oneOrMany = .ok text ∧
      style.write others oneOrMany = .ok other ∧
      undocumented text.toList = undocumented other.toList := by
  obtain ⟨blocks, hblocks, hwrite⟩ := exists_blocks hstyle.complete declarations
  obtain ⟨more, hmore, hmoreWrite⟩ := exists_blocks hstyle.complete others
  refine ⟨_, _, hwrite oneOrMany, hmoreWrite oneOrMany, ?_⟩
  obtain ⟨hlines, htext⟩ := toList_sourceText_blocks hstyle hannounced hlegal hblocks oneOrMany
  obtain ⟨hmoreLines, hother⟩ := toList_sourceText_blocks hstyle hannounced hothers hmore oneOrMany
  -- both are the lines of the declarations without descriptions
  obtain ⟨plains, hplains, hfilter⟩ :=
    exists_mapM_filter (fun declaration _ => exists_declarationLines_filter declaration) hblocks
  obtain ⟨_, hothersPlains, hmoreFilter⟩ :=
    exists_mapM_filter (fun declaration _ => exists_declarationLines_filter declaration) hmore
  rw [← hsame, hplains] at hothersPlains
  cases hothersPlains
  rw [htext, hother, undocumented_ended hlines, undocumented_ended hmoreLines, filter_spaced,
    filter_spaced, List.map_append, List.map_append, ← hfilter, ← hmoreFilter]

end Rust

namespace Request

open Text

/-- Take two documents that differ only in whether their schemas have descriptions and in what these
say, and let the one-or-many pattern be found alike in them. In the default settings source text is
generated from both or from neither, and the two texts are the same once the lines of doc comments
are removed. -/
theorem agree_generate_undocumented {first second : Json} {rootName : Option String}
    (hdocuments : first.undescribed = second.undescribed)
    (hpatterns : ∀ root other, Schema.read first = .ok root → Schema.read second = .ok other →
      Schema.PatternsAlike root other) (session another : Formatter.Session) :
    Agree (fun text other => undocumented text.toList = undocumented other.toList)
      (generate ⟨first, rootName, {}⟩ session).1.outcome
      (generate ⟨second, rootName, {}⟩ another).1.outcome := by
  rw [outcome_generate rfl rfl, outcome_generate rfl rfl, write, write]
  have hanalyze : Agree Program.SameUndescribed (analyze ⟨first, rootName, {}⟩).outcome
      (analyze ⟨second, rootName, {}⟩).outcome := by
    refine Traced.agree_bind (Schema.agree_read hdocuments).values ?_
    rintro root other ⟨hroot, hother, hsame⟩
    exact @Document.agree_expand ⟨root, rootName⟩ ⟨other, rootName⟩ rfl hsame
      (hpatterns root other hroot hother) true
  refine Traced.agree_bind hanalyze.values ?_
  rintro program other ⟨hprogram, hother, hdeclarations, hneeds⟩
  obtain ⟨root, -, hprogram⟩ := analyze_eq_ok.mp hprogram
  obtain ⟨otherRoot, -, hother⟩ := analyze_eq_ok.mp hother
  obtain ⟨text, otherText, htext, hotherText, hsame⟩ :=
    Rust.exists_write_undocumented Rust.tidy_style rfl
      (Document.legal_identifiers_of_expand hprogram)
      (Document.legal_identifiers_of_expand hother) hdeclarations program.needsOneOrMany
  rw [hneeds] at hotherText
  have hrender : (render {} program).outcome = .ok text :=
    Traced.outcome_bind_eq_ok.mpr ⟨text, htext, rfl⟩
  have hotherRender : (render {} other).outcome = .ok otherText :=
    Traced.outcome_bind_eq_ok.mpr ⟨otherText, hotherText, rfl⟩
  refine Traced.agree_bind (R := fun text other =>
    undocumented text.toList = undocumented other.toList) ?_ fun _ _ h => .ok h
  rw [hrender, hotherRender]
  exact .ok hsame

/-! ## A description that hides the pattern -/

/-- The member of a schema for its description, if it has one. -/
def describing (description : Option String) : List (String × Json) :=
  description.toList.map fun text => ("description", .str text)

/-- A document for a type whose field is a text or a list of texts. The descriptions are those of
the type, of the field and of the first alternative. -/
def textOrTexts (type field single : Option String) : Json :=
  .obj [("definitions", .obj [("a", .obj (describing type ++ [
    ("properties", .obj [("x", .obj (describing field ++ [
      ("anyOf", .arr [
        .obj (("type", .str "string") :: describing single),
        .obj [("type", .str "array"), ("items", .obj [("type", .str "string")])]])]))])]))])]

/-- The first alternative. -/
def textSchema (single : Option String) : Schema where
  types := [.string]
  description := single
  location := "#/definitions/a/properties/x/anyOf/0"

/-- The items of the second alternative. -/
def itemSchema : Schema where
  types := [.string]
  location := "#/definitions/a/properties/x/anyOf/1/items"

/-- The second alternative. -/
def textsSchema : Schema where
  types := [.array]
  items := [itemSchema]
  location := "#/definitions/a/properties/x/anyOf/1"

/-- The schema of the field. -/
def choiceSchema (field single : Option String) : Schema where
  anyOf := [textSchema single, textsSchema]
  description := field
  location := "#/definitions/a/properties/x"

/-- The schema of the type. -/
def holderSchema (type field single : Option String) : Schema where
  properties := [("x", choiceSchema field single)]
  description := type
  location := "#/definitions/a"

/-- The schema of the document. -/
def textOrTextsSchema (type field single : Option String) : Schema where
  definitions := [("a", holderSchema type field single)]

theorem read_textOrTexts (type field single : Option String) :
    Schema.read (textOrTexts type field single) = .ok (textOrTextsSchema type field single) := by
  cases type <;> cases field <;> cases single <;> rfl

theorem undescribed_textOrTexts (type field single : Option String) :
    (textOrTexts type field single).undescribed = textOrTexts none none none := by
  cases type <;> cases field <;> cases single <;> rfl

/-- Without a description of the first alternative the pattern is found. -/
theorem patternsAlike_textOrTexts (type field type' field' : Option String) :
    Schema.PatternsAlike (textOrTextsSchema type field none)
      (textOrTextsSchema type' field' none) := by
  intro a b h single several single' several' hfirst hsecond
  have hroot : Schema.heldBeside (textOrTextsSchema type field none)
      (textOrTextsSchema type' field' none)
        = [(holderSchema type field none, holderSchema type' field' none)] := rfl
  have hholder : Schema.heldBeside (holderSchema type field none) (holderSchema type' field' none)
        = [(choiceSchema field none, choiceSchema field' none)] := rfl
  have hchoice : Schema.heldBeside (choiceSchema field none) (choiceSchema field' none)
        = [(textSchema none, textSchema none), (textsSchema, textsSchema)] := rfl
  have htext : Schema.heldBeside (textSchema none) (textSchema none) = [] := rfl
  have htexts : Schema.heldBeside textsSchema textsSchema = [(itemSchema, itemSchema)] := rfl
  have hitem : Schema.heldBeside itemSchema itemSchema = [] := rfl
  have hplace : (a, b) ∈ [
      (textOrTextsSchema type field none, textOrTextsSchema type' field' none),
      (holderSchema type field none, holderSchema type' field' none),
      (choiceSchema field none, choiceSchema field' none),
      (textSchema none, textSchema none), (textsSchema, textsSchema), (itemSchema, itemSchema)] :=
    h.mem_of_closed List.mem_cons_self
      (by simp [hroot, hholder, hchoice, htext, htexts, hitem, or_imp, forall_and])
  simp only [List.mem_cons, List.not_mem_nil, or_false, Prod.mk.injEq] at hplace
  rcases hplace with ⟨rfl, rfl⟩ | ⟨rfl, rfl⟩ | ⟨rfl, rfl⟩ | ⟨rfl, rfl⟩ | ⟨rfl, rfl⟩ | ⟨rfl, rfl⟩
  case inr.inr.inl =>
    cases hfirst
    cases hsecond
    have hfound : ∀ type field, Document.isOneOrMany (textOrTextsSchema type field none)
        (textSchema none) textsSchema = .ok true := by
      intro type field
      cbv
    rw [hfound, hfound]
    exact .ok rfl
  all_goals cases hfirst

/-- The program for the document, where the pattern is found. -/
def oneOrManyProgram (type field : Option String) : Program where
  rootName := none
  declarations := [.struct {
    name := "A"
    sourceName := "a"
    fields := [{
      name := "x"
      sourceName := "x"
      type := .oneOrMany (.primitive "String")
      hasDefault := true
      description := field }]
    rename := some "a"
    description := type }]
  needsOneOrMany := true

/-- The program for the document, where a description hides the pattern. -/
def anyProgram (type field : Option String) : Program where
  rootName := none
  declarations := [.struct {
    name := "A"
    sourceName := "a"
    fields := [{
      name := "x"
      sourceName := "x"
      type := .optional .any
      description := field }]
    isDefault := true
    rename := some "a"
    description := type }]
  needsOneOrMany := false

theorem analyze_textOrTexts (type field : Option String) :
    (analyze ⟨textOrTexts type field none, none, {}⟩).outcome
        = .ok (oneOrManyProgram type field) ∧
      ∀ text, (analyze ⟨textOrTexts type field (some text), none, {}⟩).outcome
        = .ok (anyProgram type field) := by
  have hfound : (Document.expand ⟨textOrTextsSchema type field none, none⟩ true).outcome
      = .ok (oneOrManyProgram type field) := by cbv
  have hhidden : ∀ text, (Document.expand ⟨textOrTextsSchema type field (some text), none⟩
      true).outcome = .ok (anyProgram type field) := by
    intro text
    cbv
  exact ⟨analyze_eq_ok.mpr ⟨_, read_textOrTexts _ _ _, hfound⟩,
    fun text => analyze_eq_ok.mpr ⟨_, read_textOrTexts _ _ _, hhidden text⟩⟩

/-- In the default settings source text is generated of every program, and its lines are those of
the sections. -/
theorem exists_generate {document : Json} {rootName : Option String} {program : Program}
    (h : (analyze ⟨document, rootName, {}⟩).outcome = .ok program) (session : Formatter.Session) :
    ∃ blocks text, program.declarations.mapM ({} : Settings).style.declarationLines = .ok blocks ∧
      (generate ⟨document, rootName, {}⟩ session).1.outcome = .ok text ∧
      undocumented text.toList
        = ((Rust.spaced (({} : Settings).style.opening program.needsOneOrMany ++ blocks)).filter
            Rust.isCode).map String.toList ++ [[]] := by
  obtain ⟨blocks, hblocks, -⟩ := Rust.exists_blocks Rust.tidy_style.complete program.declarations
  obtain ⟨_, -, hexpand⟩ := analyze_eq_ok.mp h
  obtain ⟨hlines, hended⟩ := Rust.toList_sourceText_blocks Rust.tidy_style rfl
    (Document.legal_identifiers_of_expand hexpand) hblocks program.needsOneOrMany
  refine ⟨blocks, _, hblocks, ?_, by rw [hended, Rust.undocumented_ended hlines]⟩
  rw [outcome_generate rfl rfl]
  exact write_eq_ok.mpr ⟨program, blocks, h, hblocks, rfl⟩

theorem agree_generate_undocumented_textOrTexts :
    let first := textOrTexts (some "Where to go.") (some "Stops.") none
    let second := textOrTexts none none none
    first.undescribed = second.undescribed ∧
      (∀ root other, Schema.read first = .ok root → Schema.read second = .ok other →
        Schema.PatternsAlike root other) ∧
      ∃ text other, (generate ⟨first, none, {}⟩ {}).1.outcome = .ok text ∧
        (generate ⟨second, none, {}⟩ {}).1.outcome = .ok other ∧
        undocumented text.toList = undocumented other.toList := by
  intro first second
  have hdocuments : first.undescribed = second.undescribed := by
    rw [undescribed_textOrTexts, undescribed_textOrTexts]
  have hpatterns : ∀ root other, Schema.read first = .ok root → Schema.read second = .ok other →
      Schema.PatternsAlike root other := by
    intro root other hroot hother
    cases (read_textOrTexts _ _ _).symm.trans hroot
    cases (read_textOrTexts _ _ _).symm.trans hother
    exact patternsAlike_textOrTexts _ _ _ _
  obtain ⟨-, text, -, htext, -⟩ := exists_generate (analyze_textOrTexts _ _).1 {}
  obtain ⟨other, hother, hsame⟩ :=
    (agree_generate_undocumented hdocuments hpatterns {} {}).exists_ok htext
  exact ⟨hdocuments, hpatterns, text, other, htext, hother, hsame⟩

/-- The lines of the declaration with a field for one or many texts. -/
def oneOrManyBlocks : List (List String) := [
  ["#[derive(Clone, PartialEq, Debug, Deserialize, Serialize)]", "#[serde(rename = \"a\")]",
    "pub struct A \x7b", "    #[serde(default)]", "    pub x: OneOrMany<String>,", "\x7d"]]

/-- The lines of the declaration with a field for any value. -/
def anyBlocks : List (List String) := [
  ["#[derive(Clone, PartialEq, Debug, Default, Deserialize, Serialize)]",
    "#[serde(rename = \"a\")]", "pub struct A \x7b", "    pub x: Option<serde_json::Value>,",
    "\x7d"]]

/-- A description of the first alternative alone makes a field for any value of a field for one or
many texts. -/
theorem not_undocumented_describedAlternative :
    let first := textOrTexts none none (some "One.")
    let second := textOrTexts none none none
    first.undescribed = second.undescribed ∧
      ∃ text other, (generate ⟨first, none, {}⟩ {}).1.outcome = .ok text ∧
        (generate ⟨second, none, {}⟩ {}).1.outcome = .ok other ∧
        undocumented text.toList ≠ undocumented other.toList := by
  intro first second
  have hdocuments : first.undescribed = second.undescribed := by
    rw [undescribed_textOrTexts, undescribed_textOrTexts]
  obtain ⟨blocks, text, hblocks, htext, hcode⟩ :=
    exists_generate ((analyze_textOrTexts none none).2 "One.") {}
  obtain ⟨others, other, hothers, hother, hotherCode⟩ :=
    exists_generate (analyze_textOrTexts none none).1 {}
  have hany : (anyProgram none none).declarations.mapM
      ({} : Settings).style.declarationLines = .ok anyBlocks := by cbv
  have hmany : (oneOrManyProgram none none).declarations.mapM
      ({} : Settings).style.declarationLines = .ok oneOrManyBlocks := by cbv
  obtain rfl := Except.ok.inj (hblocks.symm.trans hany)
  obtain rfl := Except.ok.inj (hothers.symm.trans hmany)
  refine ⟨hdocuments, text, other, htext, hother, fun hsame => ?_⟩
  -- the line of the field is there without the description only
  have hfield : "    pub x: OneOrMany<String>,".toList ∈ undocumented other.toList := by
    rw [hotherCode]
    exact List.mem_append_left _ (List.mem_map_of_mem (by decide +kernel))
  have hnone : "    pub x: OneOrMany<String>," ∉ Rust.spaced
      (({} : Settings).style.opening (anyProgram none none).needsOneOrMany ++ anyBlocks) := by
    decide +kernel
  rw [← hsame, hcode, List.mem_append, List.mem_map] at hfield
  rcases hfield with ⟨line, hline, heq⟩ | hempty
  · rw [String.toList_inj] at heq
    exact hnone (heq ▸ (List.mem_filter.mp hline).1)
  · exact absurd hempty (by decide)

end Request

end SchemaForge
