import SchemaForge.Proofs.AcceptedSource

/-! # The forms of written lines

Every line of a declaration has one of nine forms. None of them holds a line feed, whatever the
document calls its properties and says in its descriptions, so the lines of a source are again the
lines that were written.
-/

namespace SchemaForge

namespace Rust

open Output

/-- Text without a line feed. -/
def OneLine (text : String) : Prop := '\n' ∉ text.toList

instance (text : String) : Decidable (OneLine text) := inferInstanceAs (Decidable (_ ∉ _))

/-- Stated for a text that is known by its characters, as every literal is. -/
theorem oneLine_ofList {text : List Char} (h : text.all (· ≠ '\n') = true) :
    OneLine (String.ofList text) := by
  intro hmem
  rw [String.toList_ofList] at hmem
  exact of_decide_eq_true (List.all_eq_true.mp h _ hmem) rfl

theorem OneLine.append {text more : String} (h : OneLine text) (hmore : OneLine more) :
    OneLine (text ++ more) := by
  rw [OneLine, String.toList_append, List.mem_append, not_or]
  exact ⟨h, hmore⟩

theorem ended_line (line : String) (rest : List String) :
    ended (line :: rest) = line.toList ++ '\n' :: ended rest := by
  rw [ended, List.flatMap_cons, ← ended, List.append_assoc]
  rfl

/-- Split at line feeds, ended lines are the lines again and nothing after them. -/
theorem splitOn_ended {lines : List String} (h : ∀ line ∈ lines, OneLine line) :
    (ended lines).splitOn '\n' = lines.map String.toList ++ [[]] := by
  induction lines with
  | nil => rfl
  | cons line rest ih =>
    rw [List.forall_mem_cons] at h
    rw [ended_line, List.splitOn_append_cons_self_of_not_mem h.1, ih h.2]
    rfl

theorem oneLine_of_legal {name : String} (h : Legal name) : OneLine name := by
  obtain ⟨first, rest, hname, hfirst, hrest⟩ := h.spelled
  intro hmem
  rw [hname, List.mem_cons] at hmem
  rcases hmem with rfl | hmore
  · exact absurd hfirst (by decide)
  · exact absurd (hrest _ hmore) (by decide)

theorem oneLine_of_commentLine {indent line : String} (hindent : OneLine indent)
    (h : CommentLine indent line) : OneLine line := by
  obtain ⟨rest, hline, hrest⟩ := h
  have hmark : '\n' ∉ DocComment.mark := by decide
  have hends : '\n' ∉ rest := fun hmem => absurd (hrest _ hmem) (by decide)
  rw [OneLine, hline, List.mem_append, List.mem_append, not_or, not_or]
  exact ⟨⟨hindent, hmark⟩, hends⟩

theorem oneLine_encode (text : List Char) : OneLine (String.ofList (Literal.encode text)) := by
  intro hmem
  rw [String.toList_ofList] at hmem
  exact (Literal.not_lineBreak_of_mem_encode hmem).1 rfl

/-- A style that can write every declaration and whose own parts of a line hold no line feed. -/
structure Style.Tidy (style : Style) : Prop where
  lineLength : ∃ width, style.lineLength = .columns width
  mapType : OneLine style.mapType
  deriveLine : ∀ further ∈ [[], ["Default"]], ∃ line,
    style.deriveLine further = .ok line ∧ OneLine line

theorem oneLine_typeText {style : Style} (hmap : OneLine style.mapType) {type : Ty}
    (h : ∀ name ∈ type.names, Legal name) : OneLine (style.typeText type) := by
  induction type with
  | primitive name => exact oneLine_of_legal (h name List.mem_cons_self)
  | named name => exact oneLine_of_legal (h name List.mem_cons_self)
  | any => exact (by decide : OneLine "serde_json::Value")
  | array item ih => exact ((by decide : OneLine "Vec<").append (ih h)).append (by decide)
  | map value ih =>
    exact ((hmap.append (by decide : OneLine "<String, ")).append (ih h)).append (by decide)
  | optional content ih =>
    exact ((by decide : OneLine "Option<").append (ih h)).append (by decide)
  | boxed content ih => exact ((by decide : OneLine "Box<").append (ih h)).append (by decide)
  | oneOrMany item ih =>
    exact ((by decide : OneLine "OneOrMany<").append (ih h)).append (by decide)

/-- The forms of the lines that declarations with legal names are written in. -/
inductive LineForm (style : Style) : String → Prop
  | comment {indent line : String} (hindent : indent ∈ ["", Style.indent])
      (h : CommentLine indent line) : LineForm style line
  | derived {further : List String} {line : String} (hfurther : further ∈ [[], ["Default"]])
      (h : style.deriveLine further = .ok line) : LineForm style line
  | renamed {indent : String} (hindent : indent ∈ ["", Style.indent]) (name : String) :
      LineForm style (indent ++ "#[serde(rename = " ++ String.ofList (Literal.encode name.toList)
        ++ ")]")
  | default : LineForm style (Style.indent ++ "#[serde(default)]")
  | head {keyword name : String} (hkeyword : keyword ∈ ["pub struct ", "pub enum "])
      (hname : Legal name) : LineForm style (keyword ++ name ++ " \x7b")
  | field {name : String} {type : Ty} (hname : Legal name)
      (htype : ∀ other ∈ type.names, Legal other) :
      LineForm style (Style.indent ++ "pub " ++ name ++ ": " ++ style.typeText type ++ ",")
  | variant {name : String} (hname : Legal name) : LineForm style (Style.indent ++ name ++ ",")
  | synonym {name : String} {target : Ty} (hname : Legal name)
      (htarget : ∀ other ∈ target.names, Legal other) :
      LineForm style ("pub type " ++ name ++ " = " ++ style.typeText target ++ ";")
  | closing : LineForm style "\x7d"

theorem oneLine_of_mem_indents {indent : String} (h : indent ∈ ["", Style.indent]) :
    OneLine indent :=
  (by decide : ∀ indent ∈ ["", Style.indent], OneLine indent) indent h

/-- No form of line holds a line feed. -/
theorem LineForm.oneLine {style : Style} (hstyle : style.Tidy) {line : String}
    (h : LineForm style line) : OneLine line := by
  cases h with
  | comment hindent h => exact oneLine_of_commentLine (oneLine_of_mem_indents hindent) h
  | derived hfurther h =>
    obtain ⟨written, hwritten, hone⟩ := hstyle.deriveLine _ hfurther
    rwa [Except.ok.inj (h.symm.trans hwritten)]
  | renamed hindent name =>
    exact (((oneLine_of_mem_indents hindent).append (by decide)).append
      (oneLine_encode name.toList)).append (by decide)
  | default => decide
  | head hkeyword hname =>
    have hone : ∀ keyword ∈ ["pub struct ", "pub enum "], OneLine keyword := by decide
    exact ((hone _ hkeyword).append (oneLine_of_legal hname)).append (by decide)
  | field hname htype =>
    exact ((((by decide : OneLine (Style.indent ++ "pub ")).append (oneLine_of_legal hname)).append
      (by decide)).append (oneLine_typeText hstyle.mapType htype)).append (by decide)
  | variant hname =>
    exact ((by decide : OneLine Style.indent).append (oneLine_of_legal hname)).append (by decide)
  | synonym hname htarget =>
    exact ((((by decide : OneLine "pub type ").append (oneLine_of_legal hname)).append
      (by decide)).append (oneLine_typeText hstyle.mapType htarget)).append (by decide)
  | closing => decide

/-! ## Declarations are written in these forms -/

section

variable {style : Style}

theorem lineForm_of_docLines {indent : String} (hindent : indent ∈ ["", Style.indent])
    {description : Option String} {lines : List String}
    (h : style.docLines indent description = .ok lines) :
    ∀ line ∈ lines, LineForm style line :=
  fun line hline => .comment hindent (commentLine_of_docLines h line hline)

theorem lineForm_renameLines {indent : String} (hindent : indent ∈ ["", Style.indent])
    (rename : Option String) : ∀ line ∈ Style.renameLines indent rename, LineForm style line := by
  rcases Style.renameLines_cases indent rename with ⟨hnil, -⟩ | ⟨name, -, -, hlines⟩
  · rw [hnil]
    exact fun line hline => absurd hline List.not_mem_nil
  · rw [hlines, List.forall_mem_singleton]
    exact .renamed hindent name

theorem lineForm_of_fieldLines {field : Field} {lines : List String} (hname : Legal field.name)
    (htype : ∀ name ∈ field.type.names, Legal name) (h : style.fieldLines field = .ok lines) :
    ∀ line ∈ lines, LineForm style line := by
  obtain ⟨doc, hdoc, rfl⟩ := Style.fieldLines_eq_ok h
  have hindent : Style.indent ∈ ["", Style.indent] := List.mem_cons_of_mem _ List.mem_cons_self
  have hdefault : ∀ line ∈ (if field.hasDefault then [Style.indent ++ "#[serde(default)]"] else []),
      LineForm style line := by
    split
    · rw [List.forall_mem_singleton]
      exact .default
    · exact fun line hline => absurd hline List.not_mem_nil
  simp only [List.forall_mem_append, List.forall_mem_singleton]
  exact ⟨⟨⟨lineForm_of_docLines hindent hdoc, hdefault⟩, lineForm_renameLines hindent _⟩,
    .field hname htype⟩

theorem lineForm_variantLines {variant : Variant} (hname : Legal variant.name) :
    ∀ line ∈ Style.variantLines variant, LineForm style line := by
  have hindent : Style.indent ∈ ["", Style.indent] := List.mem_cons_of_mem _ List.mem_cons_self
  rw [Style.variantLines, List.forall_mem_append, List.forall_mem_singleton]
  exact ⟨lineForm_renameLines hindent _, .variant hname⟩

/-- The lines of a declaration with a body: what stands in front, its head, the body and the
closing brace. -/
theorem lineForm_block {doc further body : List String} {derived keyword name : String}
    {description rename : Option String} (hfurther : further ∈ [[], ["Default"]])
    (hderived : style.deriveLine further = .ok derived)
    (hdoc : style.docLines "" description = .ok doc)
    (hkeyword : keyword ∈ ["pub struct ", "pub enum "]) (hname : Legal name)
    (hbody : ∀ line ∈ body, LineForm style line) :
    ∀ line ∈ doc ++ [derived] ++ Style.renameLines "" rename ++ [keyword ++ name ++ " \x7b"]
      ++ body ++ ["\x7d"], LineForm style line := by
  have hindent : "" ∈ ["", Style.indent] := List.mem_cons_self
  simp only [List.forall_mem_append, List.forall_mem_singleton]
  exact ⟨⟨⟨⟨⟨lineForm_of_docLines hindent hdoc, .derived hfurther hderived⟩,
    lineForm_renameLines hindent _⟩, .head hkeyword hname⟩, hbody⟩, .closing⟩

/-- Every line of a declaration with legal names has one of the forms. -/
theorem lineForm_of_declarationLines {declaration : Declaration} {lines : List String}
    (hlegal : ∀ name ∈ declaration.identifiers, Legal name)
    (h : style.declarationLines declaration = .ok lines) :
    ∀ line ∈ lines, LineForm style line := by
  cases declaration with
  | struct declared =>
    obtain ⟨fields, derived, doc, hfields, hderived, hdoc, rfl⟩ := Style.structLines_eq_ok h
    rw [Declaration.identifiers, List.forall_mem_cons] at hlegal
    obtain ⟨hname, hmembers⟩ := hlegal
    have hfurther : (if declared.isDefault then ["Default"] else []) ∈ [[], ["Default"]] := by
      split <;> simp
    -- the body is made of the lines of the fields
    refine lineForm_block hfurther hderived hdoc List.mem_cons_self hname ?_
    intro line hline
    obtain ⟨block, hblock, hline⟩ := List.mem_flatten.mp hline
    obtain ⟨field, hfield, hwritten⟩ := exists_mem_left_of_forall₂ (mapM_eq_ok.mp hfields) hblock
    have hnames : ∀ name ∈ field.name :: field.type.names, Legal name :=
      fun name hmem => hmembers name (List.mem_flatMap.mpr ⟨field, hfield, hmem⟩)
    rw [List.forall_mem_cons] at hnames
    exact lineForm_of_fieldLines hnames.1 hnames.2 hwritten line hline
  | enum declared =>
    obtain ⟨derived, doc, hderived, hdoc, rfl⟩ := Style.enumLines_eq_ok h
    rw [Declaration.identifiers, List.forall_mem_cons] at hlegal
    obtain ⟨hname, hmembers⟩ := hlegal
    refine lineForm_block List.mem_cons_self hderived hdoc
      (List.mem_cons_of_mem _ List.mem_cons_self) hname ?_
    intro line hline
    obtain ⟨variant, hvariant, hline⟩ := List.mem_flatMap.mp hline
    exact lineForm_variantLines (hmembers _ (List.mem_map_of_mem hvariant)) line hline
  | typeAlias declared =>
    obtain ⟨doc, hdoc, rfl⟩ := Style.aliasLines_eq_ok h
    rw [Declaration.identifiers, List.forall_mem_cons] at hlegal
    obtain ⟨hname, htarget⟩ := hlegal
    rw [List.forall_mem_append, List.forall_mem_singleton]
    exact ⟨lineForm_of_docLines List.mem_cons_self hdoc, .synonym hname htarget⟩

end

theorem ne_nil_of_declarationLines {style : Style} {declaration : Declaration}
    {lines : List String} (h : style.declarationLines declaration = .ok lines) : lines ≠ [] := by
  cases declaration with
  | struct declared =>
    obtain ⟨fields, derived, doc, -, -, -, rfl⟩ := Style.structLines_eq_ok h
    exact List.append_ne_nil_of_right_ne_nil _ (List.cons_ne_nil _ _)
  | enum declared =>
    obtain ⟨derived, doc, -, -, rfl⟩ := Style.enumLines_eq_ok h
    exact List.append_ne_nil_of_right_ne_nil _ (List.cons_ne_nil _ _)
  | typeAlias declared =>
    obtain ⟨doc, -, rfl⟩ := Style.aliasLines_eq_ok h
    exact List.append_ne_nil_of_right_ne_nil _ (List.cons_ne_nil _ _)

/-- Nor do the lines in front of the declarations hold a line feed. -/
theorem oneLine_opening (style : Style) (oneOrMany : Bool) :
    ∀ lines ∈ style.opening oneOrMany, ∀ line ∈ lines, OneLine line := by
  have hannouncement : ∀ line ∈ Style.announcement, OneLine line :=
    List.forall_mem_singleton.mpr (oneLine_ofList (by decide))
  have himport : ∀ line ∈ Style.serdeImport, OneLine line :=
    List.forall_mem_singleton.mpr (oneLine_ofList (by decide))
  have hhelper : ∀ line ∈ Style.oneOrManyHelper, OneLine line := by
    repeat refine List.forall_mem_cons.mpr ⟨oneLine_ofList (by decide), ?_⟩
    exact fun line hline => absurd hline List.not_mem_nil
  rw [Style.opening, List.forall_mem_append, List.forall_mem_append]
  refine ⟨⟨?_, ?_⟩, ?_⟩
  all_goals
    split
    · rw [List.forall_mem_singleton]
      assumption
    · exact fun lines hlines => absurd hlines List.not_mem_nil

/-- The lines of spaced sections hold no line feed when those of the sections do not. -/
theorem oneLine_of_mem_spaced {sections : List (List String)}
    (h : ∀ lines ∈ sections, ∀ line ∈ lines, OneLine line) :
    ∀ line ∈ spaced sections, OneLine line := by
  induction sections with
  | nil => exact fun line hline => absurd hline List.not_mem_nil
  | cons first rest ih =>
    rw [List.forall_mem_cons] at h
    cases rest with
    | nil => simpa [spaced] using h.1
    | cons second rest =>
      rw [spaced_cons_cons, List.forall_mem_append, List.forall_mem_append,
        List.forall_mem_singleton]
      exact ⟨h.1, by decide, ih h.2⟩

/-- The source text of declarations with legal names is the ended lines of its sections, none of
which holds a line feed. -/
theorem toList_sourceText_blocks {style : Style} (hstyle : style.Tidy) (hannounced : style.announced)
    {declarations : List Declaration}
    (hlegal : ∀ declaration ∈ declarations, ∀ name ∈ declaration.identifiers, Legal name)
    {blocks : List (List String)} (hblocks : declarations.mapM style.declarationLines = .ok blocks)
    (oneOrMany : Bool) :
    (∀ line ∈ spaced (style.opening oneOrMany ++ blocks), OneLine line) ∧
      (Style.sourceText (style.opening oneOrMany ++ blocks)).toList
        = ended (spaced (style.opening oneOrMany ++ blocks)) := by
  have hwritten : ∀ lines ∈ blocks, ∃ declaration ∈ declarations,
      style.declarationLines declaration = .ok lines :=
    fun lines hlines => exists_mem_left_of_forall₂ (mapM_eq_ok.mp hblocks) hlines
  constructor
  · apply oneLine_of_mem_spaced
    rw [List.forall_mem_append]
    refine ⟨oneLine_opening style oneOrMany, fun lines hlines line hline => ?_⟩
    obtain ⟨declaration, hmem, hdeclaration⟩ := hwritten lines hlines
    exact (lineForm_of_declarationLines (hlegal declaration hmem) hdeclaration line hline).oneLine
      hstyle
  · have hsome : style.opening oneOrMany ++ blocks ≠ [] := by
      rw [Style.opening, if_pos hannounced]
      exact List.cons_ne_nil _ _
    apply toList_sourceText hsome
    rw [List.forall_mem_append]
    refine ⟨fun lines hlines => (balanced_opening style oneOrMany lines hlines).1, ?_⟩
    intro lines hlines
    obtain ⟨declaration, -, hdeclaration⟩ := hwritten lines hlines
    exact ne_nil_of_declarationLines hdeclaration

/-! ## Every declaration is written -/

/-- A style in which nothing that a declaration may need is missing. -/
structure Style.Complete (style : Style) : Prop where
  lineLength : ∃ width, style.lineLength = .columns width
  derives : ∃ traits, style.derives = .ok traits

section

variable {style : Style}

theorem Style.Tidy.complete (hstyle : style.Tidy) : style.Complete where
  lineLength := hstyle.lineLength
  derives := by
    obtain ⟨line, hline, -⟩ := hstyle.deriveLine [] List.mem_cons_self
    obtain ⟨traits, htraits, -⟩ := bind_eq_ok.mp hline
    exact ⟨traits, htraits⟩

variable (hstyle : style.Complete)

include hstyle

theorem exists_docLines (indent : String) (description : Option String) :
    ∃ lines, style.docLines indent description = .ok lines := by
  obtain ⟨width, hwidth⟩ := hstyle.lineLength
  cases description with
  | none => exact ⟨[], rfl⟩
  | some text =>
    rw [Style.docLines, hwidth]
    split <;> exact ⟨_, rfl⟩

theorem exists_deriveLine (further : List String) :
    ∃ line, style.deriveLine further = .ok line := by
  obtain ⟨traits, htraits⟩ := hstyle.derives
  rw [Style.deriveLine, htraits]
  exact ⟨_, rfl⟩

theorem exists_fieldLines (field : Field) : ∃ lines, style.fieldLines field = .ok lines := by
  obtain ⟨doc, hdoc⟩ := exists_docLines hstyle Style.indent field.description
  rw [Style.fieldLines, hdoc]
  exact ⟨_, rfl⟩

theorem exists_declarationLines (declaration : Declaration) :
    ∃ lines, style.declarationLines declaration = .ok lines := by
  cases declaration with
  | struct declared =>
    obtain ⟨fields, hfields⟩ : ∃ fields, declared.fields.mapM style.fieldLines = .ok fields :=
      exists_mapM_eq_ok fun field _ => exists_fieldLines hstyle field
    obtain ⟨derived, hderived⟩ :=
      exists_deriveLine hstyle (if declared.isDefault then ["Default"] else [])
    obtain ⟨doc, hdoc⟩ := exists_docLines hstyle "" declared.description
    rw [Style.declarationLines, Style.structLines, hfields]
    simp only [hderived, hdoc]
    exact ⟨_, rfl⟩
  | enum declared =>
    obtain ⟨derived, hderived⟩ := exists_deriveLine hstyle []
    obtain ⟨doc, hdoc⟩ := exists_docLines hstyle "" declared.description
    rw [Style.declarationLines, Style.enumLines, hderived]
    simp only [hdoc]
    exact ⟨_, rfl⟩
  | typeAlias declared =>
    obtain ⟨doc, hdoc⟩ := exists_docLines hstyle "" declared.description
    rw [Style.declarationLines, Style.aliasLines, hdoc]
    exact ⟨_, rfl⟩

/-- All declarations are written, each as a block, and the blocks make the source text. -/
theorem exists_blocks (declarations : List Declaration) :
    ∃ blocks, declarations.mapM style.declarationLines = .ok blocks ∧
      ∀ oneOrMany, style.write declarations oneOrMany
        = .ok (Style.sourceText (style.opening oneOrMany ++ blocks)) := by
  obtain ⟨blocks, hblocks⟩ : ∃ blocks, declarations.mapM style.declarationLines = .ok blocks :=
    exists_mapM_eq_ok fun declaration _ => exists_declarationLines hstyle declaration
  refine ⟨blocks, hblocks, fun oneOrMany => ?_⟩
  rw [Style.write, Style.sections, hblocks]
  rfl

end

/-- The default style writes every declaration. -/
theorem tidy_style : ({} : Settings).style.Tidy where
  lineLength := ⟨100, rfl⟩
  mapType := by
    show OneLine "::std::collections::BTreeMap"
    decide
  deriveLine := by
    have hbare : ({} : Settings).style.deriveLine []
        = .ok "#[derive(Clone, PartialEq, Debug, Deserialize, Serialize)]" := by cbv
    have hdefault : ({} : Settings).style.deriveLine ["Default"]
        = .ok "#[derive(Clone, PartialEq, Debug, Default, Deserialize, Serialize)]" := by cbv
    rw [List.forall_mem_cons, List.forall_mem_singleton]
    exact ⟨⟨_, hbare, oneLine_ofList (by decide)⟩, ⟨_, hdefault, oneLine_ofList (by decide)⟩⟩

end Rust

end SchemaForge
