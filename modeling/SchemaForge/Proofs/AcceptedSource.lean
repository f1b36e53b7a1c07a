import SchemaForge.Proofs.BareCode
import SchemaForge.Proofs.DeliveryFaults
import SchemaForge.Proofs.LegalNames
import SchemaForge.Proofs.SerializedNames

/-! # Acceptance of generated source

Source text that is generated passes the check that is made before it is written, provided that
every comment closes the string literals it opens: names are legal and serialized names stand in
literals, so nothing else can disturb the reading of the text.
-/

namespace SchemaForge

namespace Rust

open Output

/-- Text without the characters that validation goes by. -/
def Inert (text : String) : Prop :=
  ∀ c ∈ text.toList, c ∉ ['\x22', '/', '\x7b', '\x7d']

instance (text : String) : Decidable (Inert text) := List.decidableBAll _ _

theorem inert_ofList {text : List Char} (h : text.all (· ∉ ['\x22', '/', '\x7b', '\x7d']) = true) :
    Inert (String.ofList text) := by
  intro c hc
  rw [String.toList_ofList] at hc
  exact of_decide_eq_true (List.all_eq_true.mp h c hc)

theorem Inert.append {text more : String} (h : Inert text) (hmore : Inert more) :
    Inert (text ++ more) := by
  intro c hc
  rw [String.toList_append] at hc
  exact (List.mem_append.mp hc).elim (h c) (hmore c)

theorem inert_of_legal {name : String} (h : Legal name) : Inert name := by
  have hchar : ∀ c, isIdentifierChar c = true → c ∉ ['\x22', '/', '\x7b', '\x7d'] := by
    intro c hc hmem
    simp only [List.mem_cons, List.not_mem_nil, or_false] at hmem
    rcases hmem with rfl | rfl | rfl | rfl <;> exact absurd hc (by decide)
  obtain ⟨first, rest, hname, hfirst, hrest⟩ := h.spelled
  intro c hc
  rw [hname] at hc
  rcases List.mem_cons.mp hc with rfl | hmore
  · refine hchar c ?_
    simp only [startsIdentifier, isIdentifierChar, Bool.or_eq_true] at hfirst ⊢
    rcases hfirst with hletter | hunderscore
    · exact Or.inl (Or.inl hletter)
    · exact Or.inr hunderscore
  · exact hchar c (hrest c hmore)

theorem Inert.not_mem {text : String} (h : Inert text) {c : Char}
    (hc : c ∈ ['\x22', '/', '\x7b', '\x7d']) : c ∉ text.toList :=
  fun hmem => h c hmem hc

theorem Inert.count_eq_zero {text : String} (h : Inert text) {c : Char}
    (hc : c ∈ ['\x22', '/', '\x7b', '\x7d']) : text.toList.count c = 0 :=
  List.count_eq_zero_of_not_mem (h.not_mem hc)

theorem braces_of_inert {line : String} (h : Inert line) : Braces [line] 0 0 := by
  have hmark : '\x22' ∉ line.toList := h.not_mem (by decide)
  have hline := (closed_of_not_mem hmark).braces
  rwa [bareCode_of_not_mem hmark (h.not_mem (by decide)), h.count_eq_zero (by decide),
    h.count_eq_zero (by decide)] at hline

section Head

variable {front : String} (h : Inert front)

include h

theorem not_mem_head : '\x22' ∉ (front ++ " \x7b").toList ∧ '/' ∉ (front ++ " \x7b").toList := by
  have hmark : '\x22' ∉ front.toList := h.not_mem (by decide)
  have hslash : '/' ∉ front.toList := h.not_mem (by decide)
  simp [hmark, hslash]

/-- The line that opens the body of a declaration. -/
theorem braces_head : Braces [front ++ " \x7b"] 1 0 := by
  obtain ⟨hmark, hslash⟩ := not_mem_head h
  have hline := (closed_of_not_mem hmark).braces
  rw [bareCode_of_not_mem hmark hslash, String.toList_append, List.count_append,
    List.count_append, h.count_eq_zero (by decide), h.count_eq_zero (by decide)] at hline
  exact hline

end Head

theorem braces_closing : Braces ["\x7d"] 0 1 := by
  have hmark : '\x22' ∉ "\x7d".toList := by decide
  have hline := (closed_of_not_mem hmark).braces
  rwa [bareCode_of_not_mem hmark (by decide)] at hline

/-- A serialized name is told without braces: the literal that holds it is emptied. -/
theorem braces_renameLines {indent : String} (hindent : Inert indent) (rename : Option String) :
    Braces (Style.renameLines indent rename) 0 0 := by
  rcases Style.renameLines_cases indent rename with ⟨hnil, -⟩ | ⟨name, -, -, hlines⟩
  · rw [hnil]
    exact braces_nil
  · have hfront : Inert (indent ++ "#[serde(rename = ") := hindent.append (by decide)
    have hback : Inert ")]" := by decide
    have hwritten : (indent ++ "#[serde(rename = " ++ String.ofList (Literal.encode name.toList)
        ++ ")]").toList = (indent ++ "#[serde(rename = ").toList
          ++ (Literal.encode name.toList ++ ")]".toList) := by
      simp only [String.toList_append, String.toList_ofList, List.append_assoc]
    have hclosed := closed_literal (hfront.not_mem (by decide)) (hback.not_mem (by decide))
      name.toList
    rw [← hwritten] at hclosed
    have hopened : (indent ++ "#[serde(rename = ").toList.count '\x7b' = 0 :=
      hfront.count_eq_zero (by decide)
    -- what the name itself holds is gone from the bare code, so only the front and the back count
    have hended : (indent ++ "#[serde(rename = ").toList.count '\x7d' = 0 :=
      hfront.count_eq_zero (by decide)
    have hline := hclosed.braces
    rw [hwritten, bareCode_literal ⟨hfront.not_mem (by decide), hfront.not_mem (by decide)⟩
      ⟨hback.not_mem (by decide), hback.not_mem (by decide)⟩] at hline
    simp only [List.count_append, hopened, hended] at hline
    rw [hlines]
    exact hline

/-! ## Declarations -/

/-- A style in which only comments and literals may hold what validation goes by. -/
structure Style.Plain (style : Style) : Prop where
  mapType : Inert style.mapType
  deriveLine : ∀ further ∈ [[], ["Default"]], ∀ derived,
    style.deriveLine further = .ok derived → Inert derived

/-- The descriptions that are written with a declaration, each with its indentation: its own, and
those of its fields. -/
def Declaration.descriptions : Declaration → List (String × Option String)
  | struct declared => ("", declared.description)
      :: declared.fields.map fun field => (Style.indent, field.description)
  | enum declared => [("", declared.description)]
  | typeAlias declared => [("", declared.description)]

/-- Every comment that is written with a declaration closes the string literals that it opens. -/
def Declaration.CommentsClosed (style : Style) (declaration : Declaration) : Prop :=
  ∀ written ∈ declaration.descriptions, ∀ lines,
    style.docLines written.1 written.2 = .ok lines → Closed ("\n".intercalate lines).toList

theorem braces_docLines {style : Style} {indent : String} {description : Option String}
    {lines : List String} (hindent : ∀ c ∈ indent.toList, c = ' ')
    (hclosed : ∀ written, style.docLines indent description = .ok written →
      Closed ("\n".intercalate written).toList)
    (h : style.docLines indent description = .ok lines) : Braces lines 0 0 :=
  braces_of_commentLine hindent (commentLine_of_docLines h) (hclosed lines h)

theorem inert_typeText {style : Style} (hmap : Inert style.mapType) {type : Ty}
    (h : ∀ name ∈ type.names, Legal name) : Inert (style.typeText type) := by
  induction type with
  | primitive name => exact inert_of_legal (h name List.mem_cons_self)
  | named name => exact inert_of_legal (h name List.mem_cons_self)
  | any =>
    show Inert "serde_json::Value"
    decide
  | array item ih => exact ((by decide : Inert "Vec<").append (ih h)).append (by decide)
  | map value ih =>
    exact ((hmap.append (by decide : Inert "<String, ")).append (ih h)).append (by decide)
  | optional content ih => exact ((by decide : Inert "Option<").append (ih h)).append (by decide)
  | boxed content ih => exact ((by decide : Inert "Box<").append (ih h)).append (by decide)
  | oneOrMany item ih => exact ((by decide : Inert "OneOrMany<").append (ih h)).append (by decide)

section Declared

variable {style : Style} (hstyle : style.Plain)

include hstyle

theorem braces_fieldLines {field : Field} {lines : List String} (hlegal : Legal field.name)
    (htype : ∀ name ∈ field.type.names, Legal name)
    (hclosed : ∀ written, style.docLines Style.indent field.description = .ok written →
      Closed ("\n".intercalate written).toList)
    (h : style.fieldLines field = .ok lines) : Braces lines 0 0 := by
  obtain ⟨doc, hdoc, rfl⟩ := Style.fieldLines_eq_ok h
  have hindent : Inert Style.indent := by decide
  have hcomment : Braces doc 0 0 := braces_docLines (by simp [Style.indent]) hclosed hdoc
  have hdefault : Braces (if field.hasDefault then [Style.indent ++ "#[serde(default)]"] else [])
      0 0 := by
    split
    · exact braces_of_inert (by decide)
    · exact braces_nil
  have hown : Inert (Style.indent ++ "pub " ++ field.name ++ ": " ++ style.typeText field.type
      ++ ",") :=
    ((((hindent.append (by decide)).append (inert_of_legal hlegal)).append (by decide)).append
      (inert_typeText hstyle.mapType htype)).append (by decide)
  exact ((hcomment.append hdefault).append (braces_renameLines hindent field.rename)).append
    (braces_of_inert hown)

end Declared

theorem braces_variantLines {variant : Variant} (hlegal : Legal variant.name) :
    Braces (Style.variantLines variant) 0 0 := by
  have hindent : Inert Style.indent := by decide
  have hown : Inert (Style.indent ++ variant.name ++ ",") :=
    (hindent.append (inert_of_legal hlegal)).append (by decide)
  exact (braces_renameLines hindent variant.rename).append (braces_of_inert hown)

/-- A declaration with a body: the lines in front, its head, the body and the closing brace. -/
theorem balanced_declares_block {front body : List String} {head name : String}
    (hfront : Braces front 0 0) (hhead : head.toList ∈ declarationHeads) (hinert : Inert head)
    (hlegal : Legal name) (hbody : Braces body 0 0) :
    InBalance (front ++ [head ++ name ++ " \x7b"] ++ body ++ ["\x7d"]) ∧
      Declares (front ++ [head ++ name ++ " \x7b"] ++ body ++ ["\x7d"]) := by
  have hname : Inert (head ++ name) := hinert.append (inert_of_legal hlegal)
  have hopening := hfront.append (braces_head hname)
  have hinside := hopening.append hbody
  obtain ⟨hmark, hslash⟩ := not_mem_head hname
  have hbegins : head.toList <+: (head ++ name ++ " \x7b").toList := by
    simp only [String.toList_append, List.append_assoc]
    exact List.prefix_append _ _
  have hdeclares := (declares_line hhead hbegins hmark hslash).append_left hfront.separate
  have hblock : Braces (front ++ [head ++ name ++ " \x7b"] ++ body ++ ["\x7d"]) 1 1 :=
    hinside.append braces_closing
  refine ⟨hblock.inBalance, ?_⟩
  exact (hdeclares.append_right hopening.separate body).append_right hinside.separate _

section Declared

variable {style : Style} (hstyle : style.Plain)

include hstyle

theorem braces_front {doc further : List String} {derived : String}
    {description : Option String} (rename : Option String) (hfurther : further ∈ [[], ["Default"]])
    (hderived : style.deriveLine further = .ok derived)
    (hclosed : ∀ written, style.docLines "" description = .ok written →
      Closed ("\n".intercalate written).toList)
    (hdoc : style.docLines "" description = .ok doc) :
    Braces (doc ++ [derived] ++ Style.renameLines "" rename) 0 0 := by
  have hcomment : Braces doc 0 0 := braces_docLines (by simp) hclosed hdoc
  have hattribute := braces_of_inert (hstyle.deriveLine further hfurther derived hderived)
  exact (hcomment.append hattribute).append (braces_renameLines (by decide) rename)

/-- The lines of a declaration with legal names are balanced and declare it. -/
theorem balanced_declares_of_declarationLines {declaration : Declaration} {lines : List String}
    (hlegal : ∀ name ∈ declaration.identifiers, Legal name)
    (hclosed : declaration.CommentsClosed style)
    (h : style.declarationLines declaration = .ok lines) : InBalance lines ∧ Declares lines := by
  cases declaration with
  | struct declared =>
    obtain ⟨fields, derived, doc, hfields, hderived, hdoc, rfl⟩ := Style.structLines_eq_ok h
    rw [Declaration.identifiers, List.forall_mem_cons] at hlegal
    obtain ⟨hname, hmembers⟩ := hlegal
    have hfurther : (if declared.isDefault then ["Default"] else []) ∈ [[], ["Default"]] := by
      split <;> simp
    have hfront := braces_front hstyle declared.rename hfurther hderived
      (hclosed ("", declared.description) List.mem_cons_self) hdoc
    have hbody : ∀ block ∈ fields, Braces block 0 0 := by
      intro block hblock
      obtain ⟨field, hfield, hwritten⟩ :=
        exists_mem_left_of_forall₂ (mapM_eq_ok.mp hfields) hblock
      have hnames : ∀ name ∈ field.name :: field.type.names, Legal name :=
        fun name hmem => hmembers name (List.mem_flatMap.mpr ⟨field, hfield, hmem⟩)
      rw [List.forall_mem_cons] at hnames
      exact braces_fieldLines hstyle hnames.1 hnames.2
        (hclosed (Style.indent, field.description)
          (List.mem_cons_of_mem _ (List.mem_map.mpr ⟨field, hfield, rfl⟩))) hwritten
    exact balanced_declares_block hfront (by decide) (by decide) hname (braces_flatten hbody)
  | enum declared =>
    obtain ⟨derived, doc, hderived, hdoc, rfl⟩ := Style.enumLines_eq_ok h
    rw [Declaration.identifiers, List.forall_mem_cons] at hlegal
    obtain ⟨hname, hmembers⟩ := hlegal
    have hfront := braces_front hstyle declared.rename List.mem_cons_self hderived
      (hclosed ("", declared.description) List.mem_cons_self) hdoc
    have hbody : ∀ block ∈ declared.variants.map Style.variantLines, Braces block 0 0 := by
      intro block hblock
      obtain ⟨variant, hvariant, rfl⟩ := List.mem_map.mp hblock
      exact braces_variantLines (hmembers _ (List.mem_map_of_mem hvariant))
    rw [List.flatMap_def]
    exact balanced_declares_block hfront (by decide) (by decide) hname (braces_flatten hbody)
  | typeAlias declared =>
    obtain ⟨doc, hdoc, rfl⟩ := Style.aliasLines_eq_ok h
    rw [Declaration.identifiers, List.forall_mem_cons] at hlegal
    obtain ⟨hname, htarget⟩ := hlegal
    have hcomment : Braces doc 0 0 :=
      braces_docLines (by simp) (hclosed ("", declared.description) List.mem_cons_self) hdoc
    have hline : Inert ("pub type " ++ declared.name ++ " = " ++ style.typeText declared.target
        ++ ";") :=
      ((((by decide : Inert "pub type ").append (inert_of_legal hname)).append (by decide)).append
        (inert_typeText hstyle.mapType htarget)).append (by decide)
    have hbegins : "pub type ".toList <+: ("pub type " ++ declared.name ++ " = "
        ++ style.typeText declared.target ++ ";").toList := by
      simp only [String.toList_append, List.append_assoc]
      exact List.prefix_append _ _
    refine ⟨(hcomment.append (braces_of_inert hline)).inBalance, ?_⟩
    exact (declares_line (by decide) hbegins (hline.not_mem (by decide))
      (hline.not_mem (by decide))).append_left hcomment.separate

end Declared

/-! ## Sections -/

/-- The lines of sections with an empty line between them. -/
def spaced (sections : List (List String)) : List String := (sections.intersperse [""]).flatten

theorem spaced_cons_cons (first second : List String) (rest : List (List String)) :
    spaced (first :: second :: rest) = first ++ ([""] ++ spaced (second :: rest)) := by
  simp [spaced]

theorem toList_sourceText {sections : List (List String)} (hsome : sections ≠ [])
    (hlines : ∀ lines ∈ sections, lines ≠ []) :
    (Style.sourceText sections).toList = ended (spaced sections) := by
  induction sections with
  | nil => exact absurd rfl hsome
  | cons first rest ih =>
    rw [List.forall_mem_cons] at hlines
    cases rest with
    | nil =>
      have hended := ended_eq_intercalate hlines.1
      simpa [Style.sourceText, spaced, String.intercalate_singleton] using hended.symm
    | cons second more =>
      have hrest := ih (List.cons_ne_nil _ _) hlines.2
      rw [spaced_cons_cons, ended_append, ended_append, ← hrest, ended_eq_intercalate hlines.1]
      simp [Style.sourceText, ended]

/-- Sections that are balanced make balanced text, which declares what one of them does. -/
theorem balanced_spaced {sections : List (List String)}
    (h : ∀ lines ∈ sections, InBalance lines) : InBalance (spaced sections) := by
  induction sections with
  | nil => exact braces_nil.inBalance
  | cons first rest ih =>
    rw [List.forall_mem_cons] at h
    cases rest with
    | nil => simpa [spaced] using h.1
    | cons second more =>
      rw [spaced_cons_cons]
      have hempty : InBalance [""] := (braces_of_inert (by decide)).inBalance
      exact h.1.append (hempty.append (ih h.2))

theorem declares_spaced {sections : List (List String)}
    (h : ∀ lines ∈ sections, InBalance lines) {lines : List String} (hmem : lines ∈ sections)
    (hdeclares : Declares lines) : Declares (spaced sections) := by
  induction sections with
  | nil => exact absurd hmem List.not_mem_nil
  | cons first rest ih =>
    rw [List.forall_mem_cons] at h
    cases rest with
    | nil =>
      rw [List.mem_singleton.mp hmem] at hdeclares
      simpa [spaced] using hdeclares
    | cons second more =>
      have hempty : Braces [""] 0 0 := braces_of_inert (by decide)
      rw [spaced_cons_cons]
      rcases List.mem_cons.mp hmem with rfl | hrest
      · exact hdeclares.append_right h.1.separate _
      · exact ((ih h.2 hrest).append_left hempty.separate).append_left h.1.separate

theorem balanced_announcement : InBalance Style.announcement :=
  balanced_of_not_mem (ended_cons ended_nil) (List.cons_ne_nil _ _) (by decide +kernel)

theorem balanced_serdeImport : InBalance Style.serdeImport :=
  balanced_of_not_mem (ended_cons ended_nil) (List.cons_ne_nil _ _) (by decide +kernel)

theorem balanced_oneOrManyHelper : InBalance Style.oneOrManyHelper := by
  apply balanced_of_not_mem
  case hended =>
    repeat apply ended_cons
    exact ended_nil
  case hsome => exact List.cons_ne_nil _ _
  case h => decide +kernel

theorem balanced_opening (style : Style) (oneOrMany : Bool) :
    ∀ lines ∈ style.opening oneOrMany, lines ≠ [] ∧ InBalance lines := by
  have hannouncement : Style.announcement ≠ [] ∧ InBalance Style.announcement :=
    ⟨by decide, balanced_announcement⟩
  have himport : Style.serdeImport ≠ [] ∧ InBalance Style.serdeImport :=
    ⟨by decide, balanced_serdeImport⟩
  have hhelper : Style.oneOrManyHelper ≠ [] ∧ InBalance Style.oneOrManyHelper :=
    ⟨by decide, balanced_oneOrManyHelper⟩
  intro lines hlines
  rcases List.mem_append.mp hlines with hfirst | hlast
  · rcases List.mem_append.mp hfirst with hfirst | hsecond
    · split at hfirst
      · rwa [List.mem_singleton.mp hfirst]
      · exact absurd hfirst List.not_mem_nil
    · split at hsecond
      · rwa [List.mem_singleton.mp hsecond]
      · exact absurd hsecond List.not_mem_nil
  · split at hlast
    · rwa [List.mem_singleton.mp hlast]
    · exact absurd hlast List.not_mem_nil

/-- The text of declarations with legal names is accepted, where their comments close the literals
they open. -/
theorem validate_sourceText {style : Style} (hstyle : style.Plain) {declarations : List Declaration}
    (hsome : declarations ≠ [])
    (hlegal : ∀ declaration ∈ declarations, ∀ name ∈ declaration.identifiers, Legal name)
    (hclosed : ∀ declaration ∈ declarations, declaration.CommentsClosed style)
    {blocks : List (List String)} (h : declarations.mapM style.declarationLines = .ok blocks)
    (oneOrMany : Bool) :
    validate (Style.sourceText (style.opening oneOrMany ++ blocks)) = .ok () := by
  have hpaired := mapM_eq_ok.mp h
  have hblocks : ∀ lines ∈ blocks, InBalance lines ∧ Declares lines := by
    intro lines hlines
    obtain ⟨declaration, hmem, hwritten⟩ := exists_mem_left_of_forall₂ hpaired hlines
    exact balanced_declares_of_declarationLines hstyle (hlegal declaration hmem)
      (hclosed declaration hmem) hwritten
  have hsections : ∀ lines ∈ style.opening oneOrMany ++ blocks, lines ≠ [] ∧ InBalance lines := by
    intro lines hlines
    rcases List.mem_append.mp hlines with hopening | hblock
    · exact balanced_opening style oneOrMany lines hopening
    · exact ⟨(hblocks lines hblock).2.ne_nil, (hblocks lines hblock).1⟩
  -- any declaration will do: the others and the opening sections are read on their own
  have hbalance : ∀ lines ∈ style.opening oneOrMany ++ blocks, InBalance lines :=
    fun lines hlines => (hsections lines hlines).2
  obtain ⟨declaration, hdeclaration⟩ := List.exists_mem_of_ne_nil _ hsome
  obtain ⟨block, hblock, -⟩ := exists_mem_right_of_forall₂ hpaired hdeclaration
  have hmem : block ∈ style.opening oneOrMany ++ blocks := List.mem_append_right _ hblock
  exact validate_eq_ok
    (toList_sourceText (List.ne_nil_of_mem hmem) fun lines hlines => (hsections lines hlines).1)
    (declares_spaced hbalance hmem (hblocks block hblock).2) (balanced_spaced hbalance)

/-- Nothing in the default style is taken for a literal, a comment or a brace. -/
theorem plain_style : ({} : Settings).style.Plain where
  mapType := by
    show Inert "::std::collections::BTreeMap"
    decide
  deriveLine := by
    intro further hfurther derived hderived
    have hbare : ({} : Settings).style.deriveLine []
        = .ok "#[derive(Clone, PartialEq, Debug, Deserialize, Serialize)]" := by cbv
    have hdefault : ({} : Settings).style.deriveLine ["Default"]
        = .ok "#[derive(Clone, PartialEq, Debug, Default, Deserialize, Serialize)]" := by cbv
    rw [List.mem_cons, List.mem_singleton] at hfurther
    rcases hfurther with rfl | rfl
    · rw [hbare, Except.ok.injEq] at hderived
      rw [← hderived]
      exact inert_ofList (by decide)
    · rw [hdefault, Except.ok.injEq] at hderived
      rw [← hderived]
      exact inert_ofList (by decide)

end Rust

namespace Request

open Rust Output

/-- With default settings, source text with a declaration is accepted by validation, and so it is
never refused where it is written, provided that each comment closes the string literals that it
opens. Whatever the properties and the enumerated texts are called makes no difference. -/
theorem accepted_of_generate {request : Request} {session : Formatter.Session} {text : String}
    {program : Program} (hsettings : request.settings = {})
    (h : (request.generate session).1.outcome = .ok text)
    (hprogram : request.analyze.outcome = .ok program) (hsome : program.declarations ≠ [])
    (hclosed : ∀ declaration ∈ program.declarations,
      declaration.CommentsClosed request.settings.style) :
    validate text = .ok () ∧ ∀ tree settings path,
      Unrefused (deliverAs tree settings path text).1.outcome := by
  have hget : request.settings.formatter.get "enabled" = .ok {} := by rw [hsettings]; rfl
  rw [outcome_generate hget rfl] at h
  obtain ⟨written, blocks, hanalyze, hblocks, rfl⟩ := write_eq_ok.mp h
  obtain rfl : program = written := Except.ok.inj (hprogram.symm.trans hanalyze)
  obtain ⟨root, -, hexpand⟩ := analyze_eq_ok.mp hprogram
  have hplain : request.settings.style.Plain := by
    rw [hsettings]
    exact plain_style
  have haccepted := validate_sourceText hplain hsome
    (Document.legal_identifiers_of_expand hexpand) hclosed hblocks program.needsOneOrMany
  exact ⟨haccepted, fun tree settings path => unrefused_deliverAs haccepted tree settings path⟩

theorem commentsClosed_tagsAndWays : ∀ declaration ∈ tagsAndWaysProgram.declarations,
    declaration.CommentsClosed tagsAndWays.settings.style := by
  have hnone : ∀ indent lines, tagsAndWays.settings.style.docLines indent none = .ok lines →
      Closed ("\n".intercalate lines).toList := by
    intro indent lines h
    cases h
    exact .nil
  have hkind : ∀ lines, tagsAndWays.settings.style.docLines Style.indent
      (some "Its \"\x7bkind\"") = .ok lines → Closed ("\n".intercalate lines).toList := by
    intro lines h
    have hlines : tagsAndWays.settings.style.docLines Style.indent (some "Its \"\x7bkind\"")
        = .ok ["    /// Its \"\x7bkind\""] := by cbv
    have htext : "    /// Its \"\x7bkind\"".toList
        = "    /// Its ".toList ++ (Literal.encode "\x7bkind".toList ++ []) := by decide +kernel
    rw [hlines, Except.ok.injEq] at h
    rw [← h, String.intercalate_singleton, htext]
    exact closed_literal (by decide) (by decide) _
  intro declaration hdeclaration written hwritten
  simp only [tagsAndWaysProgram, List.mem_cons, List.not_mem_nil, or_false] at hdeclaration
  rcases hdeclaration with rfl | rfl
  · simp only [Declaration.descriptions, List.map_cons, List.map_nil, List.mem_cons,
      List.not_mem_nil, or_false] at hwritten
    rcases hwritten with rfl | rfl | rfl | rfl
    · exact hnone _
    · exact hkind
    · exact hnone _
    · exact hnone _
  · simp only [Declaration.descriptions, List.mem_cons, List.not_mem_nil, or_false] at hwritten
    rw [hwritten]
    exact hnone _

theorem accepted_tagsAndWays :
    (tagsAndWays.generate {}).1.outcome = .ok tagsAndWaysText ∧
      tagsAndWays.analyze.outcome = .ok tagsAndWaysProgram ∧
      tagsAndWaysProgram.declarations ≠ [] ∧
      (∀ declaration ∈ tagsAndWaysProgram.declarations,
        declaration.CommentsClosed tagsAndWays.settings.style) ∧
      validate tagsAndWaysText = .ok () ∧ ∀ tree settings path,
        Unrefused (deliverAs tree settings path tagsAndWaysText).1.outcome := by
  have hsome : tagsAndWaysProgram.declarations ≠ [] := List.cons_ne_nil _ _
  exact ⟨generate_tagsAndWays, analyze_tagsAndWays, hsome, commentsClosed_tagsAndWays,
    accepted_of_generate rfl generate_tagsAndWays analyze_tagsAndWays hsome
      commentsClosed_tagsAndWays⟩

/-- A request for a struct whose description has a single quotation mark. -/
def sixInchesWide : Request where
  document := .obj [("definitions", .obj [
    ("a", .obj [
      ("description", .str "6\" wide"),
      ("properties", .obj [("c-d", .obj [("type", .str "string")])])])])]

/-- The document that is read from it. -/
def sixInchesWideDocument : Document where
  root := {
    definitions := [("a", {
      properties := [
        ("c-d", { types := [.string], location := "#/definitions/a/properties/c-d" })]
      description := some "6\" wide"
      location := "#/definitions/a" })]
    location := "#" }

/-- The program that is made of it. -/
def sixInchesWideProgram : Program where
  rootName := none
  declarations := [.struct {
    name := "A"
    sourceName := "a"
    fields := [{
      name := "c_d"
      sourceName := "c-d"
      type := .optional (.primitive "String")
      rename := some "c-d" }]
    isDefault := true
    rename := some "a"
    description := some "6\" wide" }]
  needsOneOrMany := false

/-- The lines of its declaration. -/
def sixInchesWideLines : List String :=
  ["/// 6\" wide", "#[derive(Clone, PartialEq, Debug, Default, Deserialize, Serialize)]",
    "#[serde(rename = \"a\")]", "pub struct A \x7b", "    #[serde(rename = \"c-d\")]",
    "    pub c_d: Option<String>,", "\x7d"]

/-- The source text for it. -/
def sixInchesWideText : String :=
  Style.sourceText [Style.announcement, Style.serdeImport, sixInchesWideLines]

theorem analyze_sixInchesWide : sixInchesWide.analyze.outcome = .ok sixInchesWideProgram := by
  have hread : Schema.read sixInchesWide.document = .ok sixInchesWideDocument.root := by cbv
  have hexpand : (sixInchesWideDocument.expand true).outcome = .ok sixInchesWideProgram := by cbv
  exact analyze_eq_ok.mpr ⟨_, hread, hexpand⟩

theorem generate_sixInchesWide :
    (sixInchesWide.generate {}).1.outcome = .ok sixInchesWideText := by
  have hblocks : sixInchesWideProgram.declarations.mapM
      sixInchesWide.settings.style.declarationLines = .ok [sixInchesWideLines] := by cbv
  have hget : sixInchesWide.settings.formatter.get "enabled" = .ok {} := rfl
  rw [outcome_generate hget rfl]
  exact write_eq_ok.mpr ⟨_, _, analyze_sixInchesWide, hblocks, rfl⟩

/-- The mark in the comment opens a literal that ends at the next mark, and so does every other
mark after it: the head of the declaration lies within one of them. -/
theorem validate_sixInchesWide : validate sixInchesWideText = .error .noDeclarations := by
  apply validate_eq_noDeclarations (toList_sourceText (by decide) (by decide))
  case hended =>
    repeat apply ended_cons
    exact ended_nil
  case hnone => decide +kernel

/-- Source text may be refused although it declares a struct. -/
theorem not_accepted_sixInchesWide :
    (sixInchesWide.generate {}).1.outcome = .ok sixInchesWideText ∧
      sixInchesWide.analyze.outcome = .ok sixInchesWideProgram ∧
      sixInchesWideProgram.declarations ≠ [] ∧
      validate sixInchesWideText = .error .noDeclarations ∧
      (deliverAs {} {} ⟨false, ["out.rs"]⟩ sixInchesWideText).1.outcome
        = .error (.invalidOutput .noDeclarations) := by
  refine ⟨generate_sixInchesWide, analyze_sixInchesWide, List.cons_ne_nil _ _,
    validate_sixInchesWide, ?_⟩
  have hfound : FileTree.locate {} ⟨false, ["out.rs"]⟩ = .ok ["out.rs"] := rfl
  have hfree : requireFree {} ⟨false, ["out.rs"]⟩ = .ok () := by
    rw [requireFree, FileTree.isTaken, hfound]
    rfl
  have hmade : FileTree.makeDirectories {} (Path.parent ⟨false, ["out.rs"]⟩) = (.ok [], {}) := rfl
  have hlocate : FileTree.locate {} (temporaryPath {} [] (Path.name ⟨false, ["out.rs"]⟩))
      = .ok [".out.rs.00000000.tmp"] := rfl
  have hcheck : runCheck (some validate) sixInchesWideText
      = .error (.invalidOutput .noDeclarations) := by
    rw [runCheck, validate_sixInchesWide]
    rfl
  rw [deliverAs_default, deliverNew_of_free hfree]
  exact outcome_deliver_of_refused hmade hlocate hcheck

end Request

end SchemaForge
