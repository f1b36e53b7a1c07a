import SchemaForge.Generation
import SchemaForge.Proofs.Inference

/-! # The lines of a source

The lines that each kind of declaration is written in, and the text of a request as the sections of
its program, where no formatter changes it.
-/

namespace SchemaForge

namespace Rust.Style

variable {style : Style} {lines : List String}

/-- A name that is carried is told, unless it is empty. -/
theorem renameLines_cases (indent : String) (rename : Option String) :
    renameLines indent rename = [] ∧ (rename = none ∨ rename = some "") ∨
      ∃ name, rename = some name ∧ name ≠ "" ∧ renameLines indent rename
        = [indent ++ "#[serde(rename = " ++ String.ofList (Literal.encode name.toList) ++ ")]"] := by
  cases rename with
  | none => exact Or.inl ⟨rfl, Or.inl rfl⟩
  | some name =>
    by_cases hempty : name = ""
    · left
      rw [hempty]
      exact ⟨rfl, Or.inr rfl⟩
    · right
      refine ⟨name, rfl, hempty, ?_⟩
      rw [renameLines, if_neg (by simpa using hempty)]

theorem fieldLines_eq_ok {field : Field} (h : style.fieldLines field = .ok lines) :
    ∃ doc, style.docLines indent field.description = .ok doc ∧
      lines = doc ++ (if field.hasDefault then [indent ++ "#[serde(default)]"] else [])
        ++ renameLines indent field.rename
        ++ [indent ++ "pub " ++ field.name ++ ": " ++ style.typeText field.type ++ ","] := by
  obtain ⟨doc, hdoc, h⟩ := bind_eq_ok.mp h
  cases h
  exact ⟨doc, hdoc, rfl⟩

theorem structLines_eq_ok {declared : Struct} (h : style.structLines declared = .ok lines) :
    ∃ fields derived doc, declared.fields.mapM style.fieldLines = .ok fields ∧
      style.deriveLine (if declared.isDefault then ["Default"] else []) = .ok derived ∧
      style.docLines "" declared.description = .ok doc ∧
      lines = doc ++ [derived] ++ renameLines "" declared.rename
        ++ ["pub struct " ++ declared.name ++ " \x7b"] ++ fields.flatten ++ ["\x7d"] := by
  obtain ⟨fields, hfields, h⟩ := bind_eq_ok.mp h
  obtain ⟨derived, hderived, h⟩ := bind_eq_ok.mp h
  obtain ⟨doc, hdoc, h⟩ := bind_eq_ok.mp h
  cases h
  exact ⟨fields, derived, doc, hfields, hderived, hdoc, rfl⟩

theorem enumLines_eq_ok {declared : Enum} (h : style.enumLines declared = .ok lines) :
    ∃ derived doc, style.deriveLine [] = .ok derived ∧
      style.docLines "" declared.description = .ok doc ∧
      lines = doc ++ [derived] ++ renameLines "" declared.rename
        ++ ["pub enum " ++ declared.name ++ " \x7b"] ++ declared.variants.flatMap variantLines
        ++ ["\x7d"] := by
  obtain ⟨derived, hderived, h⟩ := bind_eq_ok.mp h
  obtain ⟨doc, hdoc, h⟩ := bind_eq_ok.mp h
  cases h
  exact ⟨derived, doc, hderived, hdoc, rfl⟩

theorem aliasLines_eq_ok {declared : TypeAlias} (h : style.aliasLines declared = .ok lines) :
    ∃ doc, style.docLines "" declared.description = .ok doc ∧
      lines = doc
        ++ ["pub type " ++ declared.name ++ " = " ++ style.typeText declared.target ++ ";"] := by
  obtain ⟨doc, hdoc, h⟩ := bind_eq_ok.mp h
  cases h
  exact ⟨doc, hdoc, rfl⟩

end Rust.Style

namespace Request

/-- A program is expanded from the schema that is read. -/
theorem analyze_eq_ok {request : Request} {program : Program} :
    request.analyze.outcome = .ok program ↔ ∃ root, Schema.read request.document = .ok root ∧
      (Document.expand ⟨root, request.rootName⟩
        request.settings.breakReferenceCycles.isOn).outcome = .ok program :=
  Traced.outcome_bind_eq_ok

/-- Source text is written of the sections in front and of those of the declarations. -/
theorem write_eq_ok {request : Request} {text : String} :
    request.write.outcome = .ok text ↔
      ∃ program blocks, request.analyze.outcome = .ok program ∧
        program.declarations.mapM request.settings.style.declarationLines = .ok blocks ∧
        text = Rust.Style.sourceText
          (request.settings.style.opening program.needsOneOrMany ++ blocks) := by
  constructor
  · intro h
    obtain ⟨program, hanalyze, h⟩ := Traced.outcome_bind_eq_ok.mp h
    obtain ⟨code, hrender, h⟩ := Traced.outcome_bind_eq_ok.mp h
    obtain ⟨-, -, h⟩ := Traced.outcome_bind_eq_ok.mp h
    cases h
    obtain ⟨code, hwrite, h⟩ := Traced.outcome_bind_eq_ok.mp hrender
    obtain ⟨-, -, h⟩ := Traced.outcome_bind_eq_ok.mp h
    cases h
    obtain ⟨sections, hsections, hwrite⟩ := bind_eq_ok.mp hwrite
    cases hwrite
    obtain ⟨blocks, hblocks, hsections⟩ := bind_eq_ok.mp hsections
    cases hsections
    exact ⟨program, blocks, hanalyze, hblocks, rfl⟩
  · rintro ⟨program, blocks, hanalyze, hblocks, rfl⟩
    have hsections : request.settings.style.sections program.declarations program.needsOneOrMany
        = .ok (request.settings.style.opening program.needsOneOrMany ++ blocks) :=
      bind_eq_ok.mpr ⟨blocks, hblocks, rfl⟩
    have hwrite : request.settings.style.write program.declarations program.needsOneOrMany
        = .ok (Rust.Style.sourceText
          (request.settings.style.opening program.needsOneOrMany ++ blocks)) :=
      bind_eq_ok.mpr ⟨_, hsections, rfl⟩
    have hrender : (render request.settings program).outcome = .ok _ :=
      Traced.outcome_bind_eq_ok.mpr
        ⟨_, hwrite, Traced.outcome_bind_eq_ok.mpr ⟨(), rfl, rfl⟩⟩
    exact Traced.outcome_bind_eq_ok.mpr ⟨program, hanalyze, Traced.outcome_bind_eq_ok.mpr
      ⟨_, hrender, Traced.outcome_bind_eq_ok.mpr ⟨(), rfl, rfl⟩⟩⟩

/-- Source text that is written goes through the formatter. -/
theorem outcome_generate_eq_bind (request : Request) (session : Formatter.Session) :
    (request.generate session).1.outcome = request.write.outcome.bind fun code =>
      (formatCode request.settings session code).1.outcome := by
  rw [generate]
  cases hwrite : request.write.outcome <;> rfl

/-- Without a formatter the source text is the one that is written. -/
theorem outcome_generate {request : Request} {formatter : FormatterSettings}
    (hget : request.settings.formatter.get "enabled" = .ok formatter)
    (hoff : formatter.enabled.isOn = false) (session : Formatter.Session) :
    (request.generate session).1.outcome = request.write.outcome := by
  have hformat : ∀ code, formatCode request.settings session code = (pure code, session) := by
    intro code
    simp [formatCode, hget, hoff]
  rw [outcome_generate_eq_bind]
  simp only [hformat, Traced.outcome_pure]
  cases request.write.outcome <;> rfl

end Request

end SchemaForge
