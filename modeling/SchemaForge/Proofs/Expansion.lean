import SchemaForge.Proofs.Inference

/-! # What expansion declares

Each declaration of a program answers to one named schema of the document: a definition, or the
root under its own name. The rules below say which declaration a schema may become, and how its
fields answer to the properties of the resolved schema.
-/

namespace SchemaForge

open Rust

namespace Document

/-- The named schemas that are declared, in order: the definitions and then the root, if it has a
name. -/
def sources (document : Document) : Entries Schema :=
  document.root.definitions ++ document.rootName.toList.map fun name => (name, document.root)

/-- The field of a struct that answers to a property of the resolved schema. -/
structure FieldOf (document : Document) (holder : String) (required : List String)
    (property : String × Schema) (field : Field) : Prop where
  sourceName : field.sourceName = property.1
  inferred : ∃ inferred, (infer document property.2).outcome = .ok inferred ∧
    field.type = fieldType holder (required.contains property.1) inferred ∧
    field.hasDefault = inferred.hasDefault

/-- The declaration that a named schema becomes, apart from descriptions and serialized names. -/
inductive DeclarationOf (document : Document) (source : String × Schema) : Declaration → Prop
  | struct {resolved : Schema} {declared : Struct}
      (hresolve : Schema.resolve document.root source.2 = .ok resolved)
      (hname : declared.name = typeName source.1) (hsource : declared.sourceName = source.1)
      (hfields : List.Forall₂ (FieldOf document (typeName source.1) resolved.required)
        resolved.properties declared.fields)
      (hsome : declared.fields ≠ [])
      (hdefault : declared.isDefault = declared.fields.all fun field => field.type.isOptional) :
      DeclarationOf document source (.struct declared)
  | enum {resolved : Schema} {declared : Enum}
      (hresolve : Schema.resolve document.root source.2 = .ok resolved)
      (hname : declared.name = typeName source.1) (hsource : declared.sourceName = source.1)
      (hnone : resolved.properties = []) (hvalues : enumerated source.2 ≠ []) :
      DeclarationOf document source (.enum declared)
  | typeAlias {resolved : Schema} {declared : TypeAlias} {inferred : Inferred}
      (hresolve : Schema.resolve document.root source.2 = .ok resolved)
      (hname : declared.name = typeName source.1) (hsource : declared.sourceName = source.1)
      (hnone : resolved.properties = []) (hvalues : enumerated source.2 = [])
      (hinfer : (infer document source.2).outcome = .ok inferred)
      (htarget : declared.target = inferred.type) :
      DeclarationOf document source (.typeAlias declared)

theorem DeclarationOf.name {document : Document} {source : String × Schema}
    {declaration : Declaration} (h : DeclarationOf document source declaration) :
    declaration.name = typeName source.1 := by
  cases h with
  | struct _ hname => exact hname
  | enum _ hname => exact hname
  | typeAlias _ hname => exact hname

/-- A description changes nothing that the rules speak of. -/
theorem DeclarationOf.describe {document : Document} {source : String × Schema}
    {declaration : Declaration} (h : DeclarationOf document source declaration)
    (description : Option String) :
    DeclarationOf document source (declaration.describe description) := by
  cases h with
  | struct hresolve hname hsource hfields hsome hdefault =>
    exact .struct hresolve hname hsource hfields hsome hdefault
  | enum hresolve hname hsource hnone hvalues =>
    exact .enum hresolve hname hsource hnone hvalues
  | typeAlias hresolve hname hsource hnone hvalues hinfer htarget =>
    exact .typeAlias hresolve hname hsource hnone hvalues hinfer htarget

/-- What the first of several properties becomes, and the names in use after it. -/
theorem expandFields_cons {document : Document} {holder : String} {required used : List String}
    {key : String} {schema : Schema} {rest : Entries Schema} {fields : List Field}
    (h : (expandFields document holder required used ((key, schema) :: rest)).outcome
      = .ok fields) :
    ∃ inferred more, (infer document schema).outcome = .ok inferred ∧
      (expandFields document holder required
        (used ++ [uniqueName (fieldName key).name used "_"]) rest).outcome = .ok more ∧
      fields = {
        name := uniqueName (fieldName key).name used "_"
        sourceName := key
        type := fieldType holder (required.contains key) inferred
        hasDefault := inferred.hasDefault
        rename := if uniqueName (fieldName key).name used "_" = (fieldName key).name
          then (fieldName key).rename else some key
        description := schema.description } :: more := by
  rw [expandFields, Traced.outcome_bind_eq_ok] at h
  obtain ⟨-, -, h⟩ := h
  rw [Traced.outcome_bind_eq_ok] at h
  obtain ⟨inferred, hinfer, h⟩ := h
  rw [Traced.outcome_bind_eq_ok] at h
  obtain ⟨more, hmore, h⟩ := h
  cases h
  exact ⟨inferred, more, hinfer, hmore, rfl⟩

/-- Each property becomes one field, in order. -/
theorem forall₂_fieldOf_of_expandFields {document : Document} {holder : String}
    {required used : List String} {properties : Entries Schema} {fields : List Field}
    (h : (expandFields document holder required used properties).outcome = .ok fields) :
    List.Forall₂ (FieldOf document holder required) properties fields := by
  induction properties generalizing used fields with
  | nil =>
    rw [expandFields] at h
    cases h
    exact List.Forall₂.nil
  | cons property rest ih =>
    obtain ⟨key, schema⟩ := property
    obtain ⟨inferred, more, hinfer, hmore, rfl⟩ := expandFields_cons h
    exact List.Forall₂.cons ⟨rfl, inferred, hinfer, rfl, rfl⟩ (ih hmore)

/-- What a named schema becomes. Fields decide first, and only without them do the enumerated
values count. -/
theorem expandSchema_cases {document : Document} {sourceName : String} {schema : Schema}
    {declaration : Declaration}
    (h : (expandSchema document sourceName schema).outcome = .ok declaration) :
    ∃ resolved fields, Schema.resolve document.root schema = .ok resolved ∧
      (expandFields document (typeName sourceName) resolved.required [] resolved.properties).outcome
        = .ok fields ∧
      (fields ≠ [] ∧ declaration = .struct {
          name := typeName sourceName, sourceName, fields
          isDefault := fields.all fun field => field.type.isOptional
          rename := if sourceName = typeName sourceName then none else some sourceName }
        ∨ (fields = [] ∧ enumerated schema ≠ [] ∧ ∃ variants,
            (expandVariants (typeName sourceName) [] (enumerated schema)).outcome = .ok variants ∧
            declaration = .enum {
              name := typeName sourceName, sourceName, variants
              rename := if sourceName = typeName sourceName then none else some sourceName })
        ∨ fields = [] ∧ enumerated schema = [] ∧ ∃ inferred,
            (infer document schema).outcome = .ok inferred ∧
            declaration = .typeAlias {
              name := typeName sourceName, sourceName, target := inferred.type }) := by
  rw [expandSchema, Traced.outcome_bind_eq_ok] at h
  obtain ⟨resolved, hresolve, h⟩ := h
  rw [Traced.outcome_bind_eq_ok] at h
  obtain ⟨fields, hfields, h⟩ := h
  rw [Traced.outcome_bind_eq_ok] at h
  obtain ⟨made, hmade, h⟩ := h
  rw [Traced.outcome_bind_eq_ok] at h
  obtain ⟨-, -, h⟩ := h
  cases h
  refine ⟨resolved, fields, hresolve, hfields, ?_⟩
  cases fields with
  | cons field more =>
    cases hmade
    exact Or.inl ⟨List.cons_ne_nil _ _, rfl⟩
  | nil =>
    cases hvalues : enumerated schema with
    | cons value values =>
      rw [hvalues] at hmade
      obtain ⟨variants, hvariants, hmade⟩ := Traced.outcome_bind_eq_ok.mp hmade
      cases hmade
      exact Or.inr (Or.inl ⟨rfl, List.cons_ne_nil _ _, variants, hvariants, rfl⟩)
    | nil =>
      rw [hvalues] at hmade
      obtain ⟨inferred, hinfer, hmade⟩ := Traced.outcome_bind_eq_ok.mp hmade
      cases hmade
      exact Or.inr (Or.inr ⟨rfl, rfl, inferred, hinfer, rfl⟩)

theorem declarationOf_of_expandSchema {document : Document} {sourceName : String}
    {schema : Schema} {declaration : Declaration}
    (h : (expandSchema document sourceName schema).outcome = .ok declaration) :
    DeclarationOf document (sourceName, schema) declaration := by
  obtain ⟨resolved, fields, hresolve, hfields, hmade⟩ := expandSchema_cases h
  have hforall := forall₂_fieldOf_of_expandFields hfields
  rcases hmade with ⟨hsome, rfl⟩ | ⟨rfl, hvalues, variants, -, rfl⟩ |
    ⟨rfl, hvalues, inferred, hinfer, rfl⟩
  · exact .struct hresolve rfl rfl hforall hsome rfl
  · exact .enum hresolve rfl rfl (List.forall₂_nil_right_iff.mp hforall) hvalues
  · exact .typeAlias hresolve rfl rfl (List.forall₂_nil_right_iff.mp hforall) hvalues hinfer rfl

/-- The declaration of a definition, which tells the description of the definition. -/
def DefinedAs (document : Document) (definition : String × Schema) (declaration : Declaration) :
    Prop :=
  ∃ made, (expandSchema document definition.1 definition.2).outcome = .ok made ∧
    declaration = made.describe definition.2.description

/-- Definitions are declared when each of them is, in order. -/
theorem expandDefinitions_eq_ok_iff {document : Document} {definitions : Entries Schema}
    {declarations : List Declaration} :
    (expandDefinitions document definitions).outcome = .ok declarations
      ↔ List.Forall₂ (DefinedAs document) definitions declarations := by
  induction definitions generalizing declarations with
  | nil =>
    rw [expandDefinitions, List.forall₂_nil_left_iff, Traced.outcome_pure, Except.ok.injEq, eq_comm]
  | cons definition rest ih =>
    rw [expandDefinitions, List.forall₂_cons_left_iff, Traced.outcome_bind_eq_ok]
    constructor
    · rintro ⟨made, hmade, h⟩
      obtain ⟨more, hmore, h⟩ := Traced.outcome_bind_eq_ok.mp h
      cases h
      exact ⟨_, more, ⟨made, hmade, rfl⟩, ih.mp hmore, rfl⟩
    · rintro ⟨_, more, ⟨made, hmade, rfl⟩, hmore, rfl⟩
      exact ⟨made, hmade, Traced.outcome_bind_eq_ok.mpr ⟨more, ih.mpr hmore, rfl⟩⟩

/-- A document is declared when its definitions are and so is the root, if it has a name. -/
theorem expandAll_eq_ok_iff {document : Document} {declarations : List Declaration} :
    (expandAll document).outcome = .ok declarations ↔
      ∃ defined roots, List.Forall₂ (DefinedAs document) document.root.definitions defined ∧
        List.Forall₂ (fun name declaration =>
            (expandSchema document name document.root).outcome = .ok declaration)
          document.rootName.toList roots ∧
        declarations = defined ++ roots := by
  rw [expandAll, Traced.outcome_bind_eq_ok]
  simp only [expandDefinitions_eq_ok_iff]
  refine exists_congr fun defined => ?_
  rw [exists_and_left]
  refine and_congr_right fun _ => ?_
  cases document.rootName with
  | none => simp [eq_comm]
  | some name =>
    simp only [Option.toList_some, List.forall₂_cons_left_iff, List.forall₂_nil_left_iff,
      Traced.outcome_bind_eq_ok]
    constructor
    · rintro ⟨declaration, hdeclaration, h⟩
      cases h
      exact ⟨[declaration], ⟨declaration, [], hdeclaration, rfl, rfl⟩, rfl⟩
    · rintro ⟨_, ⟨declaration, _, hdeclaration, rfl, rfl⟩, rfl⟩
      exact ⟨declaration, hdeclaration, rfl⟩

/-- What holds of the declaration that a named schema becomes, whatever its description, holds for
each named schema of the document, in order. -/
theorem forall₂_of_expandAll {document : Document} {R : String × Schema → Declaration → Prop}
    (hschema : ∀ source declaration,
      (expandSchema document source.1 source.2).outcome = .ok declaration → R source declaration)
    (hdescribe : ∀ source declaration description, R source declaration →
      R source (declaration.describe description))
    {declarations : List Declaration} (h : (expandAll document).outcome = .ok declarations) :
    List.Forall₂ R document.sources declarations := by
  obtain ⟨defined, roots, hdefined, hroots, rfl⟩ := expandAll_eq_ok_iff.mp h
  refine List.rel_append (hdefined.imp ?_) ?_
  · rintro definition _ ⟨made, hmade, rfl⟩
    exact hdescribe _ _ _ (hschema definition made hmade)
  · rw [List.forall₂_map_left_iff]
    exact hroots.imp fun name declaration hdeclaration => hschema (name, document.root) _ hdeclaration

/-- Expansion declares each named schema, in order. -/
theorem forall₂_declarationOf_of_expandAll {document : Document}
    {declarations : List Declaration}
    (h : (expandAll document).outcome = .ok declarations) :
    List.Forall₂ (DeclarationOf document) document.sources declarations :=
  forall₂_of_expandAll (fun _ _ hexpand => declarationOf_of_expandSchema hexpand)
    (fun _ _ description hof => hof.describe description) h

/-- The parts of an expansion that succeeds, and the program that they make. -/
theorem expand_eq_ok_iff {document : Document} {breaking : Bool} {program : Program} :
    (expand document breaking).outcome = .ok program ↔
      ∃ declarations, (expandAll document).outcome = .ok declarations ∧
        checkAliases declarations = .ok () ∧
        program = {
          rootName := document.rootName
          declarations := if breaking then boxCycles declarations else declarations
          needsOneOrMany := (expandAll document).events.any Event.isOneOrMany } := by
  rw [expand, Traced.outcome_bind_eq_ok]
  refine exists_congr fun declarations => and_congr_right fun _ => ?_
  rw [Traced.outcome_bind_eq_ok]
  constructor
  · rintro ⟨⟨⟩, hcheck, h⟩
    refine ⟨hcheck, ?_⟩
    cases breaking <;>
    · obtain ⟨final, hfinal, h⟩ := Traced.outcome_bind_eq_ok.mp h
      cases hfinal
      cases h
      rfl
  · rintro ⟨hcheck, rfl⟩
    refine ⟨(), hcheck, ?_⟩
    cases breaking <;> rfl

/-- The declarations of an expansion that succeeds. -/
theorem expand_eq_ok {document : Document} {breaking : Bool} {program : Program}
    (h : (expand document breaking).outcome = .ok program) :
    ∃ declarations, (expandAll document).outcome = .ok declarations ∧
      checkAliases declarations = .ok () ∧
      program.declarations = (if breaking then boxCycles declarations else declarations) := by
  obtain ⟨declarations, hall, hcheck, rfl⟩ := expand_eq_ok_iff.mp h
  exact ⟨declarations, hall, hcheck, rfl⟩

end Document

end SchemaForge
