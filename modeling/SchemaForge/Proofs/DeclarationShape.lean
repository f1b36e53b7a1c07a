import Mathlib
import SchemaForge.Proofs.Expansion
import SchemaForge.Proofs.TypeLayers

/-! # The shape of declarations

Every declaration of a program is well formed: optional layers and boxes stand only where Rust
wants them, a field may be left out just when its property may, and a struct that derives a default
value has one. Inference creates this shape and breaking cycles keeps it.
-/

namespace SchemaForge

namespace Rust

/-- A field that fits its property in the resolved schema and the struct that holds it. -/
structure Field.WellFormed (resolved : Schema) (holder : String) (field : Field) : Prop where
  layers : field.type.AtMostOptional
  isOptional_iff : field.type.isOptional = true
    ↔ field.sourceName ∉ resolved.required ∧ field.hasDefault = false
  of_hasDefault : field.hasDefault = true →
    (∃ value, field.type = .map value) ∨ ∃ item, field.type = .oneOrMany item
  ne_holder : field.type ≠ .named holder ∧ field.type ≠ .optional (.named holder)

/-- A struct whose fields are those of a resolved schema. It has fields, and a default value just
when each of them may be left out. -/
structure Struct.WellFormed (resolved : Schema) (declared : Struct) : Prop where
  sourceNames : declared.fields.map Field.sourceName = Entries.keys resolved.properties
  fields : ∀ field ∈ declared.fields, field.WellFormed resolved declared.name
  some_field : declared.fields ≠ []
  isDefault_iff : declared.isDefault = true
    ↔ ∀ field ∈ declared.fields, field.type.isOptional = true

/-- A declaration that fits the schema it is made from: a well-formed struct of the resolved
schema, or an alias of a type without optional layers. -/
def Declaration.WellFormed (root schema : Schema) : Declaration → Prop
  | struct declared => ∃ resolved, Schema.resolve root schema = .ok resolved ∧
      declared.WellFormed resolved
  | enum _ => True
  | typeAlias declared => declared.target.AtMostBoxed

/-- The types of a well-formed declaration have at most one optional layer, the outermost. -/
theorem Declaration.WellFormed.atMostOptional {root schema : Schema} {declaration : Declaration}
    (h : declaration.WellFormed root schema) :
    ∀ type ∈ declaration.slots, type.AtMostOptional := by
  intro type htype
  cases declaration with
  | struct declared =>
    obtain ⟨resolved, -, hstruct⟩ := h
    obtain ⟨field, hfield, rfl⟩ := List.mem_map.mp htype
    exact (hstruct.fields field hfield).layers
  | enum declared => exact absurd htype List.not_mem_nil
  | typeAlias declared =>
    rw [List.mem_singleton.mp htype]
    exact Ty.AtMostBoxed.atMostOptional h

/-! ## Boxing keeps the shape -/

theorem Field.WellFormed.boxAlong {resolved : Schema} {holder : String} {field : Field}
    (h : field.WellFormed resolved holder) (edges : List Edge) (owner : String) :
    { field with type := boxAlong edges owner field.type }.WellFormed resolved holder where
  layers := h.layers.boxAlong edges owner
  isOptional_iff := by
    rw [isOptional_boxAlong]
    exact h.isOptional_iff
  of_hasDefault := by
    intro hdefault
    -- a map or a one-or-many type holds nothing inline
    rcases boxAlong_cases edges owner field.type with ⟨heq, -⟩ | ⟨target, -, hheld⟩
    · rw [heq]
      exact h.of_hasDefault hdefault
    · rcases h.of_hasDefault hdefault with ⟨value, htype⟩ | ⟨item, htype⟩ <;>
        simp [htype] at hheld
  ne_holder := by
    rcases boxAlong_cases edges owner field.type with ⟨heq, -⟩ | ⟨_, -, ⟨-, heq⟩ | ⟨-, heq⟩⟩
    · rw [heq]
      exact h.ne_holder
    · simp [heq]
    · simp [heq]

theorem Declaration.WellFormed.boxAlong {root schema : Schema} {declaration : Declaration}
    (h : declaration.WellFormed root schema) (edges : List Edge) (holder : String) :
    (declaration.mapSlots (boxAlong edges holder)).WellFormed root schema := by
  cases declaration with
  | struct declared =>
    obtain ⟨resolved, hresolve, hstruct⟩ := h
    refine ⟨resolved, hresolve, ?_, ?_, ?_, ?_⟩
    · rw [← hstruct.sourceNames, List.map_map]
      rfl
    · intro field hfield
      obtain ⟨before, hbefore, rfl⟩ := List.mem_map.mp hfield
      exact (hstruct.fields before hbefore).boxAlong edges holder
    · exact fun hnil => hstruct.some_field (List.map_eq_nil_iff.mp hnil)
    · simp only [List.forall_mem_map, isOptional_boxAlong]
      exact hstruct.isDefault_iff
  | enum declared => trivial
  | typeAlias declared => exact Ty.AtMostBoxed.boxAlong h edges holder

/-- What boxing keeps for each single declaration it keeps for all of them, in order. -/
theorem forall₂_boxFirst {α : Type} {R : α → Declaration → Prop} {edges : List Edge}
    (hbox : ∀ a declaration, R a declaration →
      R a (declaration.mapSlots (boxAlong edges declaration.name)))
    {as : List α} {declarations : List Declaration} (h : List.Forall₂ R as declarations)
    (seen : List String) : List.Forall₂ R as (boxFirst edges seen declarations) := by
  induction h generalizing seen with
  | nil => exact List.Forall₂.nil
  | cons hrel _ ih =>
    refine List.Forall₂.cons ?_ (ih _)
    split
    · exact hrel
    · exact hbox _ _ hrel

end Rust

namespace Document

open Rust

/-- What holds of the declaration that a named schema becomes, and is kept by a description and by
boxing, holds for each named schema of a document and its declaration in the program. -/
theorem forall₂_of_expand {document : Document} {breaking : Bool} {program : Program}
    {R : String × Schema → Declaration → Prop}
    (hschema : ∀ source declaration,
      (expandSchema document source.1 source.2).outcome = .ok declaration → R source declaration)
    (hdescribe : ∀ source declaration description, R source declaration →
      R source (declaration.describe description))
    (hbox : ∀ edges source declaration, R source declaration →
      R source (declaration.mapSlots (boxAlong edges declaration.name)))
    (h : (document.expand breaking).outcome = .ok program) :
    List.Forall₂ R document.sources program.declarations := by
  obtain ⟨declarations, hall, -, hprogram⟩ := expand_eq_ok h
  have hmade : List.Forall₂ R document.sources declarations :=
    forall₂_of_expandAll hschema hdescribe hall
  rw [hprogram]
  cases breaking with
  | false => exact hmade
  | true => exact forall₂_boxFirst (hbox _) hmade []

/-! ## Expansion creates the shape -/

theorem FieldOf.wellFormed {document : Document} {holder : String} {resolved : Schema}
    {property : String × Schema} {field : Field}
    (h : FieldOf document holder resolved.required property field) :
    field.WellFormed resolved holder := by
  obtain ⟨hsource, inferred, hinfer, htype, hdefault⟩ := h
  have hrules := inference_of_infer document property.2 hinfer
  refine ⟨?_, ?_, ?_, ?_⟩
  · rw [htype]
    exact atMostOptional_fieldType hrules.plain holder _
  · rw [htype, isOptional_fieldType hrules.plain, hsource, hdefault]
    simp
  · intro hhas
    rw [hdefault] at hhas
    rw [htype, fieldType_of_hasDefault hrules hhas]
    exact hrules.of_hasDefault hhas
  · rw [htype]
    exact fieldType_ne_holder hrules.plain holder _

theorem DeclarationOf.wellFormed {document : Document} {source : String × Schema}
    {declaration : Declaration} (h : DeclarationOf document source declaration) :
    declaration.WellFormed document.root source.2 := by
  cases h with
  | @struct resolved declared hresolve hname hsource hfields hsome hdefault =>
    refine ⟨resolved, hresolve, ?_, ?_, hsome, ?_⟩
    · have hnames : List.Forall₂ (fun field property => field.sourceName = property.1)
          declared.fields resolved.properties :=
        hfields.flip.imp fun _ _ hfield => hfield.sourceName
      rw [Entries.keys, ← List.forall₂_eq_eq_eq, List.forall₂_map_left_iff,
        List.forall₂_map_right_iff]
      exact hnames
    · intro field hfield
      obtain ⟨property, -, hof⟩ := exists_mem_left_of_forall₂ hfields hfield
      rw [hname]
      exact hof.wellFormed
    · rw [hdefault, List.all_eq_true]
  | enum => trivial
  | typeAlias _ _ _ _ _ hinfer htarget =>
    show Ty.AtMostBoxed _
    rw [htarget]
    exact (inference_of_infer document source.2 hinfer).plain.atMostBoxed

/-- Every declaration of a program is well formed, whether cycles are broken or not, and stands in
the place of the named schema it is made from. -/
theorem forall₂_wellFormed_of_expand {document : Document} {breaking : Bool} {program : Program}
    (h : (document.expand breaking).outcome = .ok program) :
    List.Forall₂ (fun source declaration =>
        declaration.name = typeName source.1 ∧ declaration.WellFormed document.root source.2)
      document.sources program.declarations := by
  obtain ⟨declarations, hall, -, hprogram⟩ := expand_eq_ok h
  have hshape : List.Forall₂ (fun source declaration =>
        declaration.name = typeName source.1 ∧ declaration.WellFormed document.root source.2)
      document.sources declarations :=
    (forall₂_declarationOf_of_expandAll hall).imp fun _ _ hof => ⟨hof.name, hof.wellFormed⟩
  rw [hprogram]
  cases breaking with
  | false => exact hshape
  | true =>
    refine forall₂_boxFirst ?_ hshape []
    rintro source declaration ⟨hname, hformed⟩
    exact ⟨(Declaration.name_mapSlots _ _).trans hname, hformed.boxAlong _ _⟩

/-- Trees with a label, a branch that may be missing and marks that default to none, and the alias
for lists of them. -/
def forest : Document where
  root := {
    definitions := [
      ("forest", {
        types := [.array]
        items := [{ reference := some "#/definitions/tree" }] }),
      ("tree", {
        properties := [
          ("label", { types := [.string] }),
          ("branch", { reference := some "#/definitions/tree" }),
          ("marks", {
            types := [.object]
            additional := .permitted true
            defaultValue := some (.obj []) })]
        required := ["label"] })] }

/-- The program for trees and lists of them. -/
def forestProgram : Program where
  rootName := none
  declarations := [
    .typeAlias { name := "Forest", sourceName := "forest", target := .array (.named "Tree") },
    .struct {
      name := "Tree"
      sourceName := "tree"
      fields := [
        { name := "label", sourceName := "label", type := .primitive "String" },
        { name := "branch", sourceName := "branch", type := .optional (.boxed (.named "Tree")) },
        { name := "marks", sourceName := "marks", type := .map .any, hasDefault := true }]
      rename := some "tree" }]
  needsOneOrMany := false

theorem forall₂_wellFormed_forest :
    (forest.expand false).outcome = .ok forestProgram ∧
      List.Forall₂ (fun source declaration =>
          declaration.name = typeName source.1 ∧ declaration.WellFormed forest.root source.2)
        forest.sources forestProgram.declarations := by
  have hexpand : (forest.expand false).outcome = .ok forestProgram := by cbv
  exact ⟨hexpand, forall₂_wellFormed_of_expand hexpand⟩

end Document

end SchemaForge
