import SchemaForge.Proofs.DeclarationShape
import SchemaForge.Schema.Reading

/-! # Declared names

Which names the types of a program mention, and when all of them are declared. A mention is made
from the text of a reference alone, so it may name a type that the program does not declare: a
reference is only followed where a schema is resolved.
-/

namespace SchemaForge

namespace Rust

/-- The names that the slots of a declaration mention, under any containers. -/
def Declaration.mentions (declaration : Declaration) : List String :=
  declaration.slots.flatMap Ty.mentions

/-- Every name that a slot of a declaration mentions is the name of a declaration. -/
def AllDeclared (declarations : List Declaration) : Prop :=
  ∀ declaration ∈ declarations, ∀ name ∈ declaration.mentions,
    ∃ other ∈ declarations, other.name = name

theorem Declaration.mentions_mapSlots_boxAlong (declaration : Declaration) (edges : List Edge)
    (holder : String) :
    (declaration.mapSlots (boxAlong edges holder)).mentions = declaration.mentions := by
  simp only [Declaration.mentions, Declaration.slots_mapSlots, List.flatMap_map,
    mentions_boxAlong]

/-- Boxing changes neither names nor mentions. -/
theorem map_name_mentions_boxFirst (edges : List Edge) (seen : List String)
    (declarations : List Declaration) :
    (boxFirst edges seen declarations).map (fun declaration =>
        (declaration.name, declaration.mentions))
      = declarations.map fun declaration => (declaration.name, declaration.mentions) := by
  induction declarations generalizing seen with
  | nil => rfl
  | cons declaration rest ih =>
    rw [boxFirst, List.map_cons, List.map_cons, ih]
    congr 1
    split
    · rfl
    · rw [Declaration.name_mapSlots, Declaration.mentions_mapSlots_boxAlong]

theorem allDeclared_congr {first second : List Declaration}
    (h : first.map (fun declaration => (declaration.name, declaration.mentions))
      = second.map fun declaration => (declaration.name, declaration.mentions)) :
    AllDeclared first ↔ AllDeclared second := by
  have hview : ∀ declarations : List Declaration, AllDeclared declarations
      ↔ ∀ shown ∈ declarations.map (fun declaration => (declaration.name, declaration.mentions)),
        ∀ name ∈ shown.2, ∃ other ∈ declarations.map
          (fun declaration => (declaration.name, declaration.mentions)), other.1 = name := by
    intro declarations
    simp [AllDeclared]
  rw [hview, hview, h]

end Rust

namespace Document

open Rust

/-- The reference names the type of a slot that the named schema is declared with: the type of a
property of the resolved schema, or of the schema itself where it becomes an alias. -/
def TypesSlot (document : Document) (source : String × Schema) (reference : String) : Prop :=
  ∃ resolved, Schema.resolve document.root source.2 = .ok resolved ∧
    ((∃ property ∈ resolved.properties, TypedBy document property.2 reference)
      ∨ resolved.properties = [] ∧ enumerated source.2 = []
        ∧ TypedBy document source.2 reference)

theorem typesSlot_iff {document : Document} {source : String × Schema} {resolved : Schema}
    (h : Schema.resolve document.root source.2 = .ok resolved) {reference : String} :
    TypesSlot document source reference
      ↔ (∃ property ∈ resolved.properties, TypedBy document property.2 reference)
        ∨ resolved.properties = [] ∧ enumerated source.2 = []
          ∧ TypedBy document source.2 reference := by
  constructor
  · rintro ⟨other, hother, hslot⟩
    rw [h, Except.ok.injEq] at hother
    rwa [hother]
  · intro hslot
    exact ⟨resolved, h, hslot⟩

/-- A field mentions what the references of its property stand for. -/
theorem FieldOf.mem_mentions_iff {document : Document} {holder : String}
    {required : List String} {property : String × Schema} {field : Field}
    (h : FieldOf document holder required property field) (name : String) :
    name ∈ field.type.mentions
      ↔ ∃ reference, TypedBy document property.2 reference
        ∧ Reference.typeName document.rootName reference = .ok name := by
  obtain ⟨-, inferred, hinfer, htype, -⟩ := h
  rw [htype, mentions_fieldType]
  exact (inference_of_infer document property.2 hinfer).mem_mentions_iff name

/-- A declaration mentions what the references that type its slots stand for. -/
theorem DeclarationOf.mem_mentions_iff {document : Document} {source : String × Schema}
    {declaration : Declaration} (h : DeclarationOf document source declaration) (name : String) :
    name ∈ declaration.mentions
      ↔ ∃ reference, TypesSlot document source reference
        ∧ Reference.typeName document.rootName reference = .ok name := by
  cases h with
  | @struct resolved declared hresolve _ _ hfields hsome =>
    have hproperties : resolved.properties ≠ [] := by
      intro hnil
      rw [hnil] at hfields
      exact hsome (List.forall₂_nil_left_iff.mp hfields)
    simp only [Declaration.mentions, Declaration.slots, List.flatMap_map, List.mem_flatMap,
      typesSlot_iff hresolve]
    constructor
    · rintro ⟨field, hfield, hname⟩
      obtain ⟨property, hproperty, hof⟩ := exists_mem_left_of_forall₂ hfields hfield
      obtain ⟨reference, htyped, hstands⟩ := (hof.mem_mentions_iff name).mp hname
      exact ⟨reference, Or.inl ⟨property, hproperty, htyped⟩, hstands⟩
    · -- a struct has properties, so its own schema types no slot
      rintro ⟨reference, ⟨property, hproperty, htyped⟩ | ⟨hnil, -⟩, hstands⟩
      · obtain ⟨field, hfield, hof⟩ := exists_mem_right_of_forall₂ hfields hproperty
        exact ⟨field, hfield, (hof.mem_mentions_iff name).mpr ⟨reference, htyped, hstands⟩⟩
      · exact absurd hnil hproperties
  | @enum resolved declared hresolve _ _ hnone hvalues =>
    simp only [Declaration.mentions, Declaration.slots, List.flatMap_nil, List.not_mem_nil,
      false_iff, typesSlot_iff hresolve, hnone]
    rintro ⟨reference, ⟨property, hproperty, -⟩ | ⟨-, hempty, -⟩, -⟩
    · exact hproperty
    · exact hvalues hempty
  | @typeAlias resolved declared inferred hresolve _ _ hnone hvalues hinfer htarget =>
    have hrules := inference_of_infer document source.2 hinfer
    have htyped : ∀ reference, TypesSlot document source reference
        ↔ TypedBy document source.2 reference := by
      intro reference
      simp [typesSlot_iff hresolve, hnone, hvalues]
    have hmentions : Declaration.mentions (.typeAlias declared) = inferred.type.mentions := by
      simp [Declaration.mentions, Declaration.slots, htarget]
    simp only [hmentions, htyped]
    exact hrules.mem_mentions_iff name

/-- The types of a program mention declared names only, just when each reference that names the
type of a slot stands for the type name of a definition, or for that of the root. -/
theorem allDeclared_iff_of_expand {document : Document} {breaking : Bool} {program : Program}
    (h : (document.expand breaking).outcome = .ok program) :
    AllDeclared program.declarations
      ↔ ∀ source ∈ document.sources, ∀ reference, TypesSlot document source reference →
        ∀ name, Reference.typeName document.rootName reference = .ok name →
          ∃ declared ∈ document.sources, typeName declared.1 = name := by
  obtain ⟨declarations, hall, -, hprogram⟩ := expand_eq_ok h
  have hforall := forall₂_declarationOf_of_expandAll hall
  have hboxed : AllDeclared program.declarations ↔ AllDeclared declarations := by
    rw [hprogram]
    cases breaking with
    | true => exact allDeclared_congr (map_name_mentions_boxFirst _ _ _)
    | false => exact Iff.rfl
  -- sources and declarations are paired, so each side finds its partner on the other
  rw [hboxed]
  constructor
  · intro hdeclared source hsource reference hslot name hstands
    obtain ⟨declaration, hmember, hof⟩ := exists_mem_right_of_forall₂ hforall hsource
    obtain ⟨other, hother, hname⟩ := hdeclared declaration hmember name
      ((hof.mem_mentions_iff name).mpr ⟨reference, hslot, hstands⟩)
    obtain ⟨declared, hmem, hofother⟩ := exists_mem_left_of_forall₂ hforall hother
    exact ⟨declared, hmem, hofother.name.symm.trans hname⟩
  · intro hsources declaration hmember name hname
    obtain ⟨source, hsource, hof⟩ := exists_mem_left_of_forall₂ hforall hmember
    obtain ⟨reference, hslot, hstands⟩ := (hof.mem_mentions_iff name).mp hname
    obtain ⟨declared, hmem, htype⟩ := hsources source hsource reference hslot name hstands
    obtain ⟨other, hother, hofother⟩ := exists_mem_right_of_forall₂ hforall hmem
    exact ⟨other, hother, hofother.name.trans htype⟩

/-- A definition whose property refers to another definition. -/
def holderAndHeld : Document where
  root := {
    definitions := [
      ("holder", { properties := [("held", { reference := some "#/definitions/held" })] }),
      ("held", { types := [.string] })] }

/-- The program for both of them. -/
def holderAndHeldProgram : Program where
  rootName := none
  declarations := [
    .struct {
      name := "Holder"
      sourceName := "holder"
      fields := [{ name := "held", sourceName := "held", type := .optional (.named "Held") }]
      isDefault := true
      rename := some "holder" },
    .typeAlias { name := "Held", sourceName := "held", target := .primitive "String" }]
  needsOneOrMany := false

theorem allDeclared_iff_holderAndHeld :
    (holderAndHeld.expand true).outcome = .ok holderAndHeldProgram ∧
      (AllDeclared holderAndHeldProgram.declarations
        ↔ ∀ source ∈ holderAndHeld.sources, ∀ reference,
          TypesSlot holderAndHeld source reference →
            ∀ name, Reference.typeName holderAndHeld.rootName reference = .ok name →
              ∃ declared ∈ holderAndHeld.sources, typeName declared.1 = name) := by
  have hexpand : (holderAndHeld.expand true).outcome = .ok holderAndHeldProgram := by cbv
  exact ⟨hexpand, allDeclared_iff_of_expand hexpand⟩

/-- The text of a document in which a property refers to a definition that is missing. -/
def danglingText : Json :=
  .obj [("definitions", .obj [("holder", .obj [("properties", .obj [("held",
    .obj [("$ref", .str "#/definitions/missing")])])])])]

/-- The document that is read from it. -/
def dangling : Document where
  root := {
    definitions := [
      ("holder", {
        properties := [
          ("held", {
            reference := some "#/definitions/missing"
            location := "#/definitions/holder/properties/held" })]
        location := "#/definitions/holder" })] }

/-- The program that is made of it nevertheless. -/
def danglingProgram : Program where
  rootName := none
  declarations := [
    .struct {
      name := "Holder"
      sourceName := "holder"
      fields := [{ name := "held", sourceName := "held", type := .optional (.named "Missing") }]
      isDefault := true
      rename := some "holder" }]
  needsOneOrMany := false

/-- Expansion may succeed although a type mentions a name that no declaration has, and although the
reference behind it cannot be resolved. -/
theorem not_allDeclared_dangling :
    Schema.read danglingText = .ok dangling.root ∧
      (dangling.expand true).outcome = .ok danglingProgram ∧
      ¬ AllDeclared danglingProgram.declarations ∧
      Reference.resolve dangling.root "#/definitions/missing"
        = .error (.unresolvedReference "#/definitions/missing" "missing") := by
  refine ⟨by cbv, by cbv, ?_, by cbv⟩
  intro hdeclared
  obtain ⟨other, hother, hname⟩ :=
    hdeclared _ List.mem_cons_self "Missing" List.mem_cons_self
  rw [List.mem_singleton.mp hother] at hname
  exact absurd hname (by decide)

end Document

end SchemaForge
