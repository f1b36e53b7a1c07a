import SchemaForge.Proofs.MemberNames

/-! # Legal names in programs

Every name that a program is written with is a legal identifier: the names of declarations and of
their members, and the names in their types. A reference brings in no other name, since a type is
named for a reference as a definition is for its key.
-/

namespace SchemaForge

namespace Rust

/-- The names that a type is written with. -/
def Ty.names : Ty → List String
  | .primitive name | .named name => [name]
  | .array inner | .map inner | .optional inner | .boxed inner | .oneOrMany inner => names inner
  | .any => []

/-- The names that a declaration is written with. -/
def Declaration.identifiers : Declaration → List String
  | struct declared =>
    declared.name :: declared.fields.flatMap fun field => field.name :: field.type.names
  | enum declared => declared.name :: declared.variants.map Variant.name
  | typeAlias declared => declared.name :: declared.target.names

theorem names_boxAlong (edges : List Edge) (holder : String) (type : Ty) :
    (boxAlong edges holder type).names = type.names := by
  rcases boxAlong_cases edges holder type with ⟨h, -⟩ | ⟨target, -, ⟨rfl, h⟩ | ⟨rfl, h⟩⟩
  · rw [h]
  · rw [h]
    rfl
  · rw [h]
    rfl

theorem Declaration.identifiers_mapSlots (declaration : Declaration) (edges : List Edge)
    (holder : String) :
    (declaration.mapSlots (boxAlong edges holder)).identifiers = declaration.identifiers := by
  cases declaration with
  | struct declared => simp [mapSlots, identifiers, List.flatMap_map, names_boxAlong]
  | enum declared => rfl
  | typeAlias declared => simp [mapSlots, identifiers, names_boxAlong]

theorem Declaration.identifiers_describe (declaration : Declaration)
    (description : Option String) :
    (declaration.describe description).identifiers = declaration.identifiers := by
  cases declaration <;> rfl

theorem legal_of_mem_primitiveNames : ∀ name ∈ Document.primitiveNames, Legal name := by
  decide

end Rust

theorem Reference.legal_of_typeName {rootName : Option String} {reference name : String}
    (h : Reference.typeName rootName reference = .ok name) : Rust.Legal name := by
  unfold Reference.typeName at h
  split at h
  · split at h
    · cases h
    · split at h
      · cases h
      · cases h
        exact Rust.legal_typeName _
  · cases h
    exact Rust.legal_typeName _

namespace Document

open Rust

theorem Inference.legal_of_mem_names {document : Document} {schema : Schema}
    {inferred : Inferred} (h : Inference document schema inferred) :
    ∀ name ∈ inferred.type.names, Legal name := by
  induction h with
  | reference _ hname =>
    intro name hmem
    rw [List.mem_singleton.mp hmem]
    exact Reference.legal_of_typeName hname
  | primitive hname =>
    intro name hmem
    rw [List.mem_singleton.mp hmem]
    exact legal_of_mem_primitiveNames _ hname
  | oneOrMany _ _ _ _ ih => exact ih
  | map _ _ _ _ _ ih => exact ih
  | array _ _ _ _ _ ih => exact ih
  | otherPair | mapOfAny | arrayOfAny | any => exact fun _ hmem => absurd hmem List.not_mem_nil

theorem names_fieldType (holder : String) (required : Bool) (inferred : Inferred) :
    (fieldType holder required inferred).names = inferred.type.names := by
  have hself : (boxSelf holder inferred.type).names = inferred.type.names := by
    unfold boxSelf
    split <;> rfl
  cases hkept : required || inferred.hasDefault with
  | true => rw [fieldType_of_kept hkept, hself]
  | false =>
    rw [fieldType_of_left_out hkept]
    exact hself

theorem FieldOf.legal_of_mem_names {document : Document} {holder : String}
    {required : List String} {property : String × Schema} {field : Field}
    (h : FieldOf document holder required property field) :
    ∀ name ∈ field.type.names, Legal name := by
  obtain ⟨-, inferred, hinfer, htype, -⟩ := h
  rw [htype, names_fieldType]
  exact (inference_of_infer document property.2 hinfer).legal_of_mem_names

theorem legal_identifiers_of_expandSchema {document : Document} {source : String × Schema}
    {declaration : Declaration}
    (h : (expandSchema document source.1 source.2).outcome = .ok declaration) :
    ∀ name ∈ declaration.identifiers, Legal name := by
  obtain ⟨hname, hmembers⟩ := membersNamed_of_expandSchema h
  have hof := declarationOf_of_expandSchema h
  have hlegal : Legal declaration.name := hname ▸ legal_typeName source.1
  cases declaration with
  | struct declared =>
    obtain ⟨resolved, -, hnamed⟩ := hmembers
    rw [Declaration.identifiers, List.forall_mem_cons]
    refine ⟨hlegal, ?_⟩
    intro name hmem
    obtain ⟨field, hfield, hmem⟩ := List.mem_flatMap.mp hmem
    rcases List.mem_cons.mp hmem with rfl | htype
    · exact hnamed.legal _ (List.mem_map_of_mem (f := Field.identifier) hfield)
    · cases hof with
      | struct _ _ _ hfields =>
        obtain ⟨property, -, hfieldOf⟩ := exists_mem_left_of_forall₂ hfields hfield
        exact hfieldOf.legal_of_mem_names name htype
  | enum declared =>
    obtain ⟨texts, -, hnamed⟩ := hmembers
    rw [Declaration.identifiers, List.forall_mem_cons]
    refine ⟨hlegal, ?_⟩
    intro name hmem
    obtain ⟨variant, hvariant, rfl⟩ := List.mem_map.mp hmem
    exact hnamed.legal _ (List.mem_map_of_mem (f := Variant.identifier) hvariant)
  | typeAlias declared =>
    rw [Declaration.identifiers, List.forall_mem_cons]
    refine ⟨hlegal, ?_⟩
    cases hof with
    | typeAlias _ _ _ _ _ hinfer htarget =>
      rw [htarget]
      exact (inference_of_infer document source.2 hinfer).legal_of_mem_names

/-- Every name that a program is written with is legal. -/
theorem legal_identifiers_of_expand {document : Document} {breaking : Bool} {program : Program}
    (h : (document.expand breaking).outcome = .ok program) :
    ∀ declaration ∈ program.declarations, ∀ name ∈ declaration.identifiers, Legal name := by
  have hforall : List.Forall₂ (fun _ declaration => ∀ name ∈ declaration.identifiers, Legal name)
      document.sources program.declarations := by
    refine forall₂_of_expand ?_ ?_ ?_ h
    · exact fun _ _ hschema => legal_identifiers_of_expandSchema hschema
    · intro source declaration description hlegal
      rwa [Declaration.identifiers_describe]
    · intro edges source declaration hlegal
      rwa [Declaration.identifiers_mapSlots]
  intro declaration hdeclaration
  obtain ⟨-, -, hlegal⟩ := exists_mem_left_of_forall₂ hforall hdeclaration
  exact hlegal

end Document

end SchemaForge
