import SchemaForge.Proofs.DeclarationShape
import SchemaForge.Proofs.NumberedNames

/-! # The names of fields and variants

The members of a declaration have legal identifiers that differ from each other, and they are
serialized under the names of the document, in its order. Expansion gives the identifiers one after
another, each told from those before it, and breaking cycles changes none of them.
-/

namespace SchemaForge

namespace Rust

/-- The serialized name of an identifier: the name it carries, or else itself. -/
def Identifier.serializedName (identifier : Identifier) : String :=
  identifier.rename.getD identifier.name

/-- Members that may stand in one declaration, with the names they are serialized under, in
order. A member carries a name just when it is not its own serialized name. -/
structure NamedFor (names : List String) (members : List Identifier) : Prop where
  distinct : (members.map Identifier.name).Nodup
  legal : ∀ member ∈ members, Legal member.name
  serializedNames : members.map Identifier.serializedName = names
  rename_eq_none_iff : ∀ member ∈ members,
    member.rename = none ↔ member.name = member.serializedName

/-- The identifier of a field. -/
def Field.identifier (field : Field) : Identifier := ⟨field.name, field.rename⟩

/-- The identifier of a variant. -/
def Variant.identifier (variant : Variant) : Identifier := ⟨variant.name, variant.rename⟩

/-- The members of a declaration are named for the schema it is made from: the fields of a struct
for the properties of the resolved schema, the variants of an enum for the enumerated texts. -/
def Declaration.MembersNamed (root schema : Schema) : Declaration → Prop
  | struct declared => ∃ resolved, Schema.resolve root schema = .ok resolved ∧
      NamedFor (Entries.keys resolved.properties) (declared.fields.map Field.identifier)
  | enum declared => ∃ texts, Document.enumerated schema = texts.map Json.str ∧
      NamedFor texts (declared.variants.map Variant.identifier)
  | typeAlias _ => True

theorem Declaration.MembersNamed.describe {root schema : Schema} {declaration : Declaration}
    (h : declaration.MembersNamed root schema) (description : Option String) :
    (declaration.describe description).MembersNamed root schema := by
  cases declaration with
  | struct declared => exact h
  | enum declared => exact h
  | typeAlias declared => trivial

theorem Declaration.MembersNamed.mapSlots {root schema : Schema} {declaration : Declaration}
    (h : declaration.MembersNamed root schema) (change : Ty → Ty) :
    (declaration.mapSlots change).MembersNamed root schema := by
  cases declaration with
  | struct declared =>
    obtain ⟨resolved, hresolve, hnamed⟩ := h
    refine ⟨resolved, hresolve, ?_⟩
    rw [List.map_map]
    exact hnamed
  | enum declared => exact h
  | typeAlias declared => trivial

/-! ## Names given one after another -/

/-- Identifiers for names in order, each told from the names in use and from those before it. -/
def identifiers (make : String → Identifier) (separator : String) (used : List String) :
    List String → List Identifier
  | [] => []
  | raw :: rest =>
    let identifier := (make raw).among raw separator used
    identifier :: identifiers make separator (used ++ [identifier.name]) rest

theorem Identifier.MadeFor.serializedName {identifier : Identifier} {raw : String}
    (h : identifier.MadeFor raw) : identifier.serializedName = raw := by
  rw [h.eq_standingFor, Identifier.serializedName, Identifier.standingFor]
  split
  · assumption
  · rfl

theorem Identifier.MadeFor.rename_eq_none_iff {identifier : Identifier} {raw : String}
    (h : identifier.MadeFor raw) :
    identifier.rename = none ↔ identifier.name = identifier.serializedName := by
  rw [h.serializedName, congrArg Identifier.rename h.eq_standingFor, Identifier.standingFor]
  split <;> simp_all

section Given

variable {make : String → Identifier} {separator : String}

/-- The names of the identifiers are told one after another. -/
theorem map_name_identifiers (used names : List String) :
    (identifiers make separator used names).map Identifier.name
      = uniqueNames separator used (names.map fun raw => (make raw).name) := by
  induction names generalizing used with
  | nil => rfl
  | cons raw rest ih => exact congrArg (_ :: ·) (ih _)

theorem forall₂_madeFor_identifiers (hmake : ∀ raw, (make raw).MadeFor raw)
    (hseparator : Trailing separator) (used names : List String) :
    List.Forall₂ (fun raw identifier => identifier.MadeFor raw) names
      (identifiers make separator used names) := by
  induction names generalizing used with
  | nil => exact List.Forall₂.nil
  | cons raw rest ih => exact List.Forall₂.cons ((hmake raw).among hseparator used) (ih _)

/-- Identifiers given one after another may stand in one declaration. -/
theorem namedFor_identifiers (hmake : ∀ raw, (make raw).MadeFor raw)
    (hseparator : Trailing separator) (names : List String) :
    NamedFor names (identifiers make separator [] names) := by
  have hforall := forall₂_madeFor_identifiers hmake hseparator [] names
  refine ⟨?_, ?_, ?_, ?_⟩
  · rw [map_name_identifiers]
    exact nodup_uniqueNames _ _ _
  · intro member hmember
    obtain ⟨raw, -, hmade⟩ := exists_mem_left_of_forall₂ hforall hmember
    exact hmade.legal
  · rw [← List.forall₂_eq_eq_eq, List.forall₂_map_left_iff]
    exact hforall.flip.imp fun _ _ hmade => hmade.serializedName
  · intro member hmember
    obtain ⟨raw, -, hmade⟩ := exists_mem_left_of_forall₂ hforall hmember
    exact hmade.rename_eq_none_iff

end Given

end Rust

namespace Document

open Rust

/-! ## Expansion gives the names -/

theorem identifiers_of_expandFields {document : Document} {holder : String}
    {required used : List String} {properties : Entries Schema} {fields : List Field}
    (h : (expandFields document holder required used properties).outcome = .ok fields) :
    fields.map Field.identifier = identifiers fieldName "_" used (Entries.keys properties) := by
  induction properties generalizing used fields with
  | nil =>
    rw [expandFields] at h
    cases h
    rfl
  | cons property rest ih =>
    obtain ⟨key, schema⟩ := property
    obtain ⟨inferred, more, -, hmore, rfl⟩ := expandFields_cons h
    rw [List.map_cons, ih hmore]
    rfl

/-- The values of an enum are texts, and its variants are named for them. -/
theorem identifiers_of_expandVariants {enum : String} {used : List String} {values : List Json}
    {variants : List Variant} (h : (expandVariants enum used values).outcome = .ok variants) :
    ∃ texts, values = texts.map Json.str ∧
      variants.map Variant.identifier = identifiers variantName "" used texts := by
  induction values generalizing used variants with
  | nil =>
    rw [expandVariants] at h
    cases h
    exact ⟨[], rfl, rfl⟩
  | cons value rest ih =>
    cases value with
    | str text =>
      rw [expandVariants, Traced.outcome_bind_eq_ok] at h
      obtain ⟨-, -, h⟩ := h
      rw [Traced.outcome_bind_eq_ok] at h
      obtain ⟨more, hmore, h⟩ := h
      cases h
      obtain ⟨texts, hrest, hidentifiers⟩ := ih hmore
      refine ⟨text :: texts, by rw [hrest, List.map_cons], ?_⟩
      rw [List.map_cons, hidentifiers]
      rfl
    | _ => cases h

/-- A declaration is named for its schema, and its members are. -/
theorem membersNamed_of_expandSchema {document : Document} {sourceName : String}
    {schema : Schema} {declaration : Declaration}
    (h : (expandSchema document sourceName schema).outcome = .ok declaration) :
    declaration.name = typeName sourceName ∧ declaration.MembersNamed document.root schema := by
  refine ⟨(declarationOf_of_expandSchema h).name, ?_⟩
  obtain ⟨resolved, fields, hresolve, hfields, hmade⟩ := expandSchema_cases h
  rcases hmade with ⟨-, rfl⟩ | ⟨-, -, variants, hvariants, rfl⟩ | ⟨-, -, inferred, -, rfl⟩
  · refine ⟨resolved, hresolve, ?_⟩
    rw [identifiers_of_expandFields hfields]
    exact namedFor_identifiers madeFor_fieldName trailing_underscore _
  · obtain ⟨texts, htexts, hidentifiers⟩ := identifiers_of_expandVariants hvariants
    refine ⟨texts, htexts, ?_⟩
    rw [hidentifiers]
    exact namedFor_identifiers madeFor_variantName trailing_empty texts
  · trivial

/-- In a program, the fields of each struct and the variants of each enum have legal identifiers
that differ from each other, and they are serialized under the keys of the resolved properties and
under the enumerated texts, in order. -/
theorem forall₂_membersNamed_of_expand {document : Document} {breaking : Bool}
    {program : Program} (h : (document.expand breaking).outcome = .ok program) :
    List.Forall₂ (fun source declaration =>
        declaration.name = typeName source.1 ∧
          declaration.MembersNamed document.root source.2)
      document.sources program.declarations := by
  obtain ⟨declarations, hall, -, hprogram⟩ := expand_eq_ok h
  have hnamed : List.Forall₂ (fun source declaration =>
        declaration.name = typeName source.1 ∧
          declaration.MembersNamed document.root source.2)
      document.sources declarations :=
    forall₂_of_expandAll (fun _ _ hexpand => membersNamed_of_expandSchema hexpand)
      (fun _ _ description hnamed =>
        ⟨(Declaration.name_describe description _).trans hnamed.1, hnamed.2.describe description⟩)
      hall
  rw [hprogram]
  cases breaking with
  | false => exact hnamed
  | true =>
    refine forall₂_boxFirst ?_ hnamed []
    rintro source declaration ⟨hname, hmembers⟩
    exact ⟨(Declaration.name_mapSlots _ _).trans hname, hmembers.mapSlots _⟩

/-- Names whose words are the same, in other spellings: the second property is numbered, and so is
the third, whose own name is taken by then. The fourth is a keyword. -/
def spellings : Document where
  root := {
    definitions := [
      ("row", {
        properties := [
          ("a", { types := [.string] }),
          ("A", { types := [.string] }),
          ("a2", { types := [.string] }),
          ("do", { types := [.string] })] }),
      ("tone", { enumeration := some [.str "", .str "self", .str "Self"] })] }

/-- The program for them. -/
def spellingsProgram : Program where
  rootName := none
  declarations := [
    .struct {
      name := "Row"
      sourceName := "row"
      fields := [
        { name := "a", sourceName := "a", type := .optional (.primitive "String") },
        { name := "a_2", sourceName := "A", type := .optional (.primitive "String"),
          rename := some "A" },
        { name := "a_2_2", sourceName := "a2", type := .optional (.primitive "String"),
          rename := some "a2" },
        { name := "do_", sourceName := "do", type := .optional (.primitive "String"),
          rename := some "do" }]
      isDefault := true
      rename := some "row" },
    .enum {
      name := "Tone"
      sourceName := "tone"
      variants := [⟨"Empty", some ""⟩, ⟨"Self_", some "self"⟩, ⟨"Self_2", some "Self"⟩]
      rename := some "tone" }]
  needsOneOrMany := false

theorem forall₂_membersNamed_spellings :
    (spellings.expand true).outcome = .ok spellingsProgram ∧
      List.Forall₂ (fun source declaration =>
          declaration.name = typeName source.1 ∧
            declaration.MembersNamed spellings.root source.2)
        spellings.sources spellingsProgram.declarations := by
  have hexpand : (spellings.expand true).outcome = .ok spellingsProgram := by cbv
  exact ⟨hexpand, forall₂_membersNamed_of_expand hexpand⟩

end Document

end SchemaForge
