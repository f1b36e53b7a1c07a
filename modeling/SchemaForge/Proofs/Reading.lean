import SchemaForge.Proofs.Leaves
import SchemaForge.Schema.Reading

/-! # Reading keyword by keyword

What is read under a keyword of a schema depends on the first member of that keyword alone, and every
schema that is held by the one that is read comes from a value below its members.
-/

namespace SchemaForge

namespace Json

/-- The values of an object. -/
def entryValues : Json → List Json
  | .obj entries => entries.map Prod.snd
  | _ => []

/-- The values of a list. -/
def listValues : Json → List Json
  | .arr values => values
  | _ => []

/-- The item schemas that a value gives: those of a list, or itself. -/
def itemValues : Json → List Json
  | .null => []
  | .arr values => values
  | value => [value]

/-- The schema for additional properties that a value gives, unless it is a truth value. -/
def additionalValues : Json → List Json
  | .bool _ => []
  | value => [value]

/-- The values that stand in the place of a schema right below the members of another. -/
def schemasBelow (members : Entries Json) : List Json :=
  (Entries.get? members "properties").elim [] entryValues
    ++ (Entries.get? members "items").elim [] itemValues
    ++ (Entries.get? members "additionalProperties").elim [] additionalValues
    ++ (Entries.get? members "allOf").elim [] listValues
    ++ (Entries.get? members "anyOf").elim [] listValues
    ++ (Entries.get? members "definitions").elim [] entryValues
    ++ (Entries.get? members "$defs").elim [] entryValues

end Json

namespace Schema

/-! What is read under a keyword depends on the first member of that keyword alone. -/

theorem readProperties_eq (location : String) (members : List (String × Json)) :
    readProperties location members = (Entries.get? members "properties").elim (.ok []) fun
      | .obj entries => readEntries (location ++ "/properties") entries
      | value => .error (.notAnObject value "items") := by
  refine Entries.eq_elim_get? (readProperties location) (fun key value rest => ?_) members
  cases value <;> rfl

theorem readItems_eq (location : String) (members : List (String × Json)) :
    readItems location members = (Entries.get? members "items").elim (.ok []) fun
      | .null => .ok []
      | .arr schemas => readList (location ++ "/items") 0 schemas
      | value => (readAt (location ++ "/items") value).map fun schema => [schema] := by
  refine Entries.eq_elim_get? (readItems location) (fun key value rest => ?_) members
  cases value <;> rfl

theorem readAdditional_eq (location : String) (members : List (String × Json)) :
    readAdditional location members
      = (Entries.get? members "additionalProperties").elim (.ok .unspecified) fun
        | .bool allowed => .ok (.permitted allowed)
        | value => (readAt (location ++ "/additionalProperties") value).map .constrained := by
  refine Entries.eq_elim_get? (readAdditional location) (fun key value rest => ?_) members
  cases value <;> rfl

theorem readSchemaList_eq (keyword location : String) (members : List (String × Json)) :
    readSchemaList keyword location members = (Entries.get? members keyword).elim (.ok []) fun
      | .null => .ok []
      | .arr schemas => readList (location ++ "/" ++ keyword) 0 schemas
      | _ => .error (.schema .notASchemaList (location ++ "/" ++ keyword)) := by
  refine Entries.eq_elim_get? (readSchemaList keyword location) (fun key value rest => ?_) members
  cases value <;> rfl

theorem readDefinitions_eq (keyword location : String) (members : List (String × Json)) :
    readDefinitions keyword location members = (Entries.get? members keyword).elim (.ok []) fun
      | .obj entries => readEntries (location ++ "/" ++ keyword) entries
      | value => if value.isOn then .error (.notAnObject value "items") else .ok [] := by
  refine Entries.eq_elim_get? (readDefinitions keyword location) (fun key value rest => ?_) members
  cases value <;> rfl

/-- An object is read keyword by keyword. -/
theorem readAt_obj (location : String) (members : Entries Json) :
    readAt location (.obj members) = (do
      let reference ← readReference location members
      let types ← (Entries.get? members "type").elim (.ok []) (readTypes location)
      let properties ← readProperties location members
      let items ← readItems location members
      let additional ← readAdditional location members
      let allOf ← readSchemaList "allOf" location members
      let anyOf ← readSchemaList "anyOf" location members
      let enumeration ← readEnumeration location members
      let definitions ← readDefinitions "definitions" location members
      let furtherDefinitions ← readDefinitions "$defs" location members
      return {
        reference, types, properties, items, additional, allOf, anyOf, enumeration, location
        required := readRequired members
        defaultValue := Entries.get? members "default"
        description := readDescription members
        definitions := Entries.putAll definitions furtherDefinitions }) := by
  rw [readAt]
  cases Entries.get? members "type" <;> rfl

open Json

/-! ## What is read -/

/-- The schema is what is read from the members at the location, keyword by keyword. -/
structure ReadFrom (location : String) (members : Entries Json) (schema : Schema) : Prop where
  reference : readReference location members = .ok schema.reference
  types : (Entries.get? members "type").elim (.ok []) (readTypes location) = .ok schema.types
  properties : readProperties location members = .ok schema.properties
  required : schema.required = readRequired members
  items : readItems location members = .ok schema.items
  additional : readAdditional location members = .ok schema.additional
  allOf : readSchemaList "allOf" location members = .ok schema.allOf
  anyOf : readSchemaList "anyOf" location members = .ok schema.anyOf
  enumeration : readEnumeration location members = .ok schema.enumeration
  defaultValue : schema.defaultValue = Entries.get? members "default"
  description : schema.description = readDescription members
  definitions : ∃ definitions further, readDefinitions "definitions" location members = .ok definitions ∧
    readDefinitions "$defs" location members = .ok further ∧
    schema.definitions = Entries.putAll definitions further
  location : schema.location = location

theorem readAt_obj_eq_ok {location : String} {members : Entries Json} {schema : Schema}
    (h : readAt location (.obj members) = .ok schema) : ReadFrom location members schema := by
  rw [readAt_obj] at h
  obtain ⟨reference, hreference, h⟩ := bind_eq_ok.mp h
  obtain ⟨types, htypes, h⟩ := bind_eq_ok.mp h
  obtain ⟨properties, hproperties, h⟩ := bind_eq_ok.mp h
  obtain ⟨items, hitems, h⟩ := bind_eq_ok.mp h
  obtain ⟨additional, hadditional, h⟩ := bind_eq_ok.mp h
  obtain ⟨allOf, hallOf, h⟩ := bind_eq_ok.mp h
  obtain ⟨anyOf, hanyOf, h⟩ := bind_eq_ok.mp h
  obtain ⟨enumeration, henumeration, h⟩ := bind_eq_ok.mp h
  obtain ⟨definitions, hdefinitions, h⟩ := bind_eq_ok.mp h
  obtain ⟨further, hfurther, h⟩ := bind_eq_ok.mp h
  cases h
  exact ⟨hreference, htypes, hproperties, rfl, hitems, hadditional, hallOf, hanyOf, henumeration,
    rfl, rfl, ⟨definitions, further, hdefinitions, hfurther, rfl⟩, rfl⟩

theorem readAt_of_readFrom {location : String} {members : Entries Json} {schema : Schema}
    (h : ReadFrom location members schema) : readAt location (.obj members) = .ok schema := by
  obtain ⟨definitions, further, hdefinitions, hfurther, heq⟩ := h.definitions
  rw [readAt_obj, h.reference, h.types, h.properties, h.items, h.additional, h.allOf, h.anyOf,
    h.enumeration, hdefinitions, hfurther, ← h.required, ← h.defaultValue, ← h.description]
  obtain ⟨⟩ := schema
  obtain rfl := h.location
  obtain rfl := heq
  rfl

/-- The schema is read from the value, wherever that stands. -/
def ReadOf (value : Json) (schema : Schema) : Prop := ∃ location, readAt location value = .ok schema

/-- Named values are read one by one, each under its name. -/
theorem forall₂_of_readEntries {location : String} {entries : List (String × Json)}
    {schemas : Entries Schema} (h : readEntries location entries = .ok schemas) :
    List.Forall₂ (fun entry named => entry.1 = named.1 ∧ ReadOf entry.2 named.2) entries schemas := by
  induction entries generalizing schemas with
  | nil =>
    cases h
    exact List.Forall₂.nil
  | cons entry rest ih =>
    obtain ⟨key, value⟩ := entry
    rw [readEntries] at h
    obtain ⟨schema, hschema, h⟩ := bind_eq_ok.mp h
    obtain ⟨more, hmore, h⟩ := bind_eq_ok.mp h
    cases h
    exact List.Forall₂.cons ⟨rfl, _, hschema⟩ (ih hmore)

theorem forall₂_of_readList {location : String} {index : Nat} {values : List Json}
    {schemas : List Schema} (h : readList location index values = .ok schemas) :
    List.Forall₂ ReadOf values schemas := by
  induction values generalizing index schemas with
  | nil =>
    cases h
    exact List.Forall₂.nil
  | cons value rest ih =>
    rw [readList] at h
    obtain ⟨schema, hschema, h⟩ := bind_eq_ok.mp h
    obtain ⟨more, hmore, h⟩ := bind_eq_ok.mp h
    cases h
    exact List.Forall₂.cons ⟨_, hschema⟩ (ih hmore)

theorem get?_of_readEnumeration {location : String} {members : Entries Json} {values : List Json}
    (h : readEnumeration location members = .ok (some values)) :
    members.get? "enum" = some (.arr values) := by
  unfold readEnumeration at h
  split at h
  · cases h
  · rename_i hget
    cases h
    exact hget
  · cases h

/-- The entries of the object that a table is. -/
def tableEntries : Option Json → Entries Json
  | some (.obj entries) => entries
  | _ => []

theorem mem_entryValues_of_mem_tableEntries {found : Option Json} {entry : String × Json}
    (h : entry ∈ tableEntries found) : entry.2 ∈ found.elim [] entryValues := by
  cases found with
  | none => exact absurd h List.not_mem_nil
  | some value =>
    cases value with
    | obj entries => exact List.mem_map_of_mem h
    | _ => exact absurd h List.not_mem_nil

section

variable {location : String} {members : Entries Json}

theorem forall₂_of_readProperties {schemas : Entries Schema}
    (h : readProperties location members = .ok schemas) :
    List.Forall₂ (fun entry named => entry.1 = named.1 ∧ ReadOf entry.2 named.2)
      (tableEntries (Entries.get? members "properties")) schemas := by
  rw [readProperties_eq] at h
  generalize Entries.get? members "properties" = found at h ⊢
  cases found with
  | none =>
    cases h
    exact List.Forall₂.nil
  | some value =>
    cases value with
    | obj entries => exact forall₂_of_readEntries h
    | _ => cases h

theorem readEntries_of_readDefinitions {keyword : String} {schemas : Entries Schema}
    (h : readDefinitions keyword location members = .ok schemas) :
    readEntries (location ++ "/" ++ keyword) (tableEntries (members.get? keyword)) = .ok schemas := by
  rw [readDefinitions_eq] at h
  generalize Entries.get? members keyword = found at h ⊢
  cases found with
  | none => exact h
  | some value =>
    cases value with
    | obj entries => exact h
    | _ =>
      dsimp only [Option.elim_some] at h
      split at h
      · cases h
      · exact h

theorem forall₂_of_readDefinitions {keyword : String} {schemas : Entries Schema}
    (h : readDefinitions keyword location members = .ok schemas) :
    List.Forall₂ (fun entry named => entry.1 = named.1 ∧ ReadOf entry.2 named.2)
      (tableEntries (Entries.get? members keyword)) schemas :=
  forall₂_of_readEntries (readEntries_of_readDefinitions h)

theorem forall₂_of_readSchemaList {keyword : String} {schemas : List Schema}
    (h : readSchemaList keyword location members = .ok schemas) :
    List.Forall₂ ReadOf ((Entries.get? members keyword).elim [] listValues) schemas := by
  rw [readSchemaList_eq] at h
  generalize Entries.get? members keyword = found at h ⊢
  cases found with
  | none =>
    cases h
    exact List.Forall₂.nil
  | some value =>
    cases value with
    | null =>
      cases h
      exact List.Forall₂.nil
    | arr values => exact forall₂_of_readList h
    | _ => cases h

theorem forall₂_of_readItems {schemas : List Schema}
    (h : readItems location members = .ok schemas) :
    List.Forall₂ ReadOf ((Entries.get? members "items").elim [] itemValues) schemas := by
  rw [readItems_eq] at h
  generalize Entries.get? members "items" = found at h ⊢
  cases found with
  | none =>
    cases h
    exact List.Forall₂.nil
  | some value =>
    cases value with
    | null =>
      cases h
      exact List.Forall₂.nil
    | arr values => exact forall₂_of_readList h
    | _ =>
      rw [Option.elim_some] at h
      obtain ⟨schema, hschema, rfl⟩ := map_eq_ok.mp h
      exact List.Forall₂.cons ⟨_, hschema⟩ List.Forall₂.nil

theorem readOf_of_readAdditional {held : Schema}
    (h : readAdditional location members = .ok (.constrained held)) :
    ∃ value ∈ (Entries.get? members "additionalProperties").elim [] additionalValues,
      ReadOf value held := by
  rw [readAdditional_eq] at h
  generalize Entries.get? members "additionalProperties" = found at h ⊢
  cases found with
  | none => cases h
  | some value =>
    cases value with
    | bool allowed => cases h
    | _ =>
      rw [Option.elim_some] at h
      obtain ⟨schema, hschema, heq⟩ := map_eq_ok.mp h
      cases heq
      exact ⟨_, List.mem_singleton_self _, _, hschema⟩

end

end Schema

end SchemaForge
