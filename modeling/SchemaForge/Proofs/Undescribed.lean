import SchemaForge.Proofs.PairedValues

/-! # Documents without their descriptions

The descriptions of a document stand under a keyword of its schemas. Taking them out before the
document is read, or out of the schema that is read, comes to the same.
-/

namespace SchemaForge

namespace Schema

mutual

/-- The schema without its description and those of the schemas it holds. -/
def undescribed : Schema → Schema
  | ⟨reference, types, properties, required, items, additional, allOf, anyOf, enumeration,
      defaultValue, _, definitions, location⟩ =>
    { reference, types, required, enumeration, defaultValue, location
      properties := undescribedEntries properties
      items := undescribedList items
      additional := undescribedAdditional additional
      allOf := undescribedList allOf
      anyOf := undescribedList anyOf
      definitions := undescribedEntries definitions }
  termination_by structural schema => schema

/-- What is said about additional properties, without descriptions. -/
def undescribedAdditional : Additional Schema → Additional Schema
  | .unspecified => .unspecified
  | .permitted allowed => .permitted allowed
  | .constrained schema => .constrained (undescribed schema)
  termination_by structural additional => additional

/-- Listed schemas without descriptions. -/
def undescribedList : List Schema → List Schema
  | [] => []
  | schema :: rest => undescribed schema :: undescribedList rest
  termination_by structural schemas => schemas

/-- Named schemas without descriptions. -/
def undescribedEntries : List (String × Schema) → List (String × Schema)
  | [] => []
  | (key, schema) :: rest => (key, undescribed schema) :: undescribedEntries rest
  termination_by structural entries => entries

end

theorem undescribedList_eq_map (schemas : List Schema) :
    undescribedList schemas = schemas.map undescribed := by
  induction schemas with
  | nil => rfl
  | cons schema rest ih => rw [undescribedList, ih, List.map_cons]

theorem undescribedEntries_eq_map (entries : List (String × Schema)) :
    undescribedEntries entries = entries.map fun entry => (entry.1, entry.2.undescribed) := by
  induction entries with
  | nil => rfl
  | cons entry rest ih =>
    obtain ⟨key, schema⟩ := entry
    rw [undescribedEntries, ih, List.map_cons]

end Schema

namespace Json

/-- The keywords under which a schema has a table of named schemas. -/
def tableKeywords : List String :=
  ["properties", "patternProperties", "dependencies", "dependentSchemas", "definitions", "$defs"]

/-- The keywords under which a schema has another schema, or a list of them. -/
def schemaKeywords : List String :=
  ["items", "additionalItems", "additionalProperties", "propertyNames", "contains", "allOf",
    "anyOf", "oneOf", "not", "if", "then", "else"]

mutual

/-- The value of a schema without its description and those of the schemas it holds. -/
def undescribed : Json → Json
  | .obj members => .obj (undescribedMembers members)
  | value => value
  termination_by structural value => value

/-- The value under a keyword of a schema, without the descriptions of the schemas it holds. -/
def undescribedUnder (keyword : String) : Json → Json
  | .obj members =>
    if keyword ∈ tableKeywords then .obj (undescribedEntries members)
    else if keyword ∈ schemaKeywords then .obj (undescribedMembers members)
    else .obj members
  | .arr items => if keyword ∈ schemaKeywords then .arr (undescribedList items) else .arr items
  | value => value
  termination_by structural value => value

/-- The members of a schema without descriptions. -/
def undescribedMembers : List (String × Json) → List (String × Json)
  | [] => []
  | (keyword, value) :: rest =>
    if keyword = "description" then undescribedMembers rest
    else (keyword, undescribedUnder keyword value) :: undescribedMembers rest
  termination_by structural members => members

/-- Listed schemas without descriptions. -/
def undescribedList : List Json → List Json
  | [] => []
  | value :: rest => undescribed value :: undescribedList rest
  termination_by structural values => values

/-- Named schemas without descriptions. -/
def undescribedEntries : List (String × Json) → List (String × Json)
  | [] => []
  | (key, value) :: rest => (key, undescribed value) :: undescribedEntries rest
  termination_by structural entries => entries

end

/-- Every other keyword of a schema is found as it was, its value without descriptions. -/
theorem get?_undescribedMembers (members : List (String × Json)) {keyword : String}
    (h : keyword ≠ "description") :
    Entries.get? (undescribedMembers members) keyword
      = (Entries.get? members keyword).map (undescribedUnder keyword) := by
  induction members with
  | nil => rfl
  | cons member rest ih =>
    obtain ⟨other, value⟩ := member
    rw [undescribedMembers, Entries.get?_cons]
    by_cases hother : other = "description"
    · have hne : keyword ≠ other := fun heq => h (heq.trans hother)
      rw [if_pos hother, if_neg hne, ih]
    · rw [if_neg hother, Entries.get?_cons, ih]
      by_cases hkeyword : keyword = other
      · rw [if_pos hkeyword, if_pos hkeyword, hkeyword]
        rfl
      · rw [if_neg hkeyword, if_neg hkeyword]

theorem get?_description_undescribedMembers (members : List (String × Json)) :
    Entries.get? (undescribedMembers members) "description" = none := by
  induction members with
  | nil => rfl
  | cons member rest ih =>
    obtain ⟨other, value⟩ := member
    rw [undescribedMembers]
    by_cases hother : other = "description"
    · rw [if_pos hother, ih]
    · rw [if_neg hother, Entries.get?_cons, if_neg (Ne.symm hother), ih]

/-- A keyword that holds no schemas keeps its value. -/
theorem get?_undescribedMembers_of_plain (members : List (String × Json)) {keyword : String}
    (h : keyword ≠ "description") (htable : keyword ∉ tableKeywords)
    (hschema : keyword ∉ schemaKeywords) :
    Entries.get? (undescribedMembers members) keyword = Entries.get? members keyword := by
  have hunder : ∀ value, undescribedUnder keyword value = value := by
    intro value
    cases value <;> simp [undescribedUnder, htable, hschema]
  rw [get?_undescribedMembers members h]
  cases Entries.get? members keyword with
  | none => rfl
  | some value => rw [Option.map_some, hunder]

end Json

/-! ## Reading documents without descriptions -/

namespace Schema

/-- The value is read alike with and without its descriptions, and so are they from what is
read. -/
def ReadAlike (value : Json) : Prop :=
  ∀ location, Agree (fun schema other => other = schema.undescribed) (readAt location value)
    (readAt location value.undescribed)

theorem forall₂_undescribed_iff {schemas others : List Schema} :
    List.Forall₂ (fun schema other => other = schema.undescribed) schemas others
      ↔ others = undescribedList schemas := by
  rw [undescribedList_eq_map, eq_comm, ← List.forall₂_eq_eq_eq, List.forall₂_map_left_iff]
  simp only [eq_comm]

theorem forall₂_undescribedEntries_iff {entries others : List (String × Schema)} :
    List.Forall₂ (fun entry other => entry.1 = other.1 ∧ other.2 = entry.2.undescribed)
      entries others ↔ others = undescribedEntries entries := by
  rw [undescribedEntries_eq_map, eq_comm, ← List.forall₂_eq_eq_eq, List.forall₂_map_left_iff]
  simp only [Prod.ext_iff, eq_comm]

theorem ReadAlike.readsAlike {value : Json} (h : ReadAlike value) :
    ReadsAlike Eq (fun schema other => other = schema.undescribed) value value.undescribed := by
  rintro location _ rfl
  exact h location

theorem forall₂_readsAlike_entries {entries : List (String × Json)}
    (h : ∀ entry ∈ entries, ReadAlike entry.2) :
    List.Forall₂ (fun entry other => entry.1 = other.1 ∧
        ReadsAlike Eq (fun schema other => other = schema.undescribed) entry.2 other.2)
      entries (Json.undescribedEntries entries) := by
  induction entries with
  | nil => exact List.Forall₂.nil
  | cons entry rest ih =>
    rw [List.forall_mem_cons] at h
    exact List.Forall₂.cons ⟨rfl, h.1.readsAlike⟩ (ih h.2)

theorem forall₂_readsAlike_list {values : List Json} (h : ∀ value ∈ values, ReadAlike value) :
    List.Forall₂ (ReadsAlike Eq fun schema other => other = schema.undescribed) values
      (Json.undescribedList values) := by
  induction values with
  | nil => exact List.Forall₂.nil
  | cons value rest ih =>
    rw [List.forall_mem_cons] at h
    exact List.Forall₂.cons h.1.readsAlike (ih h.2)

/-- What is paired keyword by keyword with undescribed schemas is undescribed itself. -/
theorem eq_undescribed_of_alike {schema other : Schema}
    (h : Alike (fun schema other => other = schema.undescribed) schema other)
    (hdefinitions : List.Forall₂ (fun entry other => entry.1 = other.1 ∧
      other.2 = entry.2.undescribed) schema.definitions other.definitions)
    (hdescription : other.description = none) (hlocation : schema.location = other.location) :
    other = schema.undescribed := by
  obtain ⟨hreference, htypes, hproperties, hrequired, hitems, hadditional, hallOf, hanyOf,
    henumeration, hdefault⟩ := h
  rw [forall₂_undescribed_iff] at hitems hallOf hanyOf
  rw [forall₂_undescribedEntries_iff] at hproperties hdefinitions
  have hvalue : other.additional = undescribedAdditional schema.additional := by
    rcases additionalAlike_cases hadditional with
      ⟨hfirst, hsecond⟩ | ⟨allowed, hfirst, hsecond⟩ | ⟨held, _, hfirst, hsecond, rfl⟩ <;>
      rw [hfirst, hsecond] <;> rfl
  cases schema
  cases other
  simp only [undescribed, mk.injEq]
  exact ⟨hreference.symm, htypes.symm, hproperties, hrequired.symm, hitems, hvalue, hallOf, hanyOf,
    henumeration.symm, hdefault.symm, hdescription, hdefinitions, hlocation.symm⟩

/-! The values that a schema holds are smaller than it, and read alike with and without
descriptions, so each of its parts is. -/

section

variable {members : List (String × Json)}
  (ih : ∀ value, sizeOf value < sizeOf members → ReadAlike value)

theorem sizeOf_lt_of_get? {keyword : String} {value : Json}
    (h : Entries.get? members keyword = some value) : sizeOf value < sizeOf members := by
  have hentry := List.sizeOf_lt_of_mem (Entries.mem_of_get?_eq_some h)
  rw [Prod.mk.sizeOf_spec] at hentry
  omega

include ih

theorem readAlike_entries {keyword : String} {entries : List (String × Json)}
    (h : Entries.get? members keyword = some (.obj entries)) :
    ∀ entry ∈ entries, ReadAlike entry.2 := by
  intro entry hentry
  apply ih
  have hobject := sizeOf_lt_of_get? h
  have hsize := List.sizeOf_lt_of_mem hentry
  obtain ⟨key, value⟩ := entry
  rw [Json.obj.sizeOf_spec] at hobject
  rw [Prod.mk.sizeOf_spec] at hsize
  simp only
  omega

theorem readAlike_list {keyword : String} {values : List Json}
    (h : Entries.get? members keyword = some (.arr values)) :
    ∀ value ∈ values, ReadAlike value := by
  intro value hvalue
  apply ih
  have harray := sizeOf_lt_of_get? h
  have hsize := List.sizeOf_lt_of_mem hvalue
  rw [Json.arr.sizeOf_spec] at harray
  omega

/-- Keyword by keyword, members are paired with themselves without descriptions. -/
theorem membersPaired_undescribed :
    Json.MembersPaired (ReadsAlike Eq fun schema other => other = schema.undescribed) members
      (Json.undescribedMembers members) := by
  refine ⟨?_, ?_, ?_, ?_, ?_⟩
  · intro keyword hkeyword
    have hforms : ∀ keyword ∈ ["$ref", "type", "required", "enum", "default"],
        keyword ≠ "description" ∧ keyword ∉ Json.tableKeywords ∧
          keyword ∉ Json.schemaKeywords := by decide
    obtain ⟨hdescription, htable, hschema⟩ := hforms keyword hkeyword
    exact (Json.get?_undescribedMembers_of_plain members hdescription htable hschema).symm
  · intro keyword hkeyword
    have hforms : ∀ keyword ∈ ["properties", "definitions", "$defs"], keyword ≠ "description" ∧
        keyword ∈ Json.tableKeywords ∧ keyword ∉ Json.schemaKeywords := by decide
    obtain ⟨hdescription, htable, hnone⟩ := hforms keyword hkeyword
    rw [Json.get?_undescribedMembers _ hdescription]
    cases hget : Entries.get? members keyword with
    | none => exact .none
    | some value =>
      cases value with
      | obj entries =>
        rw [Option.map_some, Json.undescribedUnder, if_pos htable]
        exact .some (.table (forall₂_readsAlike_entries (readAlike_entries ih hget)))
      | arr values =>
        rw [Option.map_some, Json.undescribedUnder, if_neg hnone]
        exact .some (.loose nofun)
      | _ => exact .some (.loose nofun)
  · intro keyword hkeyword
    have hforms : ∀ keyword ∈ ["allOf", "anyOf"], keyword ≠ "description" ∧
        keyword ∉ Json.tableKeywords ∧ keyword ∈ Json.schemaKeywords := by decide
    obtain ⟨hdescription, hnone, hschemas⟩ := hforms keyword hkeyword
    rw [Json.get?_undescribedMembers _ hdescription]
    cases hget : Entries.get? members keyword with
    | none => exact .none
    | some value =>
      cases value with
      | null => exact .some .null
      | arr values =>
        rw [Option.map_some, Json.undescribedUnder, if_pos hschemas]
        exact .some (.list (forall₂_readsAlike_list (readAlike_list ih hget)))
      | obj entries =>
        rw [Option.map_some, Json.undescribedUnder, if_neg hnone, if_pos hschemas]
        exact .some (.loose ⟨nofun, nofun⟩ ⟨nofun, nofun⟩)
      | _ => exact .some (.loose ⟨nofun, nofun⟩ ⟨nofun, nofun⟩)
  · rw [Json.get?_undescribedMembers _ (by decide)]
    cases hget : Entries.get? members "items" with
    | none => exact .none
    | some value =>
      cases value with
      | null => exact .some .null
      | arr values => exact .some (.list (forall₂_readsAlike_list (readAlike_list ih hget)))
      | _ =>
        exact .some (.single (ih _ (sizeOf_lt_of_get? hget)).readsAlike ⟨nofun, nofun⟩
          ⟨nofun, nofun⟩)
  · rw [Json.get?_undescribedMembers _ (by decide)]
    cases hget : Entries.get? members "additionalProperties" with
    | none => exact .none
    | some value =>
      cases value with
      | bool allowed => exact .some (.permitted allowed)
      | arr values => exact .some (.constrained (fun _ _ _ => .error _ _) nofun nofun)
      | _ => exact .some (.constrained (ih _ (sizeOf_lt_of_get? hget)).readsAlike nofun nofun)

/-- The object of a schema is read alike with and without descriptions. -/
theorem readAlike_obj : ReadAlike (.obj members) := by
  intro location
  refine (agree_readAt_obj (fun h _ => congrArg (· ++ _) h) (membersPaired_undescribed ih)
    rfl).mono ?_
  rintro schema other ⟨hlike, hdefinitions, ⟨-, hdescription⟩, hlocation, hother⟩
  refine eq_undescribed_of_alike hlike hdefinitions ?_ (hlocation.trans hother.symm)
  rw [hdescription, readDescription, Json.get?_description_undescribedMembers]

end

/-- Every value is read alike with and without descriptions. -/
theorem readAlike (value : Json) : ReadAlike value := by
  induction value using (measure (sizeOf : Json → Nat)).wf.induction with
  | _ value ih =>
    cases value with
    | obj members =>
      refine readAlike_obj fun held hheld => ih held ?_
      show sizeOf held < sizeOf (Json.obj members)
      rw [Json.obj.sizeOf_spec]
      omega
    | bool allowed => exact fun location => .ok rfl
    | _ => exact fun location => .error _ _

/-- The schemas differ in descriptions alone. -/
def SameUndescribed (a b : Schema) : Prop :=
  a.undescribed = b.undescribed

/-- Documents that differ in descriptions alone are read as schemas that differ in descriptions
alone, or neither of them is read. -/
theorem agree_read {first second : Json} (h : first.undescribed = second.undescribed) :
    Agree SameUndescribed (read first) (read second) := by
  have hfirst := readAlike first "#"
  rw [h] at hfirst
  have hsecond := readAlike second "#"
  -- each document is compared with the one document that both are without descriptions
  refine .of_forall_ok ?_ ?_
  · intro schema hschema
    obtain ⟨plain, hplain, rfl⟩ := hfirst.exists_ok hschema
    obtain ⟨other, hother, heq⟩ := hsecond.flip.exists_ok hplain
    exact ⟨other, hother, heq⟩
  · intro other hother
    obtain ⟨plain, hplain, rfl⟩ := hsecond.exists_ok hother
    obtain ⟨schema, hschema, -⟩ := hfirst.flip.exists_ok hplain
    exact ⟨schema, hschema⟩

end Schema

end SchemaForge
