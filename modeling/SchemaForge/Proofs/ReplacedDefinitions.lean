import SchemaForge.Proofs.DistinctKeys

/-! # Replaced definitions

A document is read keyword by keyword, and a definition at a place that its table and its name tell.
So another value for a definition changes that definition alone in what is read.
-/

namespace SchemaForge

namespace Schema

open Json

/-- The value of the definition in a table of the members. -/
def definedIn (members : Entries Json) (table name : String) : Option Json :=
  Entries.get? (tableEntries (members.get? table)) name

/-- The members with another value for the definition in the table. -/
def putDefinition (members : Entries Json) (table name : String) (value : Json) : Entries Json :=
  members.put table (.obj (Entries.put (tableEntries (members.get? table)) name value))

theorem readEntries_put {location name : String} {entries : Entries Json}
    {schemas : Entries Schema} (h : readEntries location entries = .ok schemas) {value : Json}
    {schema : Schema} (hvalue : readAt (location ++ "/" ++ name) value = .ok schema) :
    readEntries location (Entries.put entries name value)
      = .ok (Entries.put schemas name schema) := by
  induction entries generalizing schemas with
  | nil =>
    cases h
    rw [Entries.put, readEntries, hvalue]
    rfl
  | cons entry rest ih =>
    obtain ⟨key, held⟩ := entry
    rw [readEntries] at h
    obtain ⟨own, hown, h⟩ := bind_eq_ok.mp h
    obtain ⟨more, hmore, h⟩ := bind_eq_ok.mp h
    cases h
    rw [Entries.put, Entries.put]
    split
    · rw [readEntries, hvalue, hmore]
      rfl
    · rw [readEntries, hown, ih hmore]
      rfl

/-- Under another table of definitions, all but the definitions is read as before. -/
theorem readAt_put_table {location table : String} {members : Entries Json} {schema : Schema}
    (hfrom : ReadFrom location members schema) (htable : table ∈ Reference.tableNames) {value : Json}
    {definitions further : Entries Schema}
    (hdefinitions : readDefinitions "definitions" location (members.put table value)
      = .ok definitions)
    (hfurther : readDefinitions "$defs" location (members.put table value) = .ok further) :
    readAt location (.obj (members.put table value))
      = .ok { schema with definitions := Entries.putAll definitions further } := by
  have hget : ∀ keyword, keyword ∉ Reference.tableNames →
      (members.put table value).get? keyword = members.get? keyword := by
    intro keyword hkeyword
    refine Entries.get?_put_ne _ _ ?_
    rintro rfl
    exact hkeyword htable
  refine readAt_of_readFrom ⟨?_, ?_, ?_, ?_, ?_, ?_, ?_, ?_, ?_, ?_, ?_,
    ⟨definitions, further, hdefinitions, hfurther, rfl⟩, hfrom.location⟩
  · rw [readReference, hget "$ref" (by decide)]
    exact hfrom.reference
  · rw [hget "type" (by decide)]
    exact hfrom.types
  · rw [readProperties_eq, hget "properties" (by decide), ← readProperties_eq]
    exact hfrom.properties
  · rw [readRequired, hget "required" (by decide)]
    exact hfrom.required
  · rw [readItems_eq, hget "items" (by decide), ← readItems_eq]
    exact hfrom.items
  · rw [readAdditional_eq, hget "additionalProperties" (by decide), ← readAdditional_eq]
    exact hfrom.additional
  · rw [readSchemaList_eq, hget "allOf" (by decide), ← readSchemaList_eq]
    exact hfrom.allOf
  · rw [readSchemaList_eq, hget "anyOf" (by decide), ← readSchemaList_eq]
    exact hfrom.anyOf
  · rw [readEnumeration, hget "enum" (by decide)]
    exact hfrom.enumeration
  · rw [hget "default" (by decide)]
    exact hfrom.defaultValue
  · rw [readDescription, hget "description" (by decide)]
    exact hfrom.description

section

variable {location table name : String} {members : Entries Json} {schemas : Entries Schema}

/-- A definition is read from its value, and what is not defined is not read. -/
theorem rel_definedIn (h : readDefinitions table location members = .ok schemas) :
    Option.Rel ReadOf (definedIn members table name) (Entries.get? schemas name) :=
  Entries.rel_get? (forall₂_of_readDefinitions h) name

theorem readDefinitions_putDefinition (h : readDefinitions table location members = .ok schemas)
    {value : Json} {schema : Schema}
    (hvalue : readAt (location ++ "/" ++ table ++ "/" ++ name) value = .ok schema) :
    readDefinitions table location (putDefinition members table name value)
      = .ok (Entries.put schemas name schema) := by
  rw [readDefinitions_eq, putDefinition, Entries.get?_put_self]
  exact readEntries_put (readEntries_of_readDefinitions h) hvalue

theorem readDefinitions_putDefinition_of_ne {other : String} (hne : other ≠ table) (value : Json) :
    readDefinitions other location (putDefinition members table name value)
      = readDefinitions other location members := by
  rw [readDefinitions_eq, putDefinition, Entries.get?_put_ne _ _ hne, ← readDefinitions_eq]

/-- Another value for a definition is another definition in what is read. Of two definitions of one
name, the one under `$defs` counts. -/
theorem exists_definition_of_readAt {body : Json} {root : Schema}
    (hkeys : (Json.obj members).hasDistinctKeys = true)
    (htable : table ∈ Reference.tableNames) (hbody : definedIn members table name = some body)
    (hlast : table = "definitions" → definedIn members "$defs" name = none)
    (hread : readAt location (.obj members) = .ok root) :
    ∃ schema, Entries.get? root.definitions name = some schema ∧ ReadOf body schema ∧
      ∀ value replaced, readAt (location ++ "/" ++ table ++ "/" ++ name) value = .ok replaced →
        readAt location (.obj (putDefinition members table name value))
          = .ok { root with definitions := Entries.put root.definitions name replaced } := by
  have hfrom := readAt_obj_eq_ok hread
  obtain ⟨definitions, further, hdefinitions, hfurther, hroot⟩ := hfrom.definitions
  have hdefined : Option.Rel ReadOf (definedIn members "definitions" name)
    (Entries.get? definitions name) := rel_definedIn hdefinitions
  have hdefs : Option.Rel ReadOf (definedIn members "$defs" name) (Entries.get? further name) :=
    rel_definedIn hfurther
  simp only [Reference.tableNames, List.mem_cons, List.not_mem_nil, or_false] at htable
  rw [hroot]
  rcases htable with rfl | rfl
  · rw [hbody] at hdefined
    rw [hlast rfl] at hdefs
    generalize hfound : Entries.get? definitions name = found at hdefined
    generalize hnone : Entries.get? further name = missing at hdefs
    cases hdefs
    cases hdefined with
    | @some _ schema hschema =>
      have hmissing := (Entries.get?_eq_none_iff _ _).mp hnone
      refine ⟨schema, (Entries.get?_putAll_of_notMem _ hmissing).trans hfound, hschema, ?_⟩
      intro value replaced hvalue
      rw [← Entries.putAll_put (Entries.mem_keys_of_get?_eq_some hfound) hmissing]
      exact readAt_put_table hfrom List.mem_cons_self
        (readDefinitions_putDefinition hdefinitions hvalue)
        ((readDefinitions_putDefinition_of_ne (by decide) value).trans hfurther)
  · rw [hbody] at hdefs
    generalize hfound : Entries.get? further name = found at hdefs
    cases hdefs with
    | @some _ schema hschema =>
      have hdistinct : Entries.Distinct further := by
        rw [Entries.Distinct, ← Entries.keys_eq_of_forall₂ (forall₂_of_readDefinitions hfurther)]
        exact distinct_tableEntries hkeys "$defs"
      refine ⟨schema, Entries.get?_putAll_of_distinct hdistinct hfound, hschema, ?_⟩
      intro value replaced hvalue
      rw [← Entries.putAll_put_added hdistinct (Entries.mem_keys_of_get?_eq_some hfound)]
      exact readAt_put_table hfrom (by decide)
        ((readDefinitions_putDefinition_of_ne (by decide) value).trans hdefinitions)
        (readDefinitions_putDefinition hfurther hvalue)

end

end Schema

end SchemaForge
