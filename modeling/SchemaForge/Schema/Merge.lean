import SchemaForge.Schema.Basic

/-! # Merging schemas

Widens a schema by another one, as the components of an `allOf` are put together: properties are
united, shared ones being merged in turn, the later reference and description win, required names
are united and types are narrowed to the common ones. Everything else is kept from the first.
-/

namespace SchemaForge.Schema

/-- Adds each name that is not there yet. -/
def addMissing (names added : List String) : List String :=
  added.foldl (fun done name => if name ∈ done then done else done ++ [name]) names

/-- The properties whose keys are not among those of others. -/
def missingFrom (held added : List (String × Schema)) : List (String × Schema) :=
  added.filter fun entry => entry.1 ∉ Entries.keys held

mutual

/-- The first schema widened by the second. The properties that only the second has go to the
end. -/
def merge : Schema → Schema → Schema
  | ⟨reference, types, properties, required, items, additional, allOf, anyOf, enumeration,
      defaultValue, description, definitions, location⟩, source =>
    { reference := source.reference.or reference
      types := types.filter fun type => type ∈ source.types
      properties := mergeShared properties source.properties
        ++ missingFrom properties source.properties
      required := addMissing required source.required
      description := source.description.or description
      items, additional, allOf, anyOf, enumeration, defaultValue, definitions, location }

/-- Properties of which each one that others share is widened by theirs, in its place. -/
def mergeShared : List (String × Schema) → List (String × Schema) → List (String × Schema)
  | [], _ => []
  | (key, held) :: rest, source =>
    let widened := match Entries.get? source key with
      | some other => merge held other
      | none => held
    (key, widened) :: mergeShared rest source

end

end SchemaForge.Schema
