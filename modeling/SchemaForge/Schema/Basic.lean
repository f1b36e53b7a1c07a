import SchemaForge.Json.Basic

/-! # Schemas

The part of a JSON Schema document that types are generated from. References are kept as they are
written: following them is the work of resolution.
-/

namespace SchemaForge

/-- The names that the keyword `type` may list. -/
inductive SimpleType where
  | array
  | boolean
  | integer
  | null
  | number
  | object
  | string
deriving DecidableEq

namespace SimpleType

/-- Every simple type. -/
def all : List SimpleType := [array, boolean, integer, null, number, object, string]

/-- The name of a simple type in a document. -/
def name : SimpleType → String
  | array => "array"
  | boolean => "boolean"
  | integer => "integer"
  | null => "null"
  | number => "number"
  | object => "object"
  | string => "string"

/-- The simple type of a name. -/
def ofName? (name : String) : Option SimpleType :=
  all.find? fun type => type.name = name

/-- A name is read back as the type it names. -/
theorem ofName?_name (type : SimpleType) : ofName? type.name = some type := by
  cases type <;> decide

end SimpleType

/-- What the keyword `additionalProperties` says: nothing, a permission, or a schema for the
values. -/
inductive Additional (σ : Type) where
  | unspecified
  | permitted (allowed : Bool)
  | constrained (schema : σ)

/-- One schema of a document. The `location` is its address in the document and takes no part in
equality; `enumeration` and `defaultValue` tell an absent keyword from any value it may have. -/
structure Schema where
  reference : Option String := none
  types : List SimpleType := []
  properties : List (String × Schema) := []
  required : List String := []
  items : List Schema := []
  additional : Additional Schema := .unspecified
  allOf : List Schema := []
  anyOf : List Schema := []
  enumeration : Option (List Json) := none
  defaultValue : Option Json := none
  description : Option String := none
  definitions : List (String × Schema) := []
  location : String := "#"

namespace Schema

instance : Inhabited Schema := ⟨⟨none, [], [], [], [], .unspecified, [], [], none, none, none, [], "#"⟩⟩

/-- Equality of enumerations. -/
def sameEnumeration : Option (List Json) → Option (List Json) → Bool
  | none, none => true
  | some a, some b => Json.sameItems a b
  | none, some _ | some _, none => false

/-- Equality of default values. -/
def sameDefault : Option Json → Option Json → Bool
  | none, none => true
  | some a, some b => Json.same a b
  | none, some _ | some _, none => false

mutual

/-- Equality of schemas: members in any order, values as JSON compares them, addresses left
out. -/
def same : Schema → Schema → Bool
  | ⟨reference, types, properties, required, items, additional, allOf, anyOf, enumeration,
      defaultValue, description, definitions, _⟩, other =>
    reference == other.reference && types == other.types
      && properties.length == other.properties.length
      && sameEntries properties other.properties
      && required == other.required && sameList items other.items
      && sameAdditional additional other.additional
      && sameList allOf other.allOf && sameList anyOf other.anyOf
      && sameEnumeration enumeration other.enumeration
      && sameDefault defaultValue other.defaultValue
      && description == other.description
      && definitions.length == other.definitions.length
      && sameEntries definitions other.definitions
  termination_by structural schema => schema

/-- Equality of what is said about additional properties. -/
def sameAdditional : Additional Schema → Additional Schema → Bool
  | .unspecified, .unspecified => true
  | .permitted a, .permitted b => a == b
  | .constrained a, .constrained b => same a b
  | .unspecified, _ | .permitted _, _ | .constrained _, _ => false
  termination_by structural additional => additional

/-- Equality of lists of schemas, in order. -/
def sameList : List Schema → List Schema → Bool
  | [], [] => true
  | a :: as, b :: bs => same a b && sameList as bs
  | [], _ :: _ | _ :: _, [] => false
  termination_by structural schemas => schemas

/-- Every one of the entries has an equal counterpart under its key. -/
def sameEntries : List (String × Schema) → List (String × Schema) → Bool
  | [], _ => true
  | (key, a) :: as, bs =>
    (match Entries.get? bs key with
      | some b => same a b
      | none => false) && sameEntries as bs
  termination_by structural entries => entries

end

mutual

/-- The references written anywhere in a schema, definitions included. -/
def references : Schema → List String
  | ⟨reference, _, properties, _, items, additional, allOf, anyOf, _, _, _, definitions, _⟩ =>
    reference.toList ++ referencesOfEntries properties ++ referencesOfList items
      ++ (match additional with
        | .constrained schema => references schema
        | .unspecified | .permitted _ => [])
      ++ referencesOfList allOf ++ referencesOfList anyOf ++ referencesOfEntries definitions

/-- The references written in a list of schemas. -/
def referencesOfList : List Schema → List String
  | [] => []
  | schema :: rest => references schema ++ referencesOfList rest

/-- The references written in named schemas. -/
def referencesOfEntries : List (String × Schema) → List String
  | [] => []
  | (_, schema) :: rest => references schema ++ referencesOfEntries rest

end

end Schema

end SchemaForge
