import SchemaForge.Error
import SchemaForge.Schema.Basic

/-! # Reading schemas

Turns a JSON value into a schema. Only the keywords that matter to generation are looked at, in a
fixed order, so the first fault reported does not depend on the order of the members. Every schema
keeps its address, built from the keys and indices that lead to it.
-/

namespace SchemaForge.Schema

/-- The simple types that the value of `type` names: one name, or a list of them. -/
def readTypes (location : String) (value : Json) : Except Error (List SimpleType) :=
  let names := match value with
    | .arr names => names
    | name => [name]
  names.mapM fun name =>
    let type? := match name with
      | .str text => SimpleType.ofName? text
      | _ => none
    match type? with
    | some type => .ok type
    | none => .error (.schema (.unknownType name) location)

/-- The reference of a schema object. -/
def readReference (location : String) (members : Entries Json) : Except Error (Option String) :=
  match members.get? "$ref" with
  | none => .ok none
  | some (.str reference) => .ok (some reference)
  | some _ => .error (.schema .referenceNotText location)

/-- The required names of a schema object; what is not a text in the list is passed over, and so
is a value that is no list. -/
def readRequired (members : Entries Json) : List String :=
  match members.get? "required" with
  | some (.arr names) => names.filterMap fun name =>
    match name with
    | .str text => some text
    | _ => none
  | _ => []

/-- The enumeration of a schema object. -/
def readEnumeration (location : String) (members : Entries Json) :
    Except Error (Option (List Json)) :=
  match members.get? "enum" with
  | none => .ok none
  | some (.arr values) => .ok (some values)
  | some _ => .error (.schema .enumerationNotAList location)

/-- The description of a schema object, where it is a text. -/
def readDescription (members : Entries Json) : Option String :=
  match members.get? "description" with
  | some (.str text) => some text
  | _ => none

mutual

/-- Reads the schema at a location. A truth value is a schema without any keyword. -/
def readAt (location : String) : Json → Except Error Schema
  | .bool _ => .ok { location := location }
  | .obj members => do
    let reference ← readReference location members
    let types ← match Entries.get? members "type" with
      | some value => readTypes location value
      | none => .ok []
    let properties ← readProperties location members
    let items ← readItems location members
    let additional ← readAdditional location members
    let allOf ← readSchemaList "allOf" location members
    let anyOf ← readSchemaList "anyOf" location members
    let enumeration ← readEnumeration location members
    let definitions ← readDefinitions "definitions" location members
    let furtherDefinitions ← readDefinitions "$defs" location members
    return {
      reference, types, properties, items, additional, allOf, anyOf, enumeration, location
      required := readRequired members
      defaultValue := Entries.get? members "default"
      description := readDescription members
      definitions := Entries.putAll definitions furtherDefinitions }
  | value => .error (.schema (.notASchema value) location)

/-- The properties of a schema object. -/
def readProperties (location : String) : List (String × Json) → Except Error (Entries Schema)
  | [] => .ok []
  | (key, value) :: rest =>
    if key = "properties" then
      match value with
      | .obj entries => readEntries (location ++ "/properties") entries
      | value => .error (.notAnObject value "items")
    else readProperties location rest

/-- The item schemas of a schema object: a list of them, or a single one. -/
def readItems (location : String) : List (String × Json) → Except Error (List Schema)
  | [] => .ok []
  | (key, value) :: rest =>
    if key = "items" then
      match value with
      | .null => .ok []
      | .arr schemas => readList (location ++ "/items") 0 schemas
      | value => do return [← readAt (location ++ "/items") value]
    else readItems location rest

/-- What a schema object says about additional properties. -/
def readAdditional (location : String) :
    List (String × Json) → Except Error (Additional Schema)
  | [] => .ok .unspecified
  | (key, value) :: rest =>
    if key = "additionalProperties" then
      match value with
      | .bool allowed => .ok (.permitted allowed)
      | value => do return .constrained (← readAt (location ++ "/additionalProperties") value)
    else readAdditional location rest

/-- The list of schemas under a keyword of a schema object. -/
def readSchemaList (keyword location : String) :
    List (String × Json) → Except Error (List Schema)
  | [] => .ok []
  | (key, value) :: rest =>
    if key = keyword then
      match value with
      | .null => .ok []
      | .arr schemas => readList (location ++ "/" ++ keyword) 0 schemas
      | _ => .error (.schema .notASchemaList (location ++ "/" ++ keyword))
    else readSchemaList keyword location rest

/-- The definitions under a keyword of a schema object; a value that is off defines nothing. -/
def readDefinitions (keyword location : String) :
    List (String × Json) → Except Error (Entries Schema)
  | [] => .ok []
  | (key, value) :: rest =>
    if key = keyword then
      match value with
      | .obj entries => readEntries (location ++ "/" ++ keyword) entries
      | value => if value.isOn then .error (.notAnObject value "items") else .ok []
    else readDefinitions keyword location rest

/-- Reads named schemas, each at its name below the location. -/
def readEntries (location : String) : List (String × Json) → Except Error (Entries Schema)
  | [] => .ok []
  | (key, value) :: rest => do
    let schema ← readAt (location ++ "/" ++ key) value
    let more ← readEntries location rest
    return (key, schema) :: more

/-- Reads listed schemas, each at its index below the location. -/
def readList (location : String) (index : Nat) : List Json → Except Error (List Schema)
  | [] => .ok []
  | value :: rest => do
    let schema ← readAt (location ++ "/" ++ toString index) value
    let more ← readList location (index + 1) rest
    return schema :: more

end

/-- Reads a document. -/
def read (document : Json) : Except Error Schema := readAt "#" document

end SchemaForge.Schema
