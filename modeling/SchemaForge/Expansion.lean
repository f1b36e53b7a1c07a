import SchemaForge.Rust.AliasCycle
import SchemaForge.Rust.Containment
import SchemaForge.Schema.Resolution
import SchemaForge.Trace

/-! # Expansion

Expands a document into declarations: one for every definition, then one for the root if it has a
name. A schema with properties becomes a struct, one with enumerated texts an enum, and any other
an alias of the type inferred for it.
-/

namespace SchemaForge

open Rust

/-- A type inferred for a schema; with a default, an absent value need not be optional. -/
structure Inferred where
  type : Ty
  hasDefault : Bool := false

/-- The declarations generated from a document. -/
structure Program where
  rootName : Option String
  declarations : List Declaration
  needsOneOrMany : Bool

namespace Document

/-- Tells whether two alternatives are a schema and a list of items of the same schema. -/
def isOneOrMany (root single several : Schema) : Except Error Bool := do
  let single ← Schema.resolve root single
  let several ← Schema.resolve root several
  match several.types, several.items with
  | .array :: _, item :: _ => return Schema.same single (← Schema.resolve root item)
  | _, _ => return false

/-- Tells whether the default value is the empty object. -/
def defaultsToEmpty (defaultValue : Option Json) : Bool :=
  match defaultValue with
  | some (.obj []) => true
  | _ => false

/-- Infers the type of a schema. References are taken at their word and alternatives come before
the keyword `type`; what is understood in no other way may be any value. -/
def infer (document : Document) : Schema → Traced Inferred
  | ⟨reference, types, _, _, items, additional, _, anyOf, enumeration, defaultValue, _, _,
      location⟩ =>
    match reference with
    | some reference => do
      let name ← Traced.quietly (Reference.typeName document.rootName reference)
      return ⟨.named name, false⟩
    | none =>
      match anyOf with
      | [single, several] => do
        if ← Traced.quietly (isOneOrMany document.root single several) then
          let item ← infer document single
          Traced.report (.oneOrManyDetected location)
          return ⟨.oneOrMany item.type, true⟩
        else
          return ⟨.any, false⟩
      | _ =>
        match types with
        | [.string] =>
          return match enumeration with
            | some [] => ⟨.any, false⟩
            | _ => ⟨.primitive "String", false⟩
        | [.integer] => return ⟨.primitive "i64", false⟩
        | [.number] => return ⟨.primitive "f64", false⟩
        | [.boolean] => return ⟨.primitive "bool", false⟩
        | [.object] =>
          match additional with
          | .unspecified | .permitted false => return ⟨.any, false⟩
          | .permitted true => return ⟨.map .any, defaultsToEmpty defaultValue⟩
          | .constrained value => do
            let value ← infer document value
            return ⟨.map value.type, defaultsToEmpty defaultValue⟩
        | [.array] =>
          match items with
          | [] => return ⟨.array .any, false⟩
          | item :: _ => do
            let item ← infer document item
            return ⟨.array item.type, false⟩
        | _ => return ⟨.any, false⟩

/-- Boxes a type that is the holder itself. -/
def boxSelf (holder : String) (type : Ty) : Ty :=
  if type = .named holder then .boxed type else type

/-- Makes the type of a field optional unless the field is required or has a default. -/
def fieldType (holder : String) (required : Bool) (inferred : Inferred) : Ty :=
  let type := boxSelf holder inferred.type
  if required || inferred.hasDefault then type else .optional type

/-- The fields of a struct for its properties. A field whose name is in use is numbered, and then
keeps the property's name as its serialized name. -/
def expandFields (document : Document) (holder : String) (required used : List String) :
    Entries Schema → Traced (List Field)
  | [] => return []
  | (key, schema) :: rest => do
    let identifier := fieldName key
    let name := uniqueName identifier.name used "_"
    Traced.reportIf (name ≠ identifier.name) (.fieldRenamed key holder name)
    let inferred ← infer document schema
    let field : Field := {
      name
      sourceName := key
      type := fieldType holder (required.contains key) inferred
      hasDefault := inferred.hasDefault
      rename := if name = identifier.name then identifier.rename else some key
      description := schema.description }
    let more ← expandFields document holder required (used ++ [name]) rest
    return field :: more

/-- The variants of an enum for its values, which must all be texts. -/
def expandVariants (enum : String) (used : List String) : List Json → Traced (List Variant)
  | [] => return []
  | .str text :: rest => do
    let identifier := variantName text
    let name := uniqueName identifier.name used ""
    Traced.reportIf (name ≠ identifier.name) (.variantRenamed text enum name)
    let variant : Variant :=
      ⟨name, if name = identifier.name then identifier.rename else some text⟩
    let more ← expandVariants enum (used ++ [name]) rest
    return variant :: more
  | value :: _ => Traced.quietly (.error (.unsupportedEnumValue enum value))

/-- The values of a schema that enumerates some. -/
def enumerated (schema : Schema) : List Json := schema.enumeration.getD []

/-- The declaration for a named schema, without a description. -/
def expandSchema (document : Document) (sourceName : String) (schema : Schema) :
    Traced Declaration := do
  let name := typeName sourceName
  let rename := if sourceName = name then none else some sourceName
  let resolved ← Traced.quietly (Schema.resolve document.root schema)
  let fields ← expandFields document name resolved.required [] resolved.properties
  let declaration ← (match fields, enumerated schema with
    | _ :: _, _ =>
      return .struct {
        name, sourceName, fields, rename
        isDefault := fields.all fun field => field.type.isOptional }
    | [], value :: values => do
      let variants ← expandVariants name [] (value :: values)
      return .enum { name, sourceName, variants, rename }
    | [], [] => do
      let inferred ← infer document schema
      return .typeAlias { name, sourceName, target := inferred.type } :
    Traced Declaration)
  Traced.report (.expanded sourceName declaration.kindName)
  return declaration

/-- The declarations for definitions, in order, each with the description of its definition. -/
def expandDefinitions (document : Document) : Entries Schema → Traced (List Declaration)
  | [] => return []
  | (name, definition) :: rest => do
    let declaration ← expandSchema document name definition
    let more ← expandDefinitions document rest
    return declaration.describe definition.description :: more

/-- The declarations for a whole document, the root's last. -/
def expandAll (document : Document) : Traced (List Declaration) := do
  let declarations ← expandDefinitions document document.root.definitions
  match document.rootName with
  | none => return declarations
  | some name => do
    let declaration ← expandSchema document name document.root
    return declarations ++ [declaration]

/-- Boxes the references that close a cycle, reporting each. -/
def breakCycles (declarations : List Declaration) : Traced (List Declaration) :=
  ⟨(closingEdges declarations).map fun edge => .boxed edge.1 edge.2, .ok (boxCycles declarations)⟩

/-- Expands a document. Whether the one-or-many helper is needed is told by what was detected on
the way. -/
def expand (document : Document) (breaking : Bool) : Traced Program := do
  let expanded := expandAll document
  let declarations ← expanded
  Traced.quietly (checkAliases declarations)
  let declarations ← if breaking then breakCycles declarations else pure declarations
  return {
    rootName := document.rootName
    declarations
    needsOneOrMany := expanded.events.any Event.isOneOrMany }

end Document

end SchemaForge
