import SchemaForge.Rust.Type

/-! # Declarations

The named declarations of generated code: structs, enums of texts, and type aliases. Each keeps
the name that its part of the document had.
-/

namespace SchemaForge.Rust

/-- A field of a struct. Where `rename` is set it is the serialized name, else the name is. -/
structure Field where
  name : String
  sourceName : String := ""
  type : Ty
  hasDefault : Bool := false
  rename : Option String := none
  description : Option String := none
deriving DecidableEq

/-- A struct; `isDefault` when every field may be left out. -/
structure Struct where
  name : String
  sourceName : String := ""
  fields : List Field := []
  isDefault : Bool := false
  rename : Option String := none
  description : Option String := none
deriving DecidableEq

/-- A variant of an enum. -/
structure Variant where
  name : String
  rename : Option String := none
deriving DecidableEq

/-- An enum whose values are texts. -/
structure Enum where
  name : String
  sourceName : String := ""
  variants : List Variant := []
  rename : Option String := none
  description : Option String := none
deriving DecidableEq

/-- A second name for a type. -/
structure TypeAlias where
  name : String
  sourceName : String := ""
  target : Ty
  description : Option String := none
deriving DecidableEq

/-- A declaration of generated code. -/
inductive Declaration where
  | struct (declared : Struct)
  | enum (declared : Enum)
  | typeAlias (declared : TypeAlias)
deriving DecidableEq

namespace Declaration

/-- The declared name. -/
def name : Declaration → String
  | struct declared => declared.name
  | enum declared => declared.name
  | typeAlias declared => declared.name

/-- The name in the document. -/
def sourceName : Declaration → String
  | struct declared => declared.sourceName
  | enum declared => declared.sourceName
  | typeAlias declared => declared.sourceName

/-- The kind of a declaration in messages. -/
def kindName : Declaration → String
  | struct _ => "StructDef"
  | enum _ => "EnumDef"
  | typeAlias _ => "TypeAlias"

/-- The types that a declaration is made of: those of its fields, or its target. -/
def slots : Declaration → List Ty
  | struct declared => declared.fields.map Field.type
  | enum _ => []
  | typeAlias declared => [declared.target]

/-- Changes the types that a declaration is made of. -/
def mapSlots (change : Ty → Ty) : Declaration → Declaration
  | struct declared => .struct { declared with
      fields := declared.fields.map fun field => { field with type := change field.type } }
  | enum declared => .enum declared
  | typeAlias declared => .typeAlias { declared with target := change declared.target }

/-- Sets the description. -/
def describe (description : Option String) : Declaration → Declaration
  | struct declared => .struct { declared with description }
  | enum declared => .enum { declared with description }
  | typeAlias declared => .typeAlias { declared with description }

/-- Changing the slots changes nothing but them. -/
theorem slots_mapSlots (change : Ty → Ty) (declaration : Declaration) :
    (declaration.mapSlots change).slots = declaration.slots.map change := by
  cases declaration <;> simp [mapSlots, slots]

@[simp] theorem name_mapSlots (change : Ty → Ty) (declaration : Declaration) :
    (declaration.mapSlots change).name = declaration.name := by
  cases declaration <;> rfl

@[simp] theorem name_describe (description : Option String) (declaration : Declaration) :
    (declaration.describe description).name = declaration.name := by
  cases declaration <;> rfl

end Declaration

/-- The first declaration of a name. -/
def declared? (declarations : List Declaration) (name : String) : Option Declaration :=
  declarations.find? fun declaration => declaration.name = name

end SchemaForge.Rust
