/-! # Rust types

The types that generated declarations are built from, apart from how they are spelled.
-/

namespace SchemaForge.Rust

/-- A type of a field or of an alias. -/
inductive Ty where
  | primitive (name : String)
  | named (name : String)
  | any
  | array (item : Ty)
  | map (value : Ty)
  | optional (content : Ty)
  | boxed (content : Ty)
  | oneOrMany (item : Ty)
deriving DecidableEq, Inhabited

namespace Ty

/-- The declared name that a type holds inline. One optional layer holds its content inline,
every other container keeps it behind a pointer. -/
def heldInline? : Ty → Option String
  | named name => some name
  | optional (named name) => some name
  | _ => none

/-- Puts the content that a type holds inline behind a pointer, inside an outer optional layer. -/
def box : Ty → Ty
  | optional content => optional (boxed content)
  | type => boxed type

/-- The declared names that a type mentions, under any containers. -/
def mentions : Ty → List String
  | named name => [name]
  | array inner | map inner | optional inner | boxed inner | oneOrMany inner => mentions inner
  | primitive _ | any => []

/-- Tells whether an outermost layer makes a value optional. -/
def isOptional : Ty → Bool
  | optional _ => true
  | _ => false

/-- Tells whether the one-or-many container occurs anywhere in a type. -/
def usesOneOrMany : Ty → Bool
  | oneOrMany _ => true
  | array inner | map inner | optional inner | boxed inner => usesOneOrMany inner
  | primitive _ | named _ | any => false

end Ty

end SchemaForge.Rust
