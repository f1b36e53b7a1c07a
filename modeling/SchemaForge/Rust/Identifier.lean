import SchemaForge.Text.Words

/-! # Rust identifiers

Turns the names of a document into legal Rust identifiers. An identifier that is not the name it
comes from carries that name, to be written as the serialized name.
-/

namespace SchemaForge.Rust

/-- The words that Rust reserves, in use or for later. -/
def keywords : List String :=
  ["abstract", "as", "async", "await", "become", "box", "break", "const", "continue", "crate", "do",
    "dyn", "else", "enum", "extern", "false", "final", "fn", "for", "gen", "if", "impl", "in", "let",
    "loop", "macro", "match", "mod", "move", "mut", "override", "priv", "pub", "ref", "return",
    "self", "Self", "static", "struct", "super", "trait", "true", "try", "type", "typeof", "unsafe",
    "unsized", "use", "virtual", "where", "while", "yield"]

/-- An identifier, with the serialized name it stands for where that differs. -/
structure Identifier where
  name : String
  rename : Option String := none
deriving DecidableEq

/-- A reserved word with an underscore after it; none for any other name. -/
def escapeKeyword? (name : String) : Option Identifier :=
  if name ∈ keywords then some ⟨name ++ "_", some name⟩ else none

/-- A name that is no reserved word. -/
def avoidKeyword (name : String) : String :=
  match escapeKeyword? name with
  | some escaped => escaped.name
  | none => name

/-- Makes characters into an identifier: a stand-in for no characters at all, a mark in front of a
leading digit, and an underscore behind a reserved word. -/
def legalise (standIn : String) (digitMark : Char) (characters : List Char) : String :=
  avoidKeyword <| match characters with
    | [] => standIn
    | c :: rest => String.ofList (if Text.isDigit c then digitMark :: c :: rest else c :: rest)

/-- The identifier `name` standing for `raw`. -/
def Identifier.standingFor (name raw : String) : Identifier :=
  ⟨name, if name = raw then none else some raw⟩

/-- The type name for a name of a document. -/
def typeName (raw : String) : String :=
  legalise "Unnamed" 'T' (Text.pascalCase raw.toList)

/-- The characters that an identifier may hold. -/
def isIdentifierChar (c : Char) : Bool :=
  Text.isCapital c || Text.isSmall c || Text.isDigit c || c = '_'

/-- The field for a property. A reserved word is escaped as it is, before its words are split. -/
def fieldName (raw : String) : Identifier :=
  match escapeKeyword? raw with
  | some escaped => escaped
  | none =>
    .standingFor (legalise "field" '_' ((Text.snakeCase raw.toList).filter isIdentifierChar)) raw

/-- The variant for a text of an enumeration. -/
def variantName (raw : String) : Identifier :=
  .standingFor (legalise "Empty" 'V' (Text.pascalCase raw.toList)) raw

/-- A name followed by a separator and a number. -/
def numbered (name separator : String) (n : Nat) : String :=
  name ++ separator ++ toString n

/-- The name itself if it is free, else the name with the least number from two on that makes it
free. Among one number more than there are used names, one is free. -/
def uniqueName (name : String) (used : List String) (separator : String) : String :=
  if name ∈ used then
    let candidates := (List.range' 2 (used.length + 1)).map (numbered name separator)
    (candidates.find? fun candidate => candidate ∉ used).getD name
  else name

end SchemaForge.Rust
