import SchemaForge.Error
import SchemaForge.Rust.Declaration
import SchemaForge.Rust.DocComment
import SchemaForge.Rust.Literal

/-! # Source text

Writes declarations as Rust source, line by line. The style holds what settings decide; what a
setting left undecidable is missed only where it is needed.
-/

namespace SchemaForge.Rust

/-- The width that doc comments are to be filled to. -/
inductive Width where
  | columns (count : Int)
  /-- A number that compares with none, so that no word ever fits. -/
  | unordered
  /-- A value that is no number. -/
  | unsuitable
deriving DecidableEq

/-- What may vary in generated source. -/
structure Style where
  /-- Whether the source opens with a comment that names its generator. -/
  announced : Bool := true
  /-- Whether the source imports the serialization traits. -/
  imports : Bool := true
  /-- The traits to derive before the ones that every declaration derives. -/
  derives : Except Error (List Json)
  /-- The type of maps from texts. -/
  mapType : String
  /-- The width that doc comments are filled to. -/
  lineLength : Width

namespace Style

/-- The indentation of what stands inside a declaration. -/
def indent : String := "    "

/-- The spelling of a type. -/
def typeText (style : Style) : Ty → String
  | .primitive name | .named name => name
  | .any => "serde_json::Value"
  | .array item => "Vec<" ++ typeText style item ++ ">"
  | .map value => style.mapType ++ "<String, " ++ typeText style value ++ ">"
  | .optional content => "Option<" ++ typeText style content ++ ">"
  | .boxed content => "Box<" ++ typeText style content ++ ">"
  | .oneOrMany item => "OneOrMany<" ++ typeText style item ++ ">"

/-- The comment lines for a description, indented; an empty description has none. Filling does not
end where the width compares with nothing, unless there is no word. -/
def docLines (style : Style) (indent : String) (description : Option String) :
    Except Error (List String) :=
  match description with
  | none => .ok []
  | some text =>
    if text.isEmpty then .ok []
    else
      match style.lineLength with
      | .unsuitable => .error .unsuitableValue
      | .unordered =>
        if (Text.trim text.toList).isEmpty then .ok [] else .error .endlessFilling
      | .columns width =>
        .ok ((DocComment.lines (width - indent.length) text.toList).map fun line =>
          indent ++ String.ofList line)

/-- The attribute that tells the serialized name; an empty name is not told. -/
def renameLines (indent : String) (rename : Option String) : List String :=
  match rename with
  | none => []
  | some name =>
    if name.isEmpty then []
    else [indent ++ "#[serde(rename = " ++ String.ofList (Literal.encode name.toList) ++ ")]"]

/-- The attribute that derives the traits of the style, then the given ones, then the traits of
serialization. Of equal traits the first is written. -/
def deriveLine (style : Style) (further : List String) : Except Error String := do
  let derives ← style.derives
  let fixed := (further ++ ["Deserialize", "Serialize"]).map Json.str
  let traits := ((derives ++ fixed).eraseDupsBy Json.same).map Json.spelled
  return "#[derive(" ++ ", ".intercalate traits ++ ")]"

/-- The lines of a field. -/
def fieldLines (style : Style) (field : Field) : Except Error (List String) := do
  let doc ← style.docLines indent field.description
  return doc
    ++ (if field.hasDefault then [indent ++ "#[serde(default)]"] else [])
    ++ renameLines indent field.rename
    ++ [indent ++ "pub " ++ field.name ++ ": " ++ style.typeText field.type ++ ","]

/-- The lines of a struct. -/
def structLines (style : Style) (declared : Struct) : Except Error (List String) := do
  let fields ← declared.fields.mapM style.fieldLines
  let derived ← style.deriveLine (if declared.isDefault then ["Default"] else [])
  let doc ← style.docLines "" declared.description
  return doc ++ [derived] ++ renameLines "" declared.rename
    ++ ["pub struct " ++ declared.name ++ " \x7b"] ++ fields.flatten ++ ["\x7d"]

/-- The lines of a variant. -/
def variantLines (variant : Variant) : List String :=
  renameLines indent variant.rename ++ [indent ++ variant.name ++ ","]

/-- The lines of an enum. -/
def enumLines (style : Style) (declared : Enum) : Except Error (List String) := do
  let derived ← style.deriveLine []
  let doc ← style.docLines "" declared.description
  return doc ++ [derived] ++ renameLines "" declared.rename
    ++ ["pub enum " ++ declared.name ++ " \x7b"] ++ declared.variants.flatMap variantLines
    ++ ["\x7d"]

/-- The lines of an alias. -/
def aliasLines (style : Style) (declared : TypeAlias) : Except Error (List String) := do
  let doc ← style.docLines "" declared.description
  return doc ++ ["pub type " ++ declared.name ++ " = " ++ style.typeText declared.target ++ ";"]

/-- The lines of a declaration. -/
def declarationLines (style : Style) : Declaration → Except Error (List String)
  | .struct declared => style.structLines declared
  | .enum declared => style.enumLines declared
  | .typeAlias declared => style.aliasLines declared

/-- The comment that names the generator. -/
def announcement : List String :=
  ["// This file was generated by json_schema_to_rust 0.3.0. Do not edit by hand."]

/-- The import of the serialization traits. -/
def serdeImport : List String := ["use serde::\x7bDeserialize, Serialize\x7d;"]

/-- The definition of the one-or-many container. -/
def oneOrManyHelper : List String := [
  "use std::ops::\x7bDeref, DerefMut\x7d;",
  "",
  "/// A value that may be written as a single item or as a list of items.",
  "///",
  "/// Deserialization tries a single item first and falls back to a list.",
  "/// `One` serializes as the bare item, `Many` as a list.",
  "#[derive(Clone, PartialEq, Debug, Deserialize, Serialize)]",
  "#[serde(untagged)]",
  "pub enum OneOrMany<T> \x7b",
  "    One(Box<T>),",
  "    Many(Vec<T>),",
  "\x7d",
  "",
  "impl<T> Deref for OneOrMany<T> \x7b",
  "    type Target = [T];",
  "    fn deref(&self) -> &[T] \x7b",
  "        match *self \x7b",
  "            OneOrMany::One(ref v) => ::std::slice::from_ref(&**v),",
  "            OneOrMany::Many(ref v) => v,",
  "        \x7d",
  "    \x7d",
  "\x7d",
  "",
  "impl<T> DerefMut for OneOrMany<T> \x7b",
  "    fn deref_mut(&mut self) -> &mut [T] \x7b",
  "        match *self \x7b",
  "            OneOrMany::One(ref mut v) => ::std::slice::from_mut(&mut **v),",
  "            OneOrMany::Many(ref mut v) => v,",
  "        \x7d",
  "    \x7d",
  "\x7d",
  "",
  "impl<T> Default for OneOrMany<T> \x7b",
  "    fn default() -> OneOrMany<T> \x7b",
  "        OneOrMany::Many(Vec::new())",
  "    \x7d",
  "\x7d"]

/-- The sections in front of the declarations. -/
def opening (style : Style) (oneOrMany : Bool) : List (List String) :=
  (if style.announced then [announcement] else [])
    ++ (if style.imports then [serdeImport] else [])
    ++ (if oneOrMany then [oneOrManyHelper] else [])

/-- All the sections of a source. -/
def sections (style : Style) (declarations : List Declaration) (oneOrMany : Bool) :
    Except Error (List (List String)) := do
  return style.opening oneOrMany ++ (← declarations.mapM style.declarationLines)

/-- Sections as text, an empty line between them and a line feed at the end. -/
def sourceText (sections : List (List String)) : String :=
  "\n\n".intercalate (sections.map fun lines => "\n".intercalate lines) ++ "\n"

/-- The source text of declarations. -/
def write (style : Style) (declarations : List Declaration) (oneOrMany : Bool) :
    Except Error String := do
  return sourceText (← style.sections declarations oneOrMany)

end Style

end SchemaForge.Rust
