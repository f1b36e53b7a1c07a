import SchemaForge.Error
import SchemaForge.Schema.Basic
import SchemaForge.Rust.Identifier

/-! # References

A reference is a path of segments that is walked from the root of a document: `#` goes back to the
root, the names of the definition tables stay where they are, and any other segment descends into
the definition of that name.
-/

namespace SchemaForge

/-- A document to generate from: its root schema, and the name of the root's own type if it is to
have one. -/
structure Document where
  root : Schema
  rootName : Option String := none

namespace Reference

/-- The segments of a reference, split at every slash. -/
def segments (reference : String) : List String :=
  (reference.toList.splitOn '/').map String.ofList

/-- The segments that name a table of definitions instead of one definition. -/
def tableNames : List String := ["definitions", "$defs"]

/-- Walks segments from a schema on. A missing definition is told by its segment. -/
def walk (root current : Schema) : List String → Except String Schema
  | [] => .ok current
  | segment :: rest =>
    if segment = "#" then walk root root rest
    else if segment ∈ tableNames then walk root current rest
    else
      match Entries.get? current.definitions segment with
      | some definition => walk root definition rest
      | none => .error segment

/-- The schema that a reference leads to. -/
def resolve (root : Schema) (reference : String) : Except Error Schema :=
  (walk root root (segments reference)).mapError (.unresolvedReference reference)

/-- The name of the type that a reference stands for: the root's for `#`, else the one made from
the last segment. -/
def typeName (rootName : Option String) (reference : String) : Except Error String :=
  if reference = "#" then
    match rootName with
    | none => .error .rootNameMissing
    | some name => if name = "" then .error .rootNameMissing else .ok (Rust.typeName name)
  else .ok (Rust.typeName ((segments reference).getLastD ""))

end Reference

end SchemaForge
