import SchemaForge.Schema.Merge
import SchemaForge.Schema.Reference

/-! # Resolution

Puts together the schema that a node stands for: the target of its reference, with the components
of its `allOf` merged into one. A reference may be followed once on a path, so a path that meets
one again is reported as a cycle, and resolution ends on every document.
-/

namespace SchemaForge.Schema

mutual

/-- Resolves a schema. The references in `unused` have not been followed on the path that led
here, which is `path`. -/
def resolveFrom (root : Schema) (unused path : List String) (schema : Schema) :
    Except Error Schema :=
  match _h : schema.reference with
  | none => unfold root unused path schema
  | some reference =>
    if _member : reference ∈ unused then do
      let body ← Reference.resolve root reference
      unfold root (unused.filter (· ≠ reference)) (path ++ [reference]) body
    else .error (.cyclicReference (path ++ [reference]))
  termination_by (unused.length, sizeOf schema, 1)
  decreasing_by
    · exact Prod.Lex.right _ (Prod.Lex.right _ Nat.zero_lt_one)
    · refine Prod.Lex.left _ _ ?_
      exact List.length_filter_lt_length_iff_exists.2 ⟨reference, _member, by simp⟩

/-- Resolves the components of a schema and merges them in order; a schema without components
stands for itself. -/
def unfold (root : Schema) (unused path : List String) (body : Schema) : Except Error Schema :=
  match _h : body.allOf with
  | [] => .ok body
  | first :: rest => do
    let seed ← resolveFrom root unused path first
    mergeResolved root unused path seed rest
  termination_by (unused.length, sizeOf body, 0)
  decreasing_by
    all_goals
      cases body
      simp only at _h
      subst _h
      refine Prod.Lex.right _ (Prod.Lex.left _ _ ?_)
      simp only [mk.sizeOf_spec, List.cons.sizeOf_spec]
      omega

/-- Merges the resolved components into a schema, one after another. -/
def mergeResolved (root : Schema) (unused path : List String) (merged : Schema) :
    List Schema → Except Error Schema
  | [] => .ok merged
  | component :: rest => do
    let resolved ← resolveFrom root unused path component
    mergeResolved root unused path (merged.merge resolved) rest
  termination_by components => (unused.length, sizeOf components, 1)
  decreasing_by
    all_goals
      refine Prod.Lex.right _ (Prod.Lex.left _ _ ?_)
      simp only [List.cons.sizeOf_spec]
      omega

end

/-- The schema that a node of a document, or beside it, stands for. -/
def resolve (root schema : Schema) : Except Error Schema :=
  resolveFrom root (root.references ++ schema.references) [] schema

end SchemaForge.Schema
