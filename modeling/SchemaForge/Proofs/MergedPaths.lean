import Mathlib.Data.List.Induction
import SchemaForge.Proofs.Leaves

/-! # What a fold of merges has at a path

A path of property names leads to a node in some of the schemas that are merged one after another.
At that path the fold has the fold of just these nodes, so what it is there can be told keyword by
keyword, however deep the path and whichever schema is the first to have a node at it.
-/

namespace SchemaForge.Schema

/-- The node of a schema at a path of property names. -/
def nodeAt? : List String → Schema → Option Schema
  | [], schema => some schema
  | key :: rest, schema => (Entries.get? schema.properties key).bind (nodeAt? rest)

/-- Lists of distinct names joined in the order in which the names first appear. -/
def joinNew : List (List String) → List String
  | [] => []
  | names :: more => names ++ (joinNew more).removeAll names

/-- Schemas put together keyword by keyword, each keyword from all of them at once: the first one
and the later ones make the whole. -/
structure PutTogether (first : Schema) (later : List Schema) (whole : Schema) : Prop where
  properties : Entries.keys whole.properties
    = joinNew ((first :: later).map fun schema => Entries.keys schema.properties)
  required : whole.required
    = first.required ++ ((later.flatMap required).removeAll first.required).eraseDups
  types : whole.types = first.types.filter fun type => ∀ schema ∈ later, type ∈ schema.types
  reference : whole.reference = ((first :: later).filterMap reference).getLast?
  description : whole.description = ((first :: later).filterMap description).getLast?
  items : whole.items = first.items
  additional : whole.additional = first.additional
  allOf : whole.allOf = first.allOf
  anyOf : whole.anyOf = first.anyOf
  enumeration : whole.enumeration = first.enumeration
  defaultValue : whole.defaultValue = first.defaultValue
  definitions : whole.definitions = first.definitions

/-! ## Folds keyword by keyword -/

/-- Adding names appends each new one once, in order. -/
theorem addMissing_eq_append (names added : List String) :
    addMissing names added = names ++ (added.removeAll names).eraseDups := by
  induction added using List.reverseRecOn with
  | nil => simp [addMissing]
  | append_singleton rest name ih =>
    rw [addMissing_append, ih, addMissing_singleton]
    by_cases hname : name ∈ names
    · simp [hname, List.removeAll]
    · by_cases hrest : name ∈ rest
      · simp [hname, hrest, List.removeAll, List.eraseDups_append]
      · simp [hname, hrest, List.removeAll, List.eraseDups_append, List.eraseDups_cons]

/-- Joining two lists first makes no difference to the names that follow them. -/
theorem joinNew_cons_cons (names more : List String) (rest : List (List String)) :
    joinNew (names :: more :: rest) = joinNew ((names ++ more.removeAll names) :: rest) := by
  have hrest : ((joinNew rest).removeAll more).removeAll names
      = (joinNew rest).removeAll (names ++ more.removeAll names) := by
    simp only [List.removeAll, List.filter_filter]
    congr 1
    funext name
    by_cases hname : name ∈ names <;> simp [hname]
  rw [joinNew, joinNew, joinNew, ← hrest, List.append_assoc]
  congr 1
  exact List.filter_append ..

section

variable (first : Schema) (later : List Schema)

theorem keys_foldl_merge : Entries.keys (later.foldl merge first).properties
    = joinNew ((first :: later).map fun schema => Entries.keys schema.properties) := by
  induction later generalizing first with
  | nil => simp [joinNew]
  | cons second rest ih =>
    rw [List.foldl_cons, ih, List.map_cons, List.map_cons, List.map_cons, joinNew_cons_cons]
    congr 2
    rw [merge_eq, keys_mergeProperties]
    simp [List.removeAll]

theorem required_foldl_merge : (later.foldl merge first).required
    = addMissing first.required (later.flatMap required) := by
  induction later generalizing first with
  | nil => rfl
  | cons second rest ih =>
    rw [List.foldl_cons, ih, merge_eq, List.flatMap_cons, addMissing_append]

theorem types_foldl_merge : (later.foldl merge first).types
    = first.types.filter fun type => ∀ schema ∈ later, type ∈ schema.types := by
  induction later generalizing first with
  | nil => simp
  | cons second rest ih =>
    rw [List.foldl_cons, ih, merge_eq, List.filter_filter]
    congr 1
    funext type
    simp [Bool.and_comm]

/-- A keyword of which the later value wins has the last value of all. -/
theorem foldl_or_eq_getLast? {α : Type} {keyword : Schema → Option α}
    (h : ∀ target source, keyword (merge target source) = (keyword source).or (keyword target)) :
    keyword (later.foldl merge first) = ((first :: later).filterMap keyword).getLast? := by
  induction later generalizing first with
  | nil => cases hfirst : keyword first <;> simp [hfirst]
  | cons second rest ih =>
    rw [List.foldl_cons, ih, List.filterMap_cons, List.filterMap_cons, List.filterMap_cons, h]
    cases keyword second with
    | none => rfl
    | some value => cases keyword first <;> simp

/-- A keyword that merging keeps is that of the first schema. -/
theorem foldl_eq_of_kept {α : Type} {keyword : Schema → α}
    (h : ∀ target source, keyword (merge target source) = keyword target) :
    keyword (later.foldl merge first) = keyword first := by
  induction later generalizing first with
  | nil => rfl
  | cons second rest ih => rw [List.foldl_cons, ih, h]

/-- A fold of merges puts its schemas together. -/
theorem putTogether_foldl_merge : PutTogether first later (later.foldl merge first) where
  properties := keys_foldl_merge first later
  required := (required_foldl_merge first later).trans (addMissing_eq_append _ _)
  types := types_foldl_merge first later
  reference := foldl_or_eq_getLast? first later fun _ _ => by rw [merge_eq]
  description := foldl_or_eq_getLast? first later fun _ _ => by rw [merge_eq]
  items := foldl_eq_of_kept first later fun _ _ => by rw [merge_eq]
  additional := foldl_eq_of_kept first later fun _ _ => by rw [merge_eq]
  allOf := foldl_eq_of_kept first later fun _ _ => by rw [merge_eq]
  anyOf := foldl_eq_of_kept first later fun _ _ => by rw [merge_eq]
  enumeration := foldl_eq_of_kept first later fun _ _ => by rw [merge_eq]
  defaultValue := foldl_eq_of_kept first later fun _ _ => by rw [merge_eq]
  definitions := foldl_eq_of_kept first later fun _ _ => by rw [merge_eq]

end

/-! ## Folds path by path -/

/-- Under a key a merge has the merge of what both schemas have under it. -/
theorem get?_properties_merge (target source : Schema) (key : String) :
    Entries.get? (merge target source).properties key
      = (Entries.get? target.properties key).merge merge (Entries.get? source.properties key) := by
  rw [merge_eq, get?_mergeProperties]
  cases Entries.get? target.properties key with
  | none => cases Entries.get? source.properties key <;> rfl
  | some held => cases Entries.get? source.properties key <;> rfl

/-- So it has at every path. -/
theorem nodeAt?_merge (path : List String) (target source : Schema) :
    nodeAt? path (merge target source)
      = (nodeAt? path target).merge merge (nodeAt? path source) := by
  induction path generalizing target source with
  | nil => rfl
  | cons key rest ih =>
    rw [nodeAt?, nodeAt?, nodeAt?, get?_properties_merge]
    cases Entries.get? target.properties key with
    | none => cases Entries.get? source.properties key <;> simp
    | some held =>
      cases Entries.get? source.properties key with
      | none => simp
      | some added => exact ih held added

/-- A fold of merges has at a path the fold of what its schemas have there. -/
theorem nodeAt?_foldl_merge (path : List String) (first : Schema) (rest : List Schema) :
    nodeAt? path (rest.foldl merge first) = mergeAll ((first :: rest).filterMap (nodeAt? path)) := by
  induction rest generalizing first with
  | nil => cases hfirst : nodeAt? path first <;> simp [hfirst, mergeAll]
  | cons second rest ih =>
    rw [List.foldl_cons, ih, List.filterMap_cons, List.filterMap_cons, List.filterMap_cons,
      nodeAt?_merge]
    -- the first two schemas may each have or lack a node at the path
    cases nodeAt? path first with
    | none => cases nodeAt? path second <;> rfl
    | some node => cases nodeAt? path second <;> rfl

/-- Let schemas be merged one after another, and take those of them that have a node at a path. The
result has a node at the path if and only if there is such a schema, and then it is these nodes put
together. -/
theorem putTogether_nodeAt?_foldl_merge (first : Schema) (rest : List Schema) (path : List String) :
    match (first :: rest).filterMap (nodeAt? path) with
    | [] => nodeAt? path (rest.foldl merge first) = none
    | node :: later => ∃ whole, nodeAt? path (rest.foldl merge first) = some whole ∧
        PutTogether node later whole := by
  rw [nodeAt?_foldl_merge]
  cases (first :: rest).filterMap (nodeAt? path) with
  | nil => rfl
  | cons node later => exact ⟨_, rfl, putTogether_foldl_merge node later⟩

end SchemaForge.Schema
