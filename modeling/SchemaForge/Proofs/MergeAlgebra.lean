import SchemaForge.Proofs.Basic
import SchemaForge.Schema.Merge

/-! # The algebra of merging

Merging is associative on the nose, orders of properties and of required names included. A chain
of merges may therefore be regrouped at will, which is what lets nested compositions be flattened.
-/

namespace SchemaForge.Schema

/-! ## Required names -/

theorem addMissing_append (names first second : List String) :
    addMissing names (first ++ second) = addMissing (addMissing names first) second :=
  List.foldl_append

theorem addMissing_singleton (names : List String) (name : String) :
    addMissing names [name] = if name ∈ names then names else names ++ [name] := rfl

/-- Adding names keeps those that are there and brings in all that are added. -/
theorem mem_addMissing (names added : List String) (name : String) :
    name ∈ addMissing names added ↔ name ∈ names ∨ name ∈ added := by
  induction added generalizing names with
  | nil => simp [addMissing]
  | cons first rest ih =>
    rw [← List.singleton_append, addMissing_append, ih, addMissing_singleton]
    by_cases hfirst : first ∈ names
    · rw [if_pos hfirst]
      constructor
      · rintro (h | h)
        · exact Or.inl h
        · exact Or.inr (List.mem_append_right _ h)
      · rintro (h | h)
        · exact Or.inl h
        · rcases List.mem_append.mp h with h | h
          · exact Or.inl (List.mem_singleton.mp h ▸ hfirst)
          · exact Or.inr h
    · rw [if_neg hfirst]
      simp [or_assoc]

/-- Uniting three lists of names does not depend on the grouping. -/
theorem addMissing_assoc (first second third : List String) :
    addMissing (addMissing first second) third
      = addMissing first (addMissing second third) := by
  -- names are added one by one, so the list that is added last is taken apart from its front
  induction third generalizing second with
  | nil => rfl
  | cons name rest ih =>
    rw [← List.singleton_append, addMissing_append, addMissing_append, ← ih]
    congr 1
    rw [addMissing_singleton second]
    by_cases hname : name ∈ second
    · rw [if_pos hname, addMissing_singleton,
        if_pos ((mem_addMissing first second name).mpr (Or.inr hname))]
    · rw [if_neg hname, addMissing_append]

/-! ## Properties -/

/-- Properties united with others: shared ones are merged in their place, new ones follow. -/
def mergeProperties (held added : List (String × Schema)) : List (String × Schema) :=
  mergeShared held added ++ missingFrom held added

/-- A schema widened by another one, if there is another one. -/
def widen (held : Schema) : Option Schema → Schema
  | some other => merge held other
  | none => held

theorem mergeShared_cons (key : String) (held : Schema) (rest source : List (String × Schema)) :
    mergeShared ((key, held) :: rest) source
      = (key, widen held (Entries.get? source key)) :: mergeShared rest source := by
  rw [mergeShared]
  cases Entries.get? source key <;> rfl

theorem mergeShared_eq_map (held source : List (String × Schema)) :
    mergeShared held source
      = held.map fun entry => (entry.1, widen entry.2 (Entries.get? source entry.1)) := by
  induction held with
  | nil => simp [mergeShared]
  | cons entry rest ih =>
    obtain ⟨key, schema⟩ := entry
    rw [mergeShared_cons, ih, List.map_cons]

/-- Widening properties keeps their keys and the order of them. -/
theorem keys_mergeShared (held source : List (String × Schema)) :
    Entries.keys (mergeShared held source) = Entries.keys held := by
  induction held with
  | nil => simp [mergeShared]
  | cons entry rest ih =>
    obtain ⟨key, schema⟩ := entry
    rw [mergeShared_cons]
    simpa [Entries.keys] using ih

theorem get?_mergeShared (held source : List (String × Schema)) (key : String) :
    Entries.get? (mergeShared held source) key
      = (Entries.get? held key).map fun schema => widen schema (Entries.get? source key) := by
  induction held with
  | nil => simp [mergeShared]
  | cons entry rest ih =>
    obtain ⟨other, schema⟩ := entry
    rw [mergeShared_cons, Entries.get?_cons, Entries.get?_cons]
    by_cases hkey : key = other
    · simp [hkey]
    · rw [if_neg hkey, if_neg hkey, ih]

theorem get?_missingFrom (held added : List (String × Schema)) (key : String) :
    Entries.get? (missingFrom held added) key
      = if key ∈ Entries.keys held then none else Entries.get? added key := by
  have hfilter := Entries.get?_filter_keys added (fun key => decide (key ∉ Entries.keys held)) key
  rw [missingFrom, hfilter]
  by_cases hkey : key ∈ Entries.keys held <;> simp [hkey]

/-- The property that a union holds under a key: the first one widened by the second one. -/
theorem get?_mergeProperties (held added : List (String × Schema)) (key : String) :
    Entries.get? (mergeProperties held added) key
      = match Entries.get? held key with
        | some schema => some (widen schema (Entries.get? added key))
        | none => Entries.get? added key := by
  rw [mergeProperties, Entries.get?_append, get?_mergeShared, get?_missingFrom]
  cases hheld : Entries.get? held key with
  | some schema => rfl
  | none => simp [(Entries.get?_eq_none_iff held key).mp hheld]

/-- The keys of a union are those of the first list and then the new ones of the second. -/
theorem keys_mergeProperties (held added : List (String × Schema)) :
    Entries.keys (mergeProperties held added)
      = Entries.keys held ++ (Entries.keys added).filter fun key => key ∉ Entries.keys held := by
  have hmissing : Entries.keys (missingFrom held added)
      = (Entries.keys added).filter fun key => key ∉ Entries.keys held := by
    simp only [missingFrom, Entries.keys, List.filter_map]
    rfl
  rw [← hmissing, ← keys_mergeShared held added]
  exact List.map_append

/-- What a union lacks is what neither list has. -/
theorem missingFrom_mergeProperties (first second third : List (String × Schema)) :
    missingFrom (mergeProperties first second) third
      = missingFrom first (missingFrom second third) := by
  rw [missingFrom, missingFrom, missingFrom, List.filter_filter]
  congr 1
  funext entry
  rw [keys_mergeProperties]
  by_cases hfirst : entry.1 ∈ Entries.keys first <;>
    by_cases hsecond : entry.1 ∈ Entries.keys second <;> simp [hfirst, hsecond]

theorem missingFrom_cons (held : List (String × Schema)) (key : String) (schema : Schema)
    (rest : List (String × Schema)) :
    missingFrom held ((key, schema) :: rest)
      = if key ∈ Entries.keys held then missingFrom held rest
        else (key, schema) :: missingFrom held rest := by
  by_cases hkey : key ∈ Entries.keys held <;> simp [missingFrom, hkey]

theorem mergeShared_append (first second source : List (String × Schema)) :
    mergeShared (first ++ second) source = mergeShared first source ++ mergeShared second source := by
  induction first with
  | nil => simp [mergeShared]
  | cons entry rest ih =>
    obtain ⟨key, schema⟩ := entry
    rw [List.cons_append, mergeShared_cons, mergeShared_cons, ih, List.cons_append]

/-- Widening commutes with dropping the properties that are held already. -/
theorem mergeShared_missingFrom (held added source : List (String × Schema)) :
    mergeShared (missingFrom held added) source = missingFrom held (mergeShared added source) := by
  induction added with
  | nil => simp [missingFrom, mergeShared]
  | cons entry rest ih =>
    obtain ⟨key, schema⟩ := entry
    rw [mergeShared_cons, missingFrom_cons, missingFrom_cons]
    by_cases hkey : key ∈ Entries.keys held
    · rw [if_pos hkey, if_pos hkey, ih]
    · rw [if_neg hkey, if_neg hkey, mergeShared_cons, ih]

theorem missingFrom_append (held first second : List (String × Schema)) :
    missingFrom held (first ++ second) = missingFrom held first ++ missingFrom held second :=
  List.filter_append ..

/-! ## Schemas -/

theorem merge_eq (target source : Schema) :
    merge target source = { target with
      reference := source.reference.or target.reference
      types := target.types.filter fun type => type ∈ source.types
      properties := mergeProperties target.properties source.properties
      required := addMissing target.required source.required
      description := source.description.or target.description } := by
  cases target
  rw [merge]
  rfl

/-- Once the shared properties are widened associatively, so are whole lists of them. -/
theorem mergeProperties_assoc_of_mergeShared {first second third : List (String × Schema)}
    (h : mergeShared (mergeShared first second) third
      = mergeShared first (mergeProperties second third)) :
    mergeProperties (mergeProperties first second) third
      = mergeProperties first (mergeProperties second third) := by
  calc mergeProperties (mergeProperties first second) third
      = mergeShared (mergeShared first second ++ missingFrom first second) third
          ++ missingFrom (mergeProperties first second) third := rfl
    _ = mergeShared first (mergeProperties second third)
          ++ (missingFrom first (mergeShared second third)
            ++ missingFrom first (missingFrom second third)) := by
        rw [mergeShared_append, h, mergeShared_missingFrom, missingFrom_mergeProperties,
          List.append_assoc]
    _ = mergeProperties first (mergeProperties second third) := by
        rw [← missingFrom_append]
        rfl

mutual

/-- Merging is associative. -/
theorem merge_assoc (first second third : Schema) :
    merge (merge first second) third = merge first (merge second third) := by
  obtain ⟨reference, types, properties, required, items, additional, allOf, anyOf, enumeration,
    defaultValue, description, definitions, location⟩ := first
  have hproperties := mergeProperties_assoc_of_mergeShared
    (mergeShared_assoc properties second.properties third.properties)
  simp only [merge_eq, hproperties, addMissing_assoc, Option.or_assoc, List.filter_filter,
    List.mem_filter, decide_eq_true_eq, mk.injEq, true_and, and_true]
  -- only the types are left, narrowed by both other schemas in either order
  congr 1
  funext type
  rw [Bool.decide_and, Bool.and_comm]

/-- Widening properties by two lists in turn is widening them by the union of the two. -/
theorem mergeShared_assoc (first second third : List (String × Schema)) :
    mergeShared (mergeShared first second) third
      = mergeShared first (mergeProperties second third) := by
  match first with
  | [] => simp [mergeShared]
  | (key, schema) :: rest =>
    rw [mergeShared_cons, mergeShared_cons, mergeShared_cons, mergeShared_assoc rest,
      get?_mergeProperties]
    -- the three lists may each have or lack the key
    cases Entries.get? second key with
    | none => rfl
    | some other =>
      cases Entries.get? third key with
      | none => rfl
      | some another => simp only [widen, merge_assoc schema]

end

/-- Widening a schema by a fold of merges is merging each of its components in turn. -/
theorem merge_foldl_merge (target first : Schema) (rest : List Schema) :
    merge target (rest.foldl merge first) = (first :: rest).foldl merge target := by
  induction rest generalizing first with
  | nil => rfl
  | cons second rest ih =>
    rw [List.foldl_cons, ih, List.foldl_cons, List.foldl_cons, List.foldl_cons, merge_assoc]

end SchemaForge.Schema
