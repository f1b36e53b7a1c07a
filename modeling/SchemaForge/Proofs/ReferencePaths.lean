import Mathlib.Logic.Relation
import SchemaForge.Schema.Resolution

/-! # Paths of references

Resolution follows a reference at most once on a path. The relations below say which references it
meets, apart from how it runs: those met in the inline compositions of a schema, and then those
that each met one leads to. All of them are written in the document or in the schema itself.
-/

namespace SchemaForge.Schema

/-- The reference is met when the schema is unfolded as far as it is written inline. -/
inductive Meets : Schema → String → Prop
  | reference {schema : Schema} {reference : String} (href : schema.reference = some reference) :
      Meets schema reference
  | component {schema component : Schema} {reference : String} (href : schema.reference = none)
      (hmem : component ∈ schema.allOf) (h : Meets component reference) : Meets schema reference

/-- A reference leads to another one that is met in a component of what it resolves to. -/
def LeadsTo (root : Schema) (reference next : String) : Prop :=
  ∃ body, Reference.resolve root reference = .ok body ∧
    ∃ component ∈ body.allOf, component.Meets next

/-- The reference is met when the schema is unfolded in full. -/
def Reaches (root schema : Schema) (reference : String) : Prop :=
  ∃ first, schema.Meets first ∧ Relation.ReflTransGen (LeadsTo root) first reference

theorem Reaches.of_component {root schema component : Schema} {reference : String}
    (href : schema.reference = none) (hmem : component ∈ schema.allOf)
    (h : Reaches root component reference) : Reaches root schema reference := by
  obtain ⟨first, hmeets, hpath⟩ := h
  exact ⟨first, .component href hmem hmeets, hpath⟩

/-- What a component of a reference's target reaches, the reference leads to. -/
theorem transGen_leadsTo_of_reaches {root body component : Schema} {reference reached : String}
    (hbody : Reference.resolve root reference = .ok body) (hmem : component ∈ body.allOf)
    (h : Reaches root component reached) :
    Relation.TransGen (LeadsTo root) reference reached := by
  obtain ⟨first, hmeets, hpath⟩ := h
  exact Relation.TransGen.head' ⟨body, hbody, component, hmem, hmeets⟩ hpath

/-! ## Where references are written -/

theorem mem_references {schema : Schema} {reference : String} :
    reference ∈ schema.references
      ↔ schema.reference = some reference
        ∨ reference ∈ referencesOfEntries schema.properties
        ∨ reference ∈ referencesOfList schema.items
        ∨ (∃ value, schema.additional = .constrained value ∧ reference ∈ value.references)
        ∨ reference ∈ referencesOfList schema.allOf
        ∨ reference ∈ referencesOfList schema.anyOf
        ∨ reference ∈ referencesOfEntries schema.definitions := by
  obtain ⟨own, types, properties, required, items, additional, allOf, anyOf, enumeration,
    defaultValue, description, definitions, location⟩ := schema
  cases additional <;> simp [references]

theorem mem_referencesOfList {schemas : List Schema} {reference : String} :
    reference ∈ referencesOfList schemas ↔ ∃ schema ∈ schemas, reference ∈ schema.references := by
  induction schemas with
  | nil => simp [referencesOfList]
  | cons schema rest ih => simp [referencesOfList, ih]

/-- The schema under a key writes no reference that the entries do not. -/
theorem references_subset_of_get? {entries : Entries Schema} {key : String} {schema : Schema}
    (h : entries.get? key = some schema) : schema.references ⊆ referencesOfEntries entries := by
  induction entries with
  | nil => cases h
  | cons entry rest ih =>
    obtain ⟨other, value⟩ := entry
    rw [Entries.get?_cons] at h
    rw [referencesOfEntries]
    split at h
    · cases h
      exact List.subset_append_left _ _
    · exact List.subset_append_of_subset_right _ (ih h)

/-- A walk from the document stays in the document. -/
theorem references_subset_of_walk {root current target : Schema} {segments : List String}
    (hcurrent : current.references ⊆ root.references)
    (h : Reference.walk root current segments = .ok target) :
    target.references ⊆ root.references := by
  induction segments generalizing current with
  | nil =>
    rw [Reference.walk] at h
    cases h
    exact hcurrent
  | cons segment rest ih =>
    rw [Reference.walk] at h
    -- the segment goes back to the root, stays at a table, or names a definition
    split at h
    · exact ih (List.Subset.refl _) h
    · split at h
      · exact ih hcurrent h
      · cases hfound : Entries.get? current.definitions segment with
        | none =>
          rw [hfound] at h
          cases h
        | some definition =>
          rw [hfound] at h
          refine ih (fun reference hreference => hcurrent ?_) h
          have hentries := references_subset_of_get? hfound hreference
          exact mem_references.mpr (by simp [hentries])

theorem references_subset_of_resolve {root body : Schema} {reference : String}
    (h : Reference.resolve root reference = .ok body) : body.references ⊆ root.references := by
  unfold Reference.resolve at h
  cases hwalk : Reference.walk root root (Reference.segments reference) with
  | error segment =>
    rw [hwalk] at h
    cases h
  | ok target =>
    rw [hwalk] at h
    cases h
    exact references_subset_of_walk (List.Subset.refl _) hwalk

/-- A reference met inline is written in the schema. -/
theorem Meets.mem_references {schema : Schema} {reference : String} (h : schema.Meets reference) :
    reference ∈ schema.references := by
  induction h with
  | reference href => exact Schema.mem_references.mpr (Or.inl href)
  | component _ hmem _ ih =>
    have hlist := mem_referencesOfList.mpr ⟨_, hmem, ih⟩
    exact Schema.mem_references.mpr (by simp [hlist])

/-- A reference that another one leads to is written in the document. -/
theorem LeadsTo.mem_references {root : Schema} {reference next : String}
    (h : LeadsTo root reference next) : next ∈ root.references := by
  obtain ⟨body, hbody, component, hmem, hmeets⟩ := h
  have hlist := mem_referencesOfList.mpr ⟨component, hmem, hmeets.mem_references⟩
  exact references_subset_of_resolve hbody (Schema.mem_references.mpr (by simp [hlist]))

/-- Every reference that is met is among those that resolution starts with. -/
theorem Reaches.mem_references {root schema : Schema} {reference : String}
    (h : Reaches root schema reference) : reference ∈ root.references ++ schema.references := by
  obtain ⟨first, hmeets, hpath⟩ := h
  rcases Relation.ReflTransGen.cases_tail hpath with rfl | ⟨middle, -, hlast⟩
  · exact List.mem_append_right _ hmeets.mem_references
  · exact List.mem_append_left _ hlast.mem_references

end SchemaForge.Schema
