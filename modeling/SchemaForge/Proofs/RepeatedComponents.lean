import SchemaForge.Proofs.MergedPaths
import SchemaForge.Proofs.Relocation

/-! # Repeated components

A schema that is merged into itself is not widened, and merging is associative, so of equal schemas
that are merged one right after the other all but the first might be left out. A composition may
therefore name a component twice in a row.
-/

namespace SchemaForge

/-- Lists that are paired with a joined list are joined as well. -/
theorem exists_of_forall₂_append {α β : Type} {R : α → β → Prop} {as more : List α} {bs : List β}
    (h : List.Forall₂ R (as ++ more) bs) :
    ∃ first second, bs = first ++ second ∧ List.Forall₂ R as first ∧ List.Forall₂ R more second := by
  induction as generalizing bs with
  | nil => exact ⟨[], bs, rfl, List.Forall₂.nil, h⟩
  | cons a rest ih =>
    obtain ⟨b, others, hfirst, hrest, rfl⟩ := List.forall₂_cons_left_iff.mp h
    obtain ⟨first, second, rfl, hpaired, hmore⟩ := ih hrest
    exact ⟨b :: first, second, rfl, List.Forall₂.cons hfirst hpaired, hmore⟩

namespace Schema

/-! ## Merging a schema into itself -/

theorem addMissing_self (names : List String) : addMissing names names = names := by
  have hnone : names.removeAll names = [] := by
    rw [List.removeAll, List.filter_eq_nil_iff]
    simp
  rw [addMissing_eq_append, hnone, List.eraseDups_nil, List.append_nil]

/-- United with properties that are paired with them, properties stay as they are when each of them
does. -/
theorem mergeProperties_eq_of_forall₂ {R : Schema → Schema → Prop}
    {properties others : List (String × Schema)} (hkeys : Entries.Distinct properties)
    (hpaired : List.Forall₂ (fun property other => property.1 = other.1 ∧ R property.2 other.2)
      properties others)
    (h : ∀ property ∈ properties, ∀ other, R property.2 other →
      merge property.2 other = property.2) :
    mergeProperties properties others = properties := by
  have hshared : mergeShared properties others = properties := by
    rw [mergeShared_eq_map]
    refine (List.map_congr_left fun property hmem => ?_).trans (List.map_id properties)
    obtain ⟨key, schema⟩ := property
    have hfound := Entries.rel_get? hpaired key
    rw [(Entries.get?_eq_some_iff_mem hkeys).mpr hmem] at hfound
    generalize Entries.get? others key = found at hfound ⊢
    cases hfound with
    | some hother => exact congrArg (Prod.mk key) (h _ hmem _ hother)
  have hmissing : missingFrom properties others = [] := by
    rw [missingFrom, List.filter_eq_nil_iff, Entries.keys_eq_of_forall₂ hpaired]
    intro property hmem
    have hkey : property.1 ∈ Entries.keys others := List.mem_map_of_mem hmem
    simp [hkey]
  rw [mergeProperties, hshared, hmissing, List.append_nil]

/-- A schema is not widened by itself, wherever else it stands. -/
theorem merge_eq_of_relocated {schema other : Schema} (hkeyed : schema.Keyed)
    (h : Relocated schema other) : merge schema other = schema := by
  induction hkeyed generalizing other with
  | @intro schema own _ ih =>
    have hlike := h.alike
    rw [merge_eq, ← hlike.reference, ← hlike.types, ← hlike.required, ← h.fullyAlike.description,
      mergeProperties_eq_of_forall₂ own.properties hlike.properties
        fun _ hmem _ hother => ih (.property hmem) hother,
      addMissing_self, Option.or_self, Option.or_self, List.filter_eq_self.mpr (by simp)]
    cases schema
    rfl

theorem merge_self {schema : Schema} (h : schema.Keyed) : merge schema schema = schema :=
  merge_eq_of_relocated h (.refl schema)

theorem merge_merge_self {added : Schema} (h : added.Keyed) (target : Schema) :
    merge (merge target added) added = merge target added := by
  rw [merge_assoc, merge_self h]

/-! ## Compositions -/

/-- More schemas are merged into those that were merged before them. -/
theorem mergeAll_append {schemas more : List Schema} {whole : Schema}
    (h : mergeAll schemas = some whole) :
    mergeAll (schemas ++ more) = some (more.foldl merge whole) := by
  cases schemas with
  | nil => cases h
  | cons first rest =>
    cases h
    rw [List.cons_append, mergeAll, List.foldl_append]

theorem foldl_merge_eq_merge {schemas : List Schema} {resolved : Schema}
    (h : mergeAll schemas = some resolved) (target : Schema) :
    schemas.foldl merge target = merge target resolved := by
  cases schemas with
  | nil => cases h
  | cons first rest =>
    cases h
    exact (merge_foldl_merge target first rest).symm

/-- Leaves that make one schema need not be merged once more right after each other. -/
theorem mergeAll_repeated {leaves twins : List Schema} {resolved twin : Schema}
    (h : mergeAll leaves = some resolved) (htwins : mergeAll twins = some twin)
    (habsorbed : merge resolved twin = resolved) (before after : List Schema) :
    mergeAll (before ++ (leaves ++ (twins ++ after))) = mergeAll (before ++ (leaves ++ after)) := by
  -- what is merged up to the leaves already has what the twins add
  have hwhole : ∃ whole, mergeAll (before ++ leaves) = some whole ∧ merge whole twin = whole := by
    cases hbefore : mergeAll before with
    | none =>
      obtain rfl : before = [] := by
        cases before with
        | nil => rfl
        | cons => cases hbefore
      exact ⟨resolved, h, habsorbed⟩
    | some first =>
      refine ⟨merge first resolved, ?_, by rw [merge_assoc, habsorbed]⟩
      rw [mergeAll_append hbefore, foldl_merge_eq_merge h]
  obtain ⟨whole, hall, hwhole⟩ := hwhole
  rw [← List.append_assoc before leaves, ← List.append_assoc before leaves, mergeAll_append hall,
    mergeAll_append hall, List.foldl_append, foldl_merge_eq_merge htwins, hwhole]

section

variable {root schema : Schema}

/-- The leaves of a composition are those of its components, one after another. -/
theorem leaves_iff_of_components (href : schema.reference = none) {components : List Schema}
    (hsome : components ≠ []) {leaves : List Schema} :
    Leaves root { schema with allOf := components } leaves
      ↔ ∃ parts, List.Forall₂ (Leaves root) components parts ∧ leaves = parts.flatten := by
  have hbody : standsFor root { schema with allOf := components }
      = .ok { schema with allOf := components } := standsFor_of_none href
  constructor
  · intro h
    cases h with
    | leaf hother hplain =>
      cases hbody.symm.trans hother
      exact absurd hplain hsome
    | components hother _ hparts =>
      cases hbody.symm.trans hother
      exact ⟨_, hparts, rfl⟩
  · rintro ⟨parts, hparts, rfl⟩
    exact .components hbody hsome hparts

/-- The twin of a component has leaves that make the twin of what those of the component make. -/
theorem exists_twin_leaves (hroot : root.Keyed) {component twin : Schema}
    (hcomponent : component.Keyed) (htwin : Relocated component twin) {leaves : List Schema}
    (hleaves : Leaves root component leaves) :
    ∃ twins, Leaves root twin twins ∧ ∀ before after,
      mergeAll (before ++ (leaves ++ (twins ++ after))) = mergeAll (before ++ (leaves ++ after)) := by
  obtain ⟨twins, htwins, hpaired⟩ :=
    Comparison.exists_leaves Relocated.alike (Relocated.refl root).agree_target hleaves htwin
  refine ⟨twins, htwins, ?_⟩
  cases hresolved : mergeAll leaves with
  | none =>
    cases hpaired with
    | nil => exact fun _ _ => rfl
    | cons => cases hresolved
  | some resolved =>
    obtain ⟨merged, hmerged, hrelocated⟩ :=
      Comparison.exists_mergeAll Relocated.merge hpaired hresolved
    have hkeyed := hroot.resolve hcomponent (resolve_eq_ok_iff.mpr ⟨leaves, hleaves, hresolved⟩)
    exact mergeAll_repeated hresolved hmerged (merge_eq_of_relocated hkeyed hrelocated)

/-- A component and its twin right after it come to the same as the component alone. -/
theorem agree_resolve_repeated (hroot : root.Keyed) {component twin : Schema}
    (hcomponent : component.Keyed) (htwin : Relocated component twin)
    (href : schema.reference = none) (before after : List Schema) :
    Agree (· = ·) (resolve root { schema with allOf := before ++ component :: twin :: after })
      (resolve root { schema with allOf := before ++ component :: after }) := by
  have hrepeated : before ++ component :: twin :: after ≠ [] := by simp
  have hsingle : before ++ component :: after ≠ [] := by simp
  refine .of_forall_ok ?_ ?_
  · intro result hresult
    obtain ⟨_, hleaves, hmerge⟩ := resolve_eq_ok_iff.mp hresult
    obtain ⟨parts, hparts, rfl⟩ := (leaves_iff_of_components href hrepeated).mp hleaves
    obtain ⟨first, more, rfl, hfirst, hmore⟩ := exists_of_forall₂_append hparts
    obtain ⟨leaves, rest, hown, hrest, rfl⟩ := List.forall₂_cons_left_iff.mp hmore
    obtain ⟨others, last, hothers, hlast, rfl⟩ := List.forall₂_cons_left_iff.mp hrest
    obtain ⟨twins, htwins, hmerged⟩ := exists_twin_leaves hroot hcomponent htwin hown
    cases hothers.unique htwins
    refine ⟨result, resolve_eq_ok_iff.mpr ⟨(first ++ leaves :: last).flatten, ?_, ?_⟩, rfl⟩
    · refine (leaves_iff_of_components href hsingle).mpr ⟨_, ?_, rfl⟩
      exact List.rel_append hfirst (List.Forall₂.cons hown hlast)
    · simpa [hmerged] using hmerge
  · intro result hresult
    obtain ⟨_, hleaves, hmerge⟩ := resolve_eq_ok_iff.mp hresult
    obtain ⟨parts, hparts, rfl⟩ := (leaves_iff_of_components href hsingle).mp hleaves
    obtain ⟨first, more, rfl, hfirst, hmore⟩ := exists_of_forall₂_append hparts
    obtain ⟨leaves, last, hown, hlast, rfl⟩ := List.forall₂_cons_left_iff.mp hmore
    obtain ⟨twins, htwins, hmerged⟩ := exists_twin_leaves hroot hcomponent htwin hown
    refine ⟨result, resolve_eq_ok_iff.mpr ⟨(first ++ leaves :: twins :: last).flatten, ?_, ?_⟩⟩
    · refine (leaves_iff_of_components href hrepeated).mpr ⟨_, ?_, rfl⟩
      exact List.rel_append hfirst (List.Forall₂.cons hown (List.Forall₂.cons htwins hlast))
    · simpa [hmerged] using hmerge

end

/-- Merging is associative, and what is merged into a schema that has it already, be it the schema
itself or one that it was just merged into, widens nothing. So a component of a composition may stand
twice in a row, the last one included: the composition resolves to the same schema as with the
component once, or to none in either form. -/
theorem merge_repeated :
    (∀ first second third,
      merge (merge first second) third = merge first (merge second third)) ∧
    (∀ schema : Schema, schema.Keyed → merge schema schema = schema) ∧
    (∀ target added : Schema, added.Keyed →
      merge (merge target added) added = merge target added) ∧
    ∀ root schema component twin : Schema, root.Keyed → component.Keyed →
      Relocated component twin → schema.reference = none → ∀ before after : List Schema,
        Agree (· = ·) (resolve root { schema with allOf := before ++ component :: twin :: after })
          (resolve root { schema with allOf := before ++ component :: after }) :=
  ⟨merge_assoc, fun _ => merge_self, fun target _ hadded => merge_merge_self hadded target,
    fun _ _ _ _ hroot hcomponent htwin href before after =>
      agree_resolve_repeated hroot hcomponent htwin href before after⟩

/-- A document that defines what is labelled. -/
def labels : Json := .obj [("definitions", .obj [("label", .obj [
  ("properties", .obj [("label", .obj [("type", .str "string")])]),
  ("required", .arr [.str "label"])])])]

/-- A component that asks for a label. -/
def labelled : Json := .obj [("$ref", .str "#/definitions/label")]

/-- A component that asks for a date. -/
def dated : Schema where
  properties := [("date", { types := [.string] })]
  required := ["date"]

/-- The schema that asks for both. -/
def datedAndLabelled : Schema where
  properties := [
    ("date", { types := [.string] }),
    ("label", { types := [.string], location := "#/definitions/label/properties/label" })]
  required := ["date", "label"]

theorem merge_repeated_labelled :
    ∃ root first second, readAt "#" labels = .ok root ∧ readAt "#/allOf/1" labelled = .ok first ∧
      readAt "#/allOf/2" labelled = .ok second ∧
      merge (merge dated first) second = merge dated (merge first second) ∧
      merge first first = first ∧ merge (merge dated first) first = merge dated first ∧
      resolve root { allOf := [dated, first] } = .ok datedAndLabelled ∧
      resolve root { allOf := [dated, first, second] } = .ok datedAndLabelled := by
  obtain ⟨second, hsecond⟩ : ∃ second, readAt "#/allOf/2" labelled = .ok second := ⟨_, by cbv⟩
  obtain ⟨root, first, hroot, hfirst, hresolve⟩ : ∃ root first, readAt "#" labels = .ok root ∧
      readAt "#/allOf/1" labelled = .ok first ∧
      resolve root { allOf := [dated, first] } = .ok datedAndLabelled :=
    ⟨_, _, by cbv, by cbv, by cbv⟩
  have hlabels : root.Keyed := keyed_of_readOf (by decide) ⟨_, hroot⟩
  have hkeyed : first.Keyed := keyed_of_readOf (by decide) ⟨_, hfirst⟩
  have htwin : Relocated first second := relocated_of_readOf ⟨_, hfirst⟩ ⟨_, hsecond⟩
  obtain ⟨hassoc, hself, habsorbed, hcomposition⟩ := merge_repeated
  obtain ⟨whole, hwhole, rfl⟩ :=
    (hcomposition root {} first second hlabels hkeyed htwin rfl [dated] []).flip.exists_ok hresolve
  exact ⟨root, first, second, hroot, hfirst, hsecond, hassoc _ _ _, hself first hkeyed,
    habsorbed dated first hkeyed, hresolve, hwhole⟩

end Schema

end SchemaForge
