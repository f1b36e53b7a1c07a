import SchemaForge.Proofs.OneOrManyUse
import SchemaForge.Proofs.Undescribed

/-! # Documents that differ in descriptions

Two documents that differ in descriptions alone have the same places, and what stands at the same
place of the two is expanded alike. There is one exception: the one-or-many pattern is found by
comparing schemas as a whole, so a description can hide it.
-/

namespace SchemaForge

open Rust

namespace Schema

/-! ## Merges of paired schemas -/

section

variable {R : Schema → Schema → Prop}
  (hmerge : ∀ {a b a' b'}, R a b → R a' b' → R (a.merge a') (b.merge b'))

include hmerge

theorem rel_widen {a b : Schema} (h : R a b) {added more : Option Schema}
    (hadded : Option.Rel R added more) : R (widen a added) (widen b more) := by
  cases hadded with
  | none => exact h
  | some hsome => exact hmerge h hsome

/-- United properties are paired when both lists of them are. -/
theorem forall₂_mergeProperties {held others added more : List (String × Schema)}
    (hheld : List.Forall₂ (fun property other => property.1 = other.1 ∧ R property.2 other.2)
      held others)
    (hadded : List.Forall₂ (fun property other => property.1 = other.1 ∧ R property.2 other.2)
      added more) :
    List.Forall₂ (fun property other => property.1 = other.1 ∧ R property.2 other.2)
      (mergeProperties held added) (mergeProperties others more) := by
  have hkeys := Entries.keys_eq_of_forall₂ hheld
  rw [mergeProperties, mergeProperties]
  refine List.rel_append ?_ ?_
  · clear hkeys
    induction hheld with
    | nil => exact List.Forall₂.nil
    | @cons property other _ _ hproperty _ ih =>
      obtain ⟨key, schema⟩ := property
      obtain ⟨another, paired⟩ := other
      obtain ⟨rfl, hschema⟩ := hproperty
      rw [mergeShared_cons, mergeShared_cons]
      exact List.Forall₂.cons ⟨rfl, rel_widen hmerge hschema (Entries.rel_get? hadded key)⟩ ih
  · refine List.rel_filter ?_ hadded
    intro property other hproperty
    simp only [hkeys, hproperty.1]

/-- Merges are alike when the merged schemas are. -/
theorem Alike.merge {a b a' b' : Schema} (h : Alike R a b) (h' : Alike R a' b') :
    Alike R (a.merge a') (b.merge b') := by
  rw [merge_eq, merge_eq]
  refine ⟨?_, ?_, forall₂_mergeProperties hmerge h.properties h'.properties, ?_, h.items,
    h.additional, h.allOf, h.anyOf, h.enumeration, h.defaultValue⟩
  · simp only [h.reference, h'.reference]
  · simp only [h.types, h'.types]
  · simp only [h.required, h'.required]

end

/-! ## Counterparts -/

/-- The two schemas for additional properties, where both are told. -/
def additionalBeside : Additional Schema → Additional Schema → List (Schema × Schema)
  | .constrained held, .constrained paired => [(held, paired)]
  | _, _ => []

/-- The schemas that two schemas hold at the same place. -/
def heldBeside (a b : Schema) : List (Schema × Schema) :=
  (a.properties.zip b.properties).map (fun entries => (entries.1.2, entries.2.2))
    ++ (a.items.zip b.items ++ (additionalBeside a.additional b.additional
    ++ (a.allOf.zip b.allOf ++ (a.anyOf.zip b.anyOf
    ++ (a.definitions.zip b.definitions).map fun entries => (entries.1.2, entries.2.2)))))

/-- The schemas stand at the same place of two documents. -/
inductive Counterparts (root other : Schema) : Schema → Schema → Prop
  | root : Counterparts root other root other
  | held {a b held paired : Schema} (h : Counterparts root other a b)
      (hmem : (held, paired) ∈ heldBeside a b) : Counterparts root other held paired

/-- The places of two documents are among those of any list that has their roots and all that is
held beside each other at its places. -/
theorem Counterparts.mem_of_closed {root other : Schema} {places : List (Schema × Schema)}
    (hroot : (root, other) ∈ places)
    (hclosed : ∀ place ∈ places, ∀ next ∈ heldBeside place.1 place.2, next ∈ places)
    {a b : Schema} (h : Counterparts root other a b) : (a, b) ∈ places := by
  induction h with
  | root => exact hroot
  | held _ hmem ih => exact hclosed _ ih _ hmem

/-- At every place of two documents the one-or-many pattern is found in both, or in neither. -/
def PatternsAlike (root other : Schema) : Prop :=
  ∀ a b, Counterparts root other a b → ∀ single several single' several',
    a.anyOf = [single, several] → b.anyOf = [single', several'] →
      Agree (· = ·) (Document.isOneOrMany root single several)
        (Document.isOneOrMany other single' several')

/-! ## Counterparts differ in descriptions alone -/

theorem forall₂_of_undescribedList_eq {schemas others : List Schema}
    (h : undescribedList schemas = undescribedList others) :
    List.Forall₂ SameUndescribed schemas others := by
  rwa [undescribedList_eq_map, undescribedList_eq_map, ← List.forall₂_eq_eq_eq,
    List.forall₂_map_left_iff, List.forall₂_map_right_iff] at h

theorem forall₂_of_undescribedEntries_eq {entries others : List (String × Schema)}
    (h : undescribedEntries entries = undescribedEntries others) :
    List.Forall₂ (fun entry other => entry.1 = other.1 ∧ SameUndescribed entry.2 other.2)
      entries others := by
  rw [undescribedEntries_eq_map, undescribedEntries_eq_map, ← List.forall₂_eq_eq_eq,
    List.forall₂_map_left_iff, List.forall₂_map_right_iff] at h
  exact h.imp fun _ _ hentry => Prod.mk.inj hentry

theorem additionalAlike_of_undescribed_eq {first second : Additional Schema}
    (h : undescribedAdditional first = undescribedAdditional second) :
    AdditionalAlike SameUndescribed first second := by
  cases first <;> cases second <;>
    simp only [undescribedAdditional, Additional.permitted.injEq, Additional.constrained.injEq,
      reduceCtorEq] at h
  case unspecified.unspecified => exact .unspecified
  case permitted.permitted allowed other =>
    rw [h]
    exact .permitted other
  case constrained.constrained => exact .constrained h

/-- Keyword by keyword, schemas that differ in descriptions alone hold such schemas again. -/
theorem SameUndescribed.alike {a b : Schema} (h : SameUndescribed a b) :
    Alike SameUndescribed a b ∧
      List.Forall₂ (fun definition other =>
          definition.1 = other.1 ∧ SameUndescribed definition.2 other.2)
        a.definitions b.definitions := by
  cases a
  cases b
  simp only [SameUndescribed, undescribed, mk.injEq] at h
  obtain ⟨hreference, htypes, hproperties, hrequired, hitems, hadditional, hallOf, hanyOf,
    henumeration, hdefault, -, hdefinitions, -⟩ := h
  exact ⟨⟨hreference, htypes, forall₂_of_undescribedEntries_eq hproperties, hrequired,
    forall₂_of_undescribedList_eq hitems, additionalAlike_of_undescribed_eq hadditional,
    forall₂_of_undescribedList_eq hallOf, forall₂_of_undescribedList_eq hanyOf, henumeration,
    hdefault⟩, forall₂_of_undescribedEntries_eq hdefinitions⟩

/-- What such schemas hold at the same place differs in descriptions alone. -/
theorem SameUndescribed.of_mem_heldBeside {a b held paired : Schema} (h : SameUndescribed a b)
    (hmem : (held, paired) ∈ heldBeside a b) : SameUndescribed held paired := by
  obtain ⟨hlike, hdefinitions⟩ := h.alike
  have hentries : ∀ {entries others : List (String × Schema)},
      List.Forall₂ (fun entry other => entry.1 = other.1 ∧ SameUndescribed entry.2 other.2)
        entries others →
      (held, paired) ∈ (entries.zip others).map (fun pair => (pair.1.2, pair.2.2)) →
        SameUndescribed held paired := by
    intro entries others hpaired hmem
    obtain ⟨pair, hpair, heq⟩ := List.mem_map.mp hmem
    cases heq
    exact ((List.forall₂_iff_zip.mp hpaired).2 hpair).2
  simp only [heldBeside, List.mem_append] at hmem
  rcases hmem with hmem | hmem | hmem | hmem | hmem | hmem
  · exact hentries hlike.properties hmem
  · exact (List.forall₂_iff_zip.mp hlike.items).2 hmem
  · rcases additionalAlike_cases hlike.additional with
      ⟨hfirst, hsecond⟩ | ⟨_, hfirst, hsecond⟩ | ⟨_, _, hfirst, hsecond, hvalue⟩ <;>
      rw [hfirst, hsecond] at hmem
    · cases hmem
    · cases hmem
    · cases List.mem_singleton.mp hmem
      exact hvalue
  · exact (List.forall₂_iff_zip.mp hlike.allOf).2 hmem
  · exact (List.forall₂_iff_zip.mp hlike.anyOf).2 hmem
  · exact hentries hdefinitions hmem

section

variable {root other : Schema} (hdocuments : SameUndescribed root other)

include hdocuments

/-- What stands at the same place differs in descriptions alone. -/
theorem Counterparts.sameUndescribed {a b : Schema} (h : Counterparts root other a b) :
    SameUndescribed a b := by
  induction h with
  | root => exact hdocuments
  | held _ hmem ih => exact ih.of_mem_heldBeside hmem

theorem Counterparts.alike {a b : Schema} (h : Counterparts root other a b) :
    Alike (Counterparts root other) a b := by
  have hsame := (h.sameUndescribed hdocuments).alike.1
  have hheld : ∀ held paired, (held, paired) ∈ heldBeside a b → Counterparts root other held paired :=
    fun _ _ hmem => .held h hmem
  simp only [heldBeside, List.mem_append, List.mem_map, Prod.mk.injEq] at hheld
  -- what the two hold is paired in order, and each pair of it is held at one place
  refine ⟨hsame.reference, hsame.types, ?_, hsame.required, ?_, ?_, ?_, ?_, hsame.enumeration,
    hsame.defaultValue⟩
  · exact forall₂_of_zip hsame.properties fun _ _ hmem hrel =>
      ⟨hrel.1, hheld _ _ (Or.inl ⟨_, hmem, rfl, rfl⟩)⟩
  · exact forall₂_of_zip hsame.items fun _ _ hmem _ => hheld _ _ (Or.inr (Or.inl hmem))
  · rcases additionalAlike_cases hsame.additional with
      ⟨hfirst, hsecond⟩ | ⟨allowed, hfirst, hsecond⟩ | ⟨_, _, hfirst, hsecond, -⟩ <;>
      rw [hfirst, hsecond] at hheld ⊢
    · exact .unspecified
    · exact .permitted allowed
    · exact .constrained (hheld _ _ (Or.inr (Or.inr (Or.inl (List.mem_singleton_self _)))))
  · exact forall₂_of_zip hsame.allOf fun _ _ hmem _ =>
      hheld _ _ (Or.inr (Or.inr (Or.inr (Or.inl hmem))))
  · exact forall₂_of_zip hsame.anyOf fun _ _ hmem _ =>
      hheld _ _ (Or.inr (Or.inr (Or.inr (Or.inr (Or.inl hmem)))))

theorem Counterparts.definitions {a b : Schema} (h : Counterparts root other a b) :
    List.Forall₂ (fun definition another =>
        definition.1 = another.1 ∧ Counterparts root other definition.2 another.2)
      a.definitions b.definitions := by
  refine forall₂_of_zip (h.sameUndescribed hdocuments).alike.2 fun _ _ hmem hrel =>
    ⟨hrel.1, .held h ?_⟩
  simp only [heldBeside, List.mem_append]
  exact Or.inr (Or.inr (Or.inr (Or.inr (Or.inr (List.mem_map.mpr ⟨_, hmem, rfl⟩)))))

end

/-! ## Merges of counterparts -/

/-- Counterparts, and what becomes of them by merging. -/
inductive Matched (root other : Schema) : Schema → Schema → Prop
  | place {a b : Schema} (h : Counterparts root other a b) : Matched root other a b
  | merge {a b a' b' : Schema} (h : Matched root other a b) (h' : Matched root other a' b') :
      Matched root other (a.merge a') (b.merge b')

section

variable {root other : Schema}

theorem Matched.alike (hdocuments : SameUndescribed root other) {a b : Schema}
    (h : Matched root other a b) : Alike (Matched root other) a b := by
  induction h with
  | place h => exact (h.alike hdocuments).mono fun _ _ => .place
  | merge _ _ ih ih' => exact ih.merge .merge ih'

/-- A merge keeps the alternatives of its first schema, so the pattern is found alike in it. -/
theorem Matched.agree_isOneOrMany (hpatterns : PatternsAlike root other) {a b : Schema}
    (h : Matched root other a b) {single several single' several' : Schema}
    (hfirst : a.anyOf = [single, several]) (hsecond : b.anyOf = [single', several']) :
    Agree (· = ·) (Document.isOneOrMany root single several)
      (Document.isOneOrMany other single' several') := by
  induction h with
  | place h => exact hpatterns _ _ h _ _ _ _ hfirst hsecond
  | merge _ _ ih _ =>
    rw [merge_eq] at hfirst hsecond
    exact ih hfirst hsecond

theorem agree_walk_counterparts (hdocuments : SameUndescribed root other) {a b : Schema}
    (h : Counterparts root other a b) (segments : List String) :
    Agree (Counterparts root other) (Reference.walk root a segments)
      (Reference.walk other b segments) := by
  induction segments generalizing a b with
  | nil => exact .ok h
  | cons segment rest ih =>
    rw [Reference.walk, Reference.walk]
    split
    · exact ih .root
    · split
      · exact ih h
      · have hrel := Entries.rel_get? (h.definitions hdocuments) segment
        cases hfirst : Entries.get? a.definitions segment <;>
          cases hsecond : Entries.get? b.definitions segment <;>
          rw [hfirst, hsecond] at hrel <;> cases hrel
        case none.none.none => exact .error _ _
        case some.some.some hdefinition => exact ih hdefinition

end

end Schema

/-! ## Expansion -/

namespace Document

/-- Documents that differ in descriptions alone are expanded alike, if the one-or-many pattern is
found alike in them. -/
theorem comparison_matched {first second : Document} (hname : first.rootName = second.rootName)
    (hdocuments : Schema.SameUndescribed first.root second.root)
    (hpatterns : Schema.PatternsAlike first.root second.root) :
    Comparison first second (fun _ => none) (Schema.Matched first.root second.root) where
  rootName := hname
  alike h := h.alike hdocuments
  description _ := rfl
  target reference :=
    ((Schema.agree_walk_counterparts hdocuments .root (Reference.segments reference)).mapError
      _ _).mono fun _ _ => .place
  merge := .merge
  pair h := h.agree_isOneOrMany hpatterns

end Document

end SchemaForge
