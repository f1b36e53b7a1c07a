import SchemaForge.Proofs.BoxedReferences
import SchemaForge.Proofs.DefinitionChains
import SchemaForge.Proofs.Leaves
import SchemaForge.Proofs.TypeNames

/-! # Targets of references

The type that a reference names is made from its text, and the schema that it leads to is found by
walking its segments. In a document whose references lead to definitions of the root or to the root
itself, and whose names become different type names, both are one: every name that a type mentions
belongs to a single declaration, the one expanded from what the reference resolves to.
-/

namespace SchemaForge

open Rust

/-! ## References of merged and resolved schemas -/

namespace Schema

theorem mem_referencesOfEntries {entries : Entries Schema} {reference : String} :
    reference ∈ referencesOfEntries entries ↔ ∃ entry ∈ entries, reference ∈ entry.2.references := by
  induction entries with
  | nil => simp [referencesOfEntries]
  | cons entry rest ih =>
    obtain ⟨key, schema⟩ := entry
    simp [referencesOfEntries, ih]

theorem referencesOfEntries_append (entries more : Entries Schema) :
    referencesOfEntries (entries ++ more)
      = referencesOfEntries entries ++ referencesOfEntries more := by
  induction entries with
  | nil => rfl
  | cons entry rest ih =>
    obtain ⟨key, schema⟩ := entry
    rw [List.cons_append, referencesOfEntries, referencesOfEntries, ih, List.append_assoc]

theorem referencesOfEntries_missingFrom_subset (held added : Entries Schema) :
    referencesOfEntries (missingFrom held added) ⊆ referencesOfEntries added := by
  intro reference h
  obtain ⟨entry, hentry, hreference⟩ := mem_referencesOfEntries.mp h
  exact mem_referencesOfEntries.mpr ⟨entry, List.mem_of_mem_filter hentry, hreference⟩

mutual

/-- Merging writes no reference that neither schema has. -/
theorem references_merge_subset (held source : Schema) :
    (held.merge source).references ⊆ held.references ++ source.references := by
  obtain ⟨reference, types, properties, required, items, additional, allOf, anyOf, enumeration,
    defaultValue, description, definitions, location⟩ := held
  have hshared := referencesOfEntries_mergeShared_subset properties source.properties
  have hmissing := referencesOfEntries_missingFrom_subset properties source.properties
  intro found h
  rw [merge, mem_references, referencesOfEntries_append, List.mem_append] at h
  rw [List.mem_append, mem_references, mem_references]
  -- the reference is one of the two, and properties come from both; the rest is from the first
  rcases h with hown | (hproperty | hproperty) | hrest
  · rcases Option.or_eq_some_iff.mp hown with hsource | ⟨-, hheld⟩
    · exact Or.inr (Or.inl hsource)
    · exact Or.inl (Or.inl hheld)
  · rcases List.mem_append.mp (hshared hproperty) with hheld | hsource
    · exact Or.inl (Or.inr (Or.inl hheld))
    · exact Or.inr (Or.inr (Or.inl hsource))
  · exact Or.inr (Or.inr (Or.inl (hmissing hproperty)))
  · exact Or.inl (Or.inr (Or.inr hrest))

theorem referencesOfEntries_mergeShared_subset (held source : Entries Schema) :
    referencesOfEntries (mergeShared held source)
      ⊆ referencesOfEntries held ++ referencesOfEntries source := by
  cases held with
  | nil =>
    rw [mergeShared, referencesOfEntries]
    exact List.nil_subset _
  | cons entry rest =>
    obtain ⟨key, schema⟩ := entry
    have hrest := referencesOfEntries_mergeShared_subset rest source
    intro found h
    rw [mergeShared, referencesOfEntries, List.mem_append] at h
    rw [referencesOfEntries, List.mem_append, List.mem_append]
    rcases h with h | h
    · cases hget : Entries.get? source key with
      | none =>
        rw [hget] at h
        exact Or.inl (Or.inl h)
      | some other =>
        rw [hget] at h
        have hfound := List.mem_append.mp (references_merge_subset schema other h)
        exact hfound.imp Or.inl fun hother => references_subset_of_get? hget hother
    · exact (List.mem_append.mp (hrest h)).imp Or.inr id

end

/-- The leaves of a schema write only references of the document and of the schema. -/
theorem Leaves.references_subset {root schema : Schema} {leaves : List Schema}
    (h : Leaves root schema leaves) :
    ∀ leaf ∈ leaves, leaf.references ⊆ root.references ++ schema.references := by
  have hbody : ∀ {schema body : Schema}, standsFor root schema = .ok body →
      body.references ⊆ root.references ++ schema.references := by
    intro schema body hstands
    cases href : schema.reference with
    | none =>
      rw [standsFor_of_none href, Except.ok.injEq] at hstands
      rw [← hstands]
      exact List.subset_append_right _ _
    | some reference =>
      rw [standsFor_of_some href] at hstands
      exact List.subset_append_of_subset_left _ (references_subset_of_resolve hstands)
  -- a component is written in the body, and the body in the document or in the schema itself
  induction h using Leaves.recOn_parts with
  | leaf hstands hplain =>
    intro leaf hleaf
    rw [List.mem_singleton.mp hleaf]
    exact hbody hstands
  | @components schema body parts hstands hsome hparts ih =>
    intro leaf hleaf
    obtain ⟨part, hpart, hleaf⟩ := List.mem_flatten.mp hleaf
    obtain ⟨component, hcomponent, -, hsubset⟩ := exists_mem_left_of_forall₂ ih hpart
    refine List.Subset.trans (hsubset leaf hleaf)
      (List.append_subset.mpr ⟨List.subset_append_left _ _, ?_⟩)
    intro reference hreference
    have hlist := mem_referencesOfList.mpr ⟨component, hcomponent, hreference⟩
    exact hbody hstands (mem_references.mpr (by simp [hlist]))

/-- Merging schemas one after another writes no new references. -/
theorem references_foldl_merge_subset {references : List String} {first : Schema}
    {rest : List Schema} (hfirst : first.references ⊆ references)
    (hrest : ∀ schema ∈ rest, schema.references ⊆ references) :
    (rest.foldl merge first).references ⊆ references := by
  induction rest generalizing first with
  | nil => exact hfirst
  | cons schema more ih =>
    refine ih ?_ fun other hother => hrest other (List.mem_cons_of_mem _ hother)
    exact List.Subset.trans (references_merge_subset first schema)
      (List.append_subset.mpr ⟨hfirst, hrest schema List.mem_cons_self⟩)

/-- What a schema resolves to writes only references of the document and of the schema. -/
theorem references_subset_of_resolved {root schema resolved : Schema}
    (h : resolve root schema = .ok resolved) :
    resolved.references ⊆ root.references ++ schema.references := by
  obtain ⟨leaves, hleaves, hmerge⟩ := resolve_eq_ok_iff.mp h
  have hsubset := hleaves.references_subset
  cases leaves with
  | nil => cases hmerge
  | cons first rest =>
    rw [mergeAll, Option.some.injEq] at hmerge
    rw [← hmerge]
    exact references_foldl_merge_subset (hsubset first List.mem_cons_self)
      fun schema hschema => hsubset schema (List.mem_cons_of_mem _ hschema)

end Schema

/-! ## Where references of the root lead -/

namespace Reference

/-- The reference is `#`, or it names a table and then a key of the root's definitions that is one
segment and has no meaning of its own in a reference. -/
inductive ToRoot (root : Schema) : String → Prop
  | root : ToRoot root "#"
  | definition {table key : String} (htable : table ∈ tableNames)
      (hkey : key ∈ Entries.keys root.definitions) (hslash : '/' ∉ key.toList)
      (hhash : key ≠ "#") (hnone : key ∉ tableNames) : ToRoot root ("#/" ++ table ++ "/" ++ key)

/-- The reference names the schema: the root, which has a name of its own, or the definition under
the key that is its last segment. -/
inductive Targets (document : Document) : String → String × Schema → Prop
  | root {name : String} (hname : document.rootName = some name) :
      Targets document "#" (name, document.root)
  | definition {table key : String} {node : Schema} (htable : table ∈ tableNames)
      (hget : Entries.get? document.root.definitions key = some node) :
      Targets document ("#/" ++ table ++ "/" ++ key) (key, node)

theorem segments_definition {table key : String} (htable : table ∈ tableNames)
    (hslash : '/' ∉ key.toList) : segments ("#/" ++ table ++ "/" ++ key) = ["#", table, key] := by
  have hwritten : "#/" ++ table ++ "/" ++ key = "/".intercalate ["#", table, key] := by
    rw [← String.toList_inj, String.toList_intercalate]
    simp [List.intercalate]
  have htables : ∀ name ∈ tableNames, '/' ∉ name.toList := by decide
  rw [hwritten]
  refine segments_intercalate ?_ (by simp)
  simp only [List.forall_mem_cons, List.not_mem_nil, false_implies, implies_true, and_true]
  exact ⟨by decide, htables table htable, hslash⟩

theorem segments_hash : segments "#" = ["#"] := by
  show segments ("/".intercalate ["#"]) = ["#"]
  exact segments_intercalate (by decide) (by simp)

theorem typeName_of_ne {rootName : Option String} {reference : String} (h : reference ≠ "#") :
    typeName rootName reference = .ok (Rust.typeName ((segments reference).getLastD "")) :=
  if_neg h

/-- Where a reference names a type, it resolves to a named schema of the document, and the type is
named for that schema. -/
theorem ToRoot.exists_targets {document : Document} {reference name : String}
    (h : ToRoot document.root reference)
    (hname : Reference.typeName document.rootName reference = .ok name) :
    ∃ source ∈ document.sources, Targets document reference source ∧
      Reference.resolve document.root reference = .ok source.2 ∧ Rust.typeName source.1 = name := by
  cases h with
  | root =>
    cases hroot : document.rootName with
    | none =>
      rw [hroot] at hname
      cases hname
    | some rootName =>
      rw [hroot, Reference.typeName, if_pos rfl] at hname
      split at hname
      · cases hname
      · refine ⟨(rootName, document.root), ?_, .root hroot, ?_, Except.ok.inj hname⟩
        · simp [Document.sources, hroot]
        · rw [Reference.resolve, segments_hash, walk, if_pos rfl, walk]
          rfl
  | @definition table key htable hkey hslash hhash hnone =>
    have hsegments := segments_definition htable hslash
    have hother : "#/" ++ table ++ "/" ++ key ≠ "#" := by
      intro heq
      rw [heq, segments_hash] at hsegments
      simp at hsegments
    have htableHash : table ≠ "#" := by
      rintro rfl
      exact absurd htable (by decide)
    obtain ⟨node, hget⟩ : ∃ node, Entries.get? document.root.definitions key = some node := by
      rw [← Option.ne_none_iff_exists', ne_eq, Entries.get?_eq_none_iff, not_not]
      exact hkey
    refine ⟨(key, node), ?_, .definition htable hget, ?_, ?_⟩
    · exact List.mem_append_left _ (Entries.mem_of_get?_eq_some hget)
    · rw [Reference.resolve, hsegments, walk, if_pos rfl, walk, if_neg htableHash, if_pos htable,
        walk, if_neg hhash, if_neg hnone, hget]
      rfl
    · rw [typeName_of_ne hother, hsegments, Except.ok.injEq] at hname
      exact hname

end Reference

namespace Rust

/-! ## Versions of a declaration -/

/-- The second declaration is the first one apart from its description and from boxes around names
that were held inline. -/
structure Declaration.BoxedVersion (before after : Declaration) : Prop where
  frame : after.frame.describe none = before.frame.describe none
  slots : List.Forall₂ (fun type boxed =>
    boxed = type ∨ ∃ target, type.heldInline? = some target ∧ boxed = type.box) before.slots after.slots

theorem Declaration.BoxedVersion.refl (declaration : Declaration) :
    declaration.BoxedVersion declaration :=
  ⟨rfl, List.forall₂_same.mpr fun _ _ => Or.inl rfl⟩

theorem Declaration.BoxedVersion.name {before after : Declaration}
    (h : before.BoxedVersion after) : after.name = before.name := by
  have hname := congrArg Declaration.name h.frame
  simpa [Declaration.frame] using hname

@[simp] theorem Declaration.sourceName_mapSlots (change : Ty → Ty) (declaration : Declaration) :
    (declaration.mapSlots change).sourceName = declaration.sourceName := by
  cases declaration <;> rfl

@[simp] theorem Declaration.sourceName_describe (description : Option String)
    (declaration : Declaration) :
    (declaration.describe description).sourceName = declaration.sourceName := by
  cases declaration <;> rfl

theorem Declaration.BoxedVersion.sourceName {before after : Declaration}
    (h : before.BoxedVersion after) : after.sourceName = before.sourceName := by
  have hname := congrArg Declaration.sourceName h.frame
  simpa [Declaration.frame] using hname

theorem Declaration.BoxedVersion.describe {before after : Declaration}
    (h : before.BoxedVersion after) (description : Option String) :
    before.BoxedVersion (after.describe description) := by
  refine ⟨?_, ?_⟩
  · rw [← h.frame]
    cases after <;> rfl
  · cases after <;> exact h.slots

/-- A box leaves nothing held inline, so no slot is boxed twice. -/
theorem Declaration.BoxedVersion.boxAlong {before after : Declaration}
    (h : before.BoxedVersion after) (edges : List Edge) (holder : String) :
    before.BoxedVersion (after.mapSlots (boxAlong edges holder)) := by
  refine ⟨by rw [Declaration.frame_mapSlots, h.frame], ?_⟩
  rw [Declaration.slots_mapSlots, List.forall₂_map_right_iff]
  refine h.slots.imp fun type boxed hboxed => ?_
  rcases boxAlong_cases edges holder boxed with ⟨heq, -⟩ | ⟨target, -, hcases⟩
  · rwa [heq]
  · rcases hboxed with rfl | ⟨inner, hheld, rfl⟩
    · rcases hcases with ⟨rfl, heq⟩ | ⟨rfl, heq⟩
      · exact Or.inr ⟨target, rfl, heq⟩
      · exact Or.inr ⟨target, rfl, heq⟩
    · -- it is boxed already, and a boxed name is not boxed again
      rcases Ty.heldInline?_eq_some_iff.mp hheld with rfl | rfl
      · simp [Ty.box] at hcases
      · simp [Ty.box] at hcases

end Rust

namespace Document

/-! ## What the slots are inferred from -/

/-- The schemas that the slots of a declaration are inferred from: the properties of the resolved
schema or, where it has none and no values are enumerated, the schema itself. -/
def slotSchemas (resolved schema : Schema) : List Schema :=
  match resolved.properties, enumerated schema with
  | property :: rest, _ => (property :: rest).map Prod.snd
  | [], _ :: _ => []
  | [], [] => [schema]

theorem TypedBy.mem_references {document : Document} {schema : Schema} {reference : String}
    (h : TypedBy document schema reference) : reference ∈ schema.references := by
  induction h with
  | reference href => exact Schema.mem_references.mpr (Or.inl href)
  | single _ hpair _ _ ih =>
    rw [Schema.mem_references, hpair]
    simp [Schema.mem_referencesOfList, ih]
  | value _ _ _ hvalue _ ih =>
    rw [Schema.mem_references, hvalue]
    simp [ih]
  | item _ _ _ hitems _ ih =>
    rw [Schema.mem_references, hitems]
    simp [Schema.mem_referencesOfList, ih]

/-- The named schemas of a document write only references of the document. -/
theorem references_subset_of_mem_sources {document : Document} {source : String × Schema}
    (h : source ∈ document.sources) : source.2.references ⊆ document.root.references := by
  rcases List.mem_append.mp h with hdefinition | hroot
  · intro reference hreference
    have hentries := Schema.mem_referencesOfEntries.mpr ⟨source, hdefinition, hreference⟩
    exact Schema.mem_references.mpr (by simp [hentries])
  · obtain ⟨name, -, rfl⟩ := List.mem_map.mp hroot
    exact List.Subset.refl _

theorem references_subset_of_mem_slotSchemas {document : Document} {source : String × Schema}
    {resolved schema : Schema} (hsource : source ∈ document.sources)
    (hresolve : Schema.resolve document.root source.2 = .ok resolved)
    (h : schema ∈ slotSchemas resolved source.2) :
    schema.references ⊆ document.root.references := by
  have hown := references_subset_of_mem_sources hsource
  unfold slotSchemas at h
  split at h
  · rename_i hproperties
    obtain ⟨entry, hentry, rfl⟩ := List.mem_map.mp h
    rw [← hproperties] at hentry
    intro reference hreference
    have hentries := Schema.mem_referencesOfEntries.mpr ⟨entry, hentry, hreference⟩
    have hresolved := Schema.references_subset_of_resolved hresolve
      (Schema.mem_references.mpr (Or.inr (Or.inl hentries)))
    exact (List.mem_append.mp hresolved).elim id fun hmem => hown hmem
  · exact absurd h List.not_mem_nil
  · rw [List.mem_singleton.mp h]
    exact hown

/-- Every name that the type mentions is the one that a reference stands for by which the schema is
typed. -/
def NamedBy (document : Document) (schema : Schema) (type : Ty) : Prop :=
  ∀ name ∈ type.mentions, ∃ reference, TypedBy document schema reference ∧
    Reference.typeName document.rootName reference = .ok name

/-- The types in the slots of a declaration are named by the schemas they are inferred from. -/
theorem DeclarationOf.forall₂_namedBy {document : Document} {source : String × Schema}
    {declaration : Declaration} (h : DeclarationOf document source declaration) :
    ∃ resolved, Schema.resolve document.root source.2 = .ok resolved ∧
      List.Forall₂ (NamedBy document) (slotSchemas resolved source.2) declaration.slots := by
  cases h with
  | @struct resolved declared hresolve _ _ hfields hsome =>
    have hslots : slotSchemas resolved source.2 = resolved.properties.map Prod.snd := by
      unfold slotSchemas
      split
      · rename_i hproperties
        rw [hproperties]
      all_goals
        rename_i hproperties _
        rw [hproperties] at hfields
        exact absurd (List.forall₂_nil_left_iff.mp hfields) hsome
    refine ⟨resolved, hresolve, ?_⟩
    rw [hslots, Declaration.slots, List.forall₂_map_left_iff, List.forall₂_map_right_iff]
    exact hfields.imp fun property field hof name hname => (hof.mem_mentions_iff name).mp hname
  | @enum resolved declared hresolve _ _ hnone hvalues =>
    obtain ⟨value, values, henumerated⟩ := List.exists_cons_of_ne_nil hvalues
    refine ⟨resolved, hresolve, ?_⟩
    rw [slotSchemas, hnone, henumerated]
    exact List.Forall₂.nil
  | @typeAlias resolved declared inferred hresolve _ _ hnone hvalues hinfer htarget =>
    have hrules := inference_of_infer document source.2 hinfer
    refine ⟨resolved, hresolve, ?_⟩
    rw [slotSchemas, hnone, hvalues, Declaration.slots, htarget]
    exact List.Forall₂.cons (fun name hname => (hrules.mem_mentions_iff name).mp hname)
      List.Forall₂.nil

/-! ## References and declarations -/

/-- The declaration is what expansion makes of the named schema, apart from its description and
from boxes that break cycles, and it keeps the schema's name. -/
structure Expanded (document : Document) (source : String × Schema) (declaration : Declaration) :
    Prop where
  sourceName : declaration.sourceName = source.1
  made : ∃ made, (expandSchema document source.1 source.2).outcome = .ok made ∧
    made.BoxedVersion declaration

/-- The reference leads to the schema that the only declaration of the name is expanded from. -/
def Links (document : Document) (declarations : List Declaration) (reference name : String) :
    Prop :=
  ∃ source declaration, Reference.Targets document reference source ∧
    Reference.resolve document.root reference = .ok source.2 ∧
    (declarations.filter fun other => other.name = name) = [declaration] ∧
    Expanded document source declaration

theorem DeclarationOf.sourceName {document : Document} {source : String × Schema}
    {declaration : Declaration} (h : DeclarationOf document source declaration) :
    declaration.sourceName = source.1 := by
  cases h with
  | struct _ _ hsource => exact hsource
  | enum _ _ hsource => exact hsource
  | typeAlias _ _ hsource => exact hsource

theorem Expanded.name {document : Document} {source : String × Schema} {declaration : Declaration}
    (h : Expanded document source declaration) : declaration.name = typeName source.1 := by
  obtain ⟨-, made, hmade, hversion⟩ := h
  exact hversion.name.trans (declarationOf_of_expandSchema hmade).name

/-- A program declares each named schema in order, with types that are named by the schemas they
are inferred from. -/
theorem forall₂_expanded_of_expand {document : Document} {breaking : Bool} {program : Program}
    (h : (document.expand breaking).outcome = .ok program) :
    List.Forall₂ (fun source declaration => Expanded document source declaration ∧
        ∃ resolved, Schema.resolve document.root source.2 = .ok resolved ∧
          List.Forall₂ (NamedBy document) (slotSchemas resolved source.2) declaration.slots)
      document.sources program.declarations := by
  refine forall₂_of_expand ?_ ?_ ?_ h
  · intro source declaration hschema
    have hof := declarationOf_of_expandSchema hschema
    exact ⟨⟨hof.sourceName, declaration, hschema, .refl declaration⟩, hof.forall₂_namedBy⟩
  · rintro source declaration description ⟨⟨hsource, made, hmade, hversion⟩, hslots⟩
    refine ⟨⟨?_, made, hmade, hversion.describe description⟩, ?_⟩
    · rw [Declaration.sourceName_describe, hsource]
    · cases declaration <;> exact hslots
  · rintro edges source declaration ⟨⟨hsource, made, hmade, hversion⟩, resolved, hresolve, hslots⟩
    refine ⟨⟨?_, made, hmade, hversion.boxAlong _ _⟩, resolved, hresolve, ?_⟩
    · rw [Declaration.sourceName_mapSlots, hsource]
    · rw [Declaration.slots_mapSlots, List.forall₂_map_right_iff]
      refine hslots.imp fun schema type hnamed name hname => hnamed name ?_
      rwa [mentions_boxAlong] at hname

/-- Let the references of a document lead to its root or to definitions of its root, and let its
names become different type names. Then a program declares each definition in order and the root
after them, and each name that a type mentions comes from a reference that leads to the schema of
the only declaration of that name. -/
theorem forall₂_links_of_expand {document : Document} {breaking : Bool} {program : Program}
    (hreferences : ∀ reference ∈ document.root.references,
      Reference.ToRoot document.root reference)
    (hnames : (document.sources.map fun source => typeName source.1).Nodup)
    (h : (document.expand breaking).outcome = .ok program) :
    List.Forall₂ (fun source declaration => Expanded document source declaration ∧
        ∃ resolved, Schema.resolve document.root source.2 = .ok resolved ∧
          List.Forall₂ (fun schema type => ∀ name ∈ type.mentions, ∃ reference,
              TypedBy document schema reference ∧
              Reference.typeName document.rootName reference = .ok name ∧
              Links document program.declarations reference name)
            (slotSchemas resolved source.2) declaration.slots)
      document.sources program.declarations := by
  have hexpanded := forall₂_expanded_of_expand h
  have hdistinct : (program.declarations.map Declaration.name).Nodup := by
    rwa [map_name_of_expand h]
  have hlinks : ∀ reference ∈ document.root.references, ∀ name,
      Reference.typeName document.rootName reference = .ok name →
        Links document program.declarations reference name := by
    intro reference hreference name hname
    obtain ⟨target, htarget, htargets, hresolve, htype⟩ :=
      (hreferences reference hreference).exists_targets hname
    obtain ⟨declaration, hdeclaration, hof, -⟩ := exists_mem_right_of_forall₂ hexpanded htarget
    refine ⟨target, declaration, htargets, hresolve, ?_, hof⟩
    rw [← htype, ← hof.name]
    exact filter_eq_singleton hdistinct hdeclaration
  refine ((List.forall₂_and_left (p := (· ∈ document.sources)) _ _).mpr
    ⟨fun _ hsource => hsource, hexpanded⟩).imp ?_
  rintro source declaration ⟨hsource, hof, resolved, hresolve, hslots⟩
  refine ⟨hof, resolved, hresolve, ?_⟩
  refine ((List.forall₂_and_left (p := (· ∈ slotSchemas resolved source.2)) _ _).mpr
    ⟨fun _ hschema => hschema, hslots⟩).imp ?_
  rintro schema type ⟨hschema, hnamed⟩ name hname
  obtain ⟨reference, htyped, hstands⟩ := hnamed name hname
  have hreference := references_subset_of_mem_slotSchemas hsource hresolve hschema
    htyped.mem_references
  exact ⟨reference, htyped, hstands, hlinks reference hreference name hstands⟩

/-- A tree that is put together from a node and its own property. The node refers to itself, to the
tree and, as the values of a map, to labels. -/
def grove : Document where
  root := {
    allOf := [
      { reference := some "#/definitions/node" },
      { properties := [("roots", { types := [.array], items := [{ reference := some "#" }] })] }]
    definitions := [
      ("node", {
        properties := [
          ("next", { reference := some "#/definitions/node" }),
          ("tree", { reference := some "#" }),
          ("labels", {
            types := [.object]
            additional := .constrained { reference := some "#/$defs/label" } })] }),
      ("label", { types := [.string] })] }
  rootName := some "tree"

/-- The program for it, in which the reference from the tree back to the node is boxed. -/
def groveProgram : Program where
  rootName := some "tree"
  declarations := [
    .struct {
      name := "Node"
      sourceName := "node"
      fields := [
        { name := "next", sourceName := "next", type := .optional (.boxed (.named "Node")) },
        { name := "tree", sourceName := "tree", type := .optional (.named "Tree") },
        { name := "labels", sourceName := "labels", type := .optional (.map (.named "Label")) }]
      isDefault := true
      rename := some "node" },
    .typeAlias { name := "Label", sourceName := "label", target := .primitive "String" },
    .struct {
      name := "Tree"
      sourceName := "tree"
      fields := [
        { name := "next", sourceName := "next", type := .optional (.boxed (.named "Node")) },
        { name := "tree", sourceName := "tree", type := .optional (.boxed (.named "Tree")) },
        { name := "labels", sourceName := "labels", type := .optional (.map (.named "Label")) },
        { name := "roots", sourceName := "roots", type := .optional (.array (.named "Tree")) }]
      isDefault := true
      rename := some "tree" }]
  needsOneOrMany := false

theorem forall₂_links_grove :
    (∀ reference ∈ grove.root.references, Reference.ToRoot grove.root reference) ∧
      (grove.sources.map fun source => typeName source.1).Nodup ∧
      (grove.expand true).outcome = .ok groveProgram ∧
      List.Forall₂ (fun source declaration => Expanded grove source declaration ∧
          ∃ resolved, Schema.resolve grove.root source.2 = .ok resolved ∧
            List.Forall₂ (fun schema type => ∀ name ∈ type.mentions, ∃ reference,
                TypedBy grove schema reference ∧
                Reference.typeName grove.rootName reference = .ok name ∧
                Links grove groveProgram.declarations reference name)
              (slotSchemas resolved source.2) declaration.slots)
        grove.sources groveProgram.declarations := by
  have hreferences : ∀ reference ∈ grove.root.references,
      Reference.ToRoot grove.root reference := by
    have hdefined : ∀ table ∈ Reference.tableNames, ∀ key ∈ Entries.keys grove.root.definitions,
        Reference.ToRoot grove.root ("#/" ++ table ++ "/" ++ key) := by
      intro table htable key hkey
      have hplain : ∀ key ∈ Entries.keys grove.root.definitions,
          '/' ∉ key.toList ∧ key ≠ "#" ∧ key ∉ Reference.tableNames := by decide
      obtain ⟨hslash, hhash, hnone⟩ := hplain key hkey
      exact .definition htable hkey hslash hhash hnone
    have hnode : Reference.ToRoot grove.root "#/definitions/node" :=
      hdefined "definitions" (by decide) "node" (by decide)
    have hlabel : Reference.ToRoot grove.root "#/$defs/label" :=
      hdefined "$defs" (by decide) "label" (by decide)
    have hwritten : grove.root.references
        = ["#/definitions/node", "#", "#/definitions/node", "#", "#/$defs/label"] := rfl
    rw [hwritten]
    simp only [List.forall_mem_cons, List.not_mem_nil, false_implies, implies_true, and_true]
    exact ⟨hnode, .root, hnode, .root, hlabel⟩
  have hnames : (grove.sources.map fun source => typeName source.1).Nodup := by
    decide +kernel
  have hexpand : (grove.expand true).outcome = .ok groveProgram := by cbv
  exact ⟨hreferences, hnames, hexpand, forall₂_links_of_expand hreferences hnames hexpand⟩

end Document

end SchemaForge
