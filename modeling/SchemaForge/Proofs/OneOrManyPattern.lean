import SchemaForge.Proofs.OneOrManyUse
import SchemaForge.Proofs.Relocation

/-! # The one-or-many pattern

A schema and a list of items of the same schema stand at two places of a document, so they are read,
resolved and compared as two schemas. Reading and resolution do not depend on the place, and equality
leaves the place out: the pattern is found wherever it is written, and whether the schema is written
out or named by a reference.
-/

namespace SchemaForge

namespace Schema

open Json

/-- The schema of a list of items. -/
def listOf (item : Json) : Json := .obj [("type", .str "array"), ("items", item)]

/-- The schema that refers to another one. -/
def refer (reference : String) : Json := .obj [("$ref", .str reference)]

/-- The value has no reference of its own. -/
def Unreferring (value : Json) : Prop :=
  ∀ members : Entries Json, value = .obj members → members.get? "$ref" = none

/-- The value stands for a body: it is the body, or it refers to a schema with that body, which has
no reference of its own. -/
inductive Writes (root : Schema) (body : Json) : Json → Prop
  | itself : Writes root body body
  | reference {reference : String} {target : Schema} (hplain : Unreferring body)
      (htarget : Reference.resolve root reference = .ok target) (hread : ReadOf body target) :
      Writes root body (refer reference)

/-! ## Reading the alternatives -/

theorem reference_of_readOf {value : Json} {schema : Schema} (h : ReadOf value schema)
    (hplain : Unreferring value) : schema.reference = none := by
  obtain ⟨location, hread⟩ := h
  cases value with
  | obj members =>
    have href := (readAt_obj_eq_ok hread).reference
    rw [readReference, hplain members rfl] at href
    exact (Except.ok.inj href).symm
  | bool allowed =>
    cases hread
    rfl
  | _ => cases hread

theorem reference_of_readOf_refer {reference : String} {schema : Schema}
    (h : ReadOf (refer reference) schema) : schema.reference = some reference := by
  obtain ⟨location, hread⟩ := h
  exact (Except.ok.inj (readAt_obj_eq_ok hread).reference).symm

/-- A value that is read stands for a single item schema. -/
theorem itemValues_of_readOf {value : Json} {schema : Schema} (h : ReadOf value schema) :
    itemValues value = [value] := by
  obtain ⟨location, hread⟩ := h
  cases value with
  | null | arr values => cases hread
  | _ => rfl

theorem Writes.itemValues {root schema : Schema} {body value : Json} (h : Writes root body value)
    (hbody : ReadOf body schema) : itemValues value = [value] := by
  cases h with
  | itself => exact itemValues_of_readOf hbody
  | reference => rfl

/-- The schema of a list is an array of what is read from its item. -/
theorem exists_of_readOf_listOf {item : Json} {several : Schema} (h : ReadOf (listOf item) several)
    (hitem : itemValues item = [item]) :
    ∃ schema, ReadOf item schema ∧ several.reference = none ∧ several.allOf = [] ∧
      several.types = [.array] ∧ several.items = [schema] := by
  obtain ⟨location, hread⟩ := h
  have hfrom := readAt_obj_eq_ok hread
  have hitems := forall₂_of_readItems hfrom.items
  rw [show Entries.get? _ "items" = some item from rfl, Option.elim_some, hitem] at hitems
  obtain ⟨schema, _, hschema, hrest, hlist⟩ := List.forall₂_cons_left_iff.mp hitems
  obtain rfl := List.forall₂_nil_left_iff.mp hrest
  exact ⟨schema, hschema, (Except.ok.inj hfrom.reference).symm, (Except.ok.inj hfrom.allOf).symm,
    (Except.ok.inj hfrom.types).symm, hlist⟩

/-! ## Resolving the alternatives -/

theorem resolve_eq_of_standsFor {root schema other body result : Schema}
    (hbody : standsFor root schema = .ok body) (hother : standsFor root other = .ok body)
    (h : resolve root schema = .ok result) : resolve root other = .ok result := by
  obtain ⟨leaves, hleaves, hmerge⟩ := resolve_eq_ok_iff.mp h
  exact resolve_eq_ok_iff.mpr ⟨leaves, hleaves.of_standsFor hbody hother, hmerge⟩

/-- However a body is written, it resolves to the same schema apart from addresses. -/
theorem Writes.exists_resolve {root schema resolved written : Schema} {body value : Json}
    (h : Writes root body value) (hbody : ReadOf body schema)
    (hresolve : resolve root schema = .ok resolved) (hread : ReadOf value written) :
    ∃ other, resolve root written = .ok other ∧ Relocated resolved other := by
  have hmoved : ∀ {moved}, ReadOf body moved →
      ∃ other, resolve root moved = .ok other ∧ Relocated resolved other := fun hmoved =>
    ((Relocated.refl root).agree_resolve (relocated_of_readOf hbody hmoved)).exists_ok hresolve
  cases h with
  | itself => exact hmoved hread
  | @reference reference target hplain htarget htargetRead =>
    obtain ⟨other, hother, hrelocated⟩ := hmoved htargetRead
    have hstands : standsFor root written = .ok target :=
      (standsFor_of_some (reference_of_readOf_refer hread)).trans htarget
    exact ⟨other, resolve_eq_of_standsFor
      (standsFor_of_none (reference_of_readOf htargetRead hplain)) hstands hother, hrelocated⟩

end Schema

namespace Document

open Schema Json

section

variable {root schema resolved : Schema} {body one item : Json} (hroot : root.Keyed)
  (hkeys : body.hasDistinctKeys = true) (hbody : ReadOf body schema)
  (hresolve : Schema.resolve root schema = .ok resolved)
  (hone : Writes root body one) (hitem : Writes root body item)

include hroot hkeys hbody hresolve hone hitem

/-- A body and a list of items of that body make the pattern, however the body is written. -/
theorem isOneOrMany_of_writes {single several : Schema} (hsingle : ReadOf one single)
    (hseveral : ReadOf (listOf item) several) : isOneOrMany root single several = .ok true := by
  obtain ⟨held, hheld, href, hallOf, htypes, hitems⟩ :=
    exists_of_readOf_listOf hseveral (hitem.itemValues hbody)
  obtain ⟨first, hfirst, hrelocated⟩ := hone.exists_resolve hbody hresolve hsingle
  obtain ⟨second, hsecond, hother⟩ := hitem.exists_resolve hbody hresolve hheld
  have hlist : Schema.resolve root several = .ok several := by
    rw [Schema.resolve, resolveFrom_of_none href, unfold_of_nil hallOf]
  have hsame : Schema.same first second = true := by
    rw [← hrelocated.same_eq hother]
    exact same_self (hroot.resolve (keyed_of_readOf hkeys hbody) hresolve)
  simp only [isOneOrMany, hfirst, hlist, hsecond, htypes, hitems, hsame, bind, Except.bind, pure,
    Except.pure]

/-- The type of the pattern is the container of what is inferred for its first alternative. -/
theorem outcome_infer_of_writes {rootName : Option String} {members : Entries Json} {node : Schema}
    (hnode : ReadOf (.obj members) node) (href : members.get? "$ref" = none)
    (hpair : members.get? "anyOf" = some (.arr [one, listOf item])) :
    ∃ single, ReadOf one single ∧ (infer ⟨root, rootName⟩ node).outcome
      = (infer ⟨root, rootName⟩ single).outcome.map
        fun inferred => ⟨.oneOrMany inferred.type, true⟩ := by
  have hplain : node.reference = none := by
    refine reference_of_readOf hnode ?_
    rintro _ ⟨⟩
    exact href
  obtain ⟨location, hread⟩ := hnode
  have halternatives := forall₂_of_readSchemaList (readAt_obj_eq_ok hread).anyOf
  rw [hpair, Option.elim_some] at halternatives
  obtain ⟨single, _, hsingle, hmore, hanyOf⟩ := List.forall₂_cons_left_iff.mp halternatives
  obtain ⟨several, _, hseveral, hrest, rfl⟩ := List.forall₂_cons_left_iff.mp hmore
  obtain rfl := List.forall₂_nil_left_iff.mp hrest
  have hpattern : isOneOrMany root single several = .ok true :=
    isOneOrMany_of_writes hroot hkeys hbody hresolve hone hitem hsingle hseveral
  refine ⟨single, hsingle, ?_⟩
  rw [infer_of_pair hplain hanyOf, Traced.outcome_bind, Traced.outcome_quietly, hpattern]
  simp only [Except.bind, if_true, Traced.outcome_bind, Traced.outcome_report, Traced.outcome_pure]
  cases (infer ⟨root, rootName⟩ single).outcome <;> rfl

end

/-- Let a document have a schema that resolves, and a node without a reference whose alternatives
are that schema and a list of items of it, each of the two either written out or, where the schema
has no reference of its own, named by a reference to a schema with the same body. A type is inferred
for the node just when one is inferred for its first alternative; it is the one-or-many container of
that type and has a default, and the pattern is reported. -/
theorem infer_oneOrMany (document : Document) {value body one item : Json}
    {schema resolved : Schema}
    (hvalue : value.hasDistinctKeys = true) (hread : Schema.read value = .ok document.root)
    (hkeys : body.hasDistinctKeys = true) (hbody : ReadOf body schema)
    (hresolve : Schema.resolve document.root schema = .ok resolved)
    (hone : Writes document.root body one) (hitem : Writes document.root body item)
    {members : Entries Json} {node : Schema} (hnode : ReadOf (.obj members) node)
    (href : members.get? "$ref" = none)
    (hpair : members.get? "anyOf" = some (.arr [one, listOf item])) :
    (∀ single, ReadOf one single →
      Agree (fun inferred inside => inferred = ⟨.oneOrMany inside.type, true⟩)
        (infer document node).outcome (infer document single).outcome) ∧
      ∀ inferred, (infer document node).outcome = .ok inferred →
        (infer document node).detects = true := by
  obtain ⟨single, hsingle, houtcome⟩ := outcome_infer_of_writes
    (keyed_of_readOf hvalue ⟨"#", hread⟩) hkeys hbody hresolve hone hitem hnode href hpair
  refine ⟨fun other hother => ?_, fun inferred hinferred => ?_⟩
  · have hagree := (comparison_relocated document).agree_infer (relocated_of_readOf hsingle hother)
    rw [houtcome]
    generalize (infer document single).outcome = outcome at hagree ⊢
    generalize (infer document other).outcome = another at hagree ⊢
    cases hagree with
    | ok hsame => exact .ok (by rw [hsame])
    | error => exact .error _ _
  · rw [detects_infer hinferred]
    rw [houtcome] at hinferred
    obtain ⟨inside, -, rfl⟩ := map_eq_ok.mp hinferred
    rfl

/-- The schema of a word. -/
def word : Json := .obj [("type", .str "string"), ("default", .str "")]

/-- The members of a schema for one word or many words, the one by name and the many written out. -/
def wordOrWords : Entries Json := [("anyOf", .arr [refer "#/definitions/word", listOf word])]

/-- A document that defines words and has a property for them. -/
def wordList : Json := .obj [
  ("definitions", .obj [("word", word)]),
  ("properties", .obj [("words", .obj wordOrWords)])]

theorem infer_oneOrMany_wordOrWords :
    ∃ root node, Schema.read wordList = .ok root ∧ ("words", node) ∈ root.properties ∧
      (infer ⟨root, none⟩ node).outcome = .ok ⟨.oneOrMany (.named "Word"), true⟩ ∧
      (infer ⟨root, none⟩ node).detects = true := by
  obtain ⟨root, node, target, single, hroot, hproperties, hnode, htarget, hword, hresolve, hsingle,
      hinfer⟩ : ∃ root node target single, Schema.read wordList = .ok root ∧
      root.properties = [("words", node)] ∧
      readAt "#/properties/words" (.obj wordOrWords) = .ok node ∧
      Reference.resolve root "#/definitions/word" = .ok target ∧
      readAt "#/definitions/word" word = .ok target ∧
      Schema.resolve root target = .ok target ∧
      readAt "#/properties/words/anyOf/0" (refer "#/definitions/word") = .ok single ∧
      (infer ⟨root, none⟩ single).outcome = .ok ⟨.named "Word", false⟩ :=
    ⟨_, _, _, _, by cbv, by cbv, by cbv, by cbv, by cbv, by cbv, by cbv, by cbv⟩
  have hplain : Unreferring word := by
    rintro _ ⟨⟩
    rfl
  obtain ⟨hagree, hdetects⟩ := infer_oneOrMany ⟨root, none⟩ (by decide) hroot (by decide)
    ⟨_, hword⟩ hresolve (.reference hplain htarget ⟨_, hword⟩) .itself ⟨_, hnode⟩ rfl rfl
  obtain ⟨inferred, hinferred, rfl⟩ := (hagree single ⟨_, hsingle⟩).flip.exists_ok hinfer
  exact ⟨root, node, hroot, by simp [hproperties], hinferred, hdetects _ hinferred⟩

end Document

end SchemaForge
