import Mathlib.Order.WellFounded
import SchemaForge.Proofs.Basic
import SchemaForge.Proofs.MergeAlgebra
import SchemaForge.Proofs.ReferencePaths

/-! # Leaves of a composition

A schema stands for the leaves of its composition: references are replaced by what they lead to and
nested compositions are opened until only schemas without components are left. Resolution is the
plain fold of merges over these leaves, and it succeeds just when there are finitely many of them,
so neither grouping nor references can be told from its result.
-/

namespace SchemaForge.Schema

/-- What a schema stands for: itself, or what its reference leads to. -/
def standsFor (root schema : Schema) : Except Error Schema :=
  match schema.reference with
  | none => .ok schema
  | some reference => Reference.resolve root reference

/-- The schema unfolds into the leaves, in order. -/
inductive Leaves (root : Schema) : Schema → List Schema → Prop
  | leaf {schema body : Schema} (hbody : standsFor root schema = .ok body)
      (hplain : body.allOf = []) : Leaves root schema [body]
  | components {schema body : Schema} {parts : List (List Schema)}
      (hbody : standsFor root schema = .ok body) (hsome : body.allOf ≠ [])
      (hparts : List.Forall₂ (Leaves root) body.allOf parts) : Leaves root schema parts.flatten

/-- The fold of merges over schemas, from the first one on. -/
def mergeAll : List Schema → Option Schema
  | [] => none
  | first :: rest => some (rest.foldl merge first)

/-- Induction over an unfolding, with the hypothesis for every component. -/
theorem Leaves.recOn_parts {root : Schema}
    {motive : ∀ schema leaves, Leaves root schema leaves → Prop}
    (leaf : ∀ {schema body} (hbody : standsFor root schema = .ok body) (hplain : body.allOf = []),
      motive schema [body] (.leaf hbody hplain))
    (components : ∀ {schema body parts} (hbody : standsFor root schema = .ok body)
      (hsome : body.allOf ≠ []) (hparts : List.Forall₂ (Leaves root) body.allOf parts),
      List.Forall₂ (fun component leaves => ∃ h, motive component leaves h) body.allOf parts →
        motive schema parts.flatten (.components hbody hsome hparts))
    {schema : Schema} {leaves : List Schema} (h : Leaves root schema leaves) :
    motive schema leaves h :=
  Leaves.rec (motive_1 := motive)
    (motive_2 := fun schemas parts _ =>
      List.Forall₂ (fun component leaves => ∃ h, motive component leaves h) schemas parts)
    (fun hbody hplain => leaf hbody hplain)
    (fun hbody hsome hparts ih => components hbody hsome hparts ih)
    List.Forall₂.nil
    (fun hfirst _ ihfirst ihrest => List.Forall₂.cons ⟨hfirst, ihfirst⟩ ihrest)
    h

/-! ## Resolution step by step -/

section

variable {root schema : Schema} {unused path : List String}

theorem standsFor_of_none (href : schema.reference = none) :
    standsFor root schema = .ok schema := by
  rw [standsFor, href]

theorem standsFor_of_some {reference : String} (href : schema.reference = some reference) :
    standsFor root schema = Reference.resolve root reference := by
  rw [standsFor, href]

theorem resolveFrom_of_none (href : schema.reference = none) :
    resolveFrom root unused path schema = unfold root unused path schema := by
  rw [resolveFrom]
  split
  · rfl
  · rename_i hsome
    rw [href] at hsome
    cases hsome

theorem resolveFrom_of_some {reference : String} (href : schema.reference = some reference) :
    resolveFrom root unused path schema
      = if reference ∈ unused then
          Reference.resolve root reference
            >>= unfold root (unused.filter (· ≠ reference)) (path ++ [reference])
        else .error (.cyclicReference (path ++ [reference])) := by
  rw [resolveFrom]
  split
  · rename_i hnone
    rw [href] at hnone
    cases hnone
  · rename_i other hsome
    rw [href, Option.some.injEq] at hsome
    subst hsome
    rfl

theorem unfold_of_nil (hall : schema.allOf = []) :
    unfold root unused path schema = .ok schema := by
  rw [unfold]
  split
  · rfl
  · rename_i hcons
    rw [hall] at hcons
    cases hcons

theorem unfold_of_cons {first : Schema} {rest : List Schema} (hall : schema.allOf = first :: rest) :
    unfold root unused path schema
      = resolveFrom root unused path first
        >>= fun seed => mergeResolved root unused path seed rest := by
  rw [unfold]
  split
  · rename_i hnil
    rw [hall] at hnil
    cases hnil
  · rename_i other more hcons
    rw [hall, List.cons.injEq] at hcons
    obtain ⟨rfl, rfl⟩ := hcons
    rfl

end

/-! ## Resolution folds the leaves -/

/-- What resolution yields is the fold over the leaves: from a schema, from the body of one, and
from components that are merged into a schema one after another. -/
theorem exists_leaves_of_run (root : Schema) :
    (∀ unused path schema, ∀ {result}, resolveFrom root unused path schema = .ok result →
      ∃ leaves, Leaves root schema leaves ∧ mergeAll leaves = some result) ∧
    (∀ unused path body, ∀ {result}, unfold root unused path body = .ok result →
      ∀ {schema}, standsFor root schema = .ok body →
        ∃ leaves, Leaves root schema leaves ∧ mergeAll leaves = some result) ∧
    (∀ unused path merged components, ∀ {result},
      mergeResolved root unused path merged components = .ok result →
        ∃ parts, List.Forall₂ (Leaves root) components parts
          ∧ result = parts.flatten.foldl merge merged) := by
  apply resolveFrom.mutual_induct
  case case1 =>
    intro unused path schema href ih result h
    rw [resolveFrom_of_none href] at h
    exact ih h (standsFor_of_none href)
  case case2 =>
    intro unused path schema reference href hunused ih result h
    -- the leaves of what the reference leads to are those of the schema itself
    rw [resolveFrom_of_some href, if_pos hunused, bind_eq_ok] at h
    obtain ⟨body, hbody, h⟩ := h
    exact ih body h ((standsFor_of_some href).trans hbody)
  case case3 =>
    intro unused path schema reference href hused result h
    rw [resolveFrom_of_some href, if_neg hused] at h
    cases h
  case case4 =>
    intro unused path body hall result h schema hbody
    rw [unfold_of_nil hall] at h
    cases h
    exact ⟨[body], .leaf hbody hall, rfl⟩
  case case5 =>
    intro unused path body first rest hall ihfirst ihrest result h schema hbody
    rw [unfold_of_cons hall, bind_eq_ok] at h
    obtain ⟨seed, hseed, h⟩ := h
    obtain ⟨leaves, hleaves, hmerge⟩ := ihfirst hseed
    obtain ⟨parts, hparts, rfl⟩ := ihrest seed h
    refine ⟨(leaves :: parts).flatten, .components hbody (by simp [hall]) ?_, ?_⟩
    · rw [hall]
      exact List.Forall₂.cons hleaves hparts
    · cases leaves with
      | nil => cases hmerge
      | cons leaf more =>
        cases hmerge
        rw [List.flatten_cons, List.cons_append, mergeAll, List.foldl_append]
  case case6 =>
    intro unused path merged result h
    rw [mergeResolved] at h
    cases h
    exact ⟨[], List.Forall₂.nil, rfl⟩
  case case7 =>
    intro unused path merged component rest ihfirst ihrest result h
    rw [mergeResolved, bind_eq_ok] at h
    obtain ⟨resolved, hresolved, h⟩ := h
    obtain ⟨leaves, hleaves, hmerge⟩ := ihfirst hresolved
    obtain ⟨parts, hparts, rfl⟩ := ihrest resolved h
    refine ⟨leaves :: parts, List.Forall₂.cons hleaves hparts, ?_⟩
    rw [List.flatten_cons, List.foldl_append]
    congr 1
    cases leaves with
    | nil => cases hmerge
    | cons leaf more =>
      -- merging a merged component is merging its leaves in turn
      cases hmerge
      exact merge_foldl_merge merged leaf more

/-! ## Unfolding is a function -/

/-- A schema has one list of leaves. -/
theorem Leaves.unique {root schema : Schema} {first second : List Schema}
    (hfirst : Leaves root schema first) (hsecond : Leaves root schema second) :
    first = second := by
  induction hfirst using Leaves.recOn_parts generalizing second with
  | leaf hbody hplain =>
    -- both unfoldings have the same body, and its components tell the rule that applies
    cases hsecond with
    | leaf hother =>
      have hsame := Except.ok.inj (hbody.symm.trans hother)
      rw [hsame]
    | components hother hsome =>
      have hsame := Except.ok.inj (hbody.symm.trans hother)
      rw [← hsame] at hsome
      exact absurd hplain hsome
  | @components schema body parts hbody hsome _ ih =>
    have hparts : List.Forall₂ (fun component leaves => ∀ other, Leaves root component other →
        leaves = other) body.allOf parts :=
      ih.imp fun _ _ ⟨_, hpart⟩ _ hleaves => hpart hleaves
    cases hsecond with
    | leaf hother hplain =>
      have hsame := Except.ok.inj (hbody.symm.trans hother)
      rw [← hsame] at hplain
      exact absurd hplain hsome
    | components hother _ hothers =>
      have hsame := Except.ok.inj (hbody.symm.trans hother)
      rw [← hsame] at hothers
      rw [eq_of_forall₂ hparts hothers]

/-- Schemas that stand for the same schema have the same leaves. -/
theorem Leaves.of_standsFor {root schema other body : Schema} {leaves : List Schema}
    (h : Leaves root schema leaves) (hbody : standsFor root schema = .ok body)
    (hother : standsFor root other = .ok body) : Leaves root other leaves := by
  cases h with
  | leaf hown hplain =>
    cases hbody.symm.trans hown
    exact .leaf hother hplain
  | components hown hsome hparts =>
    cases hbody.symm.trans hown
    exact .components hother hsome hparts

/-! ## Finite unfoldings resolve -/

/-- In a finite unfolding, following references from any one that is met inline comes to an end. -/
theorem Leaves.acc_leadsTo {root schema : Schema} {leaves : List Schema}
    (h : Leaves root schema leaves) {reference : String} (hmeets : schema.Meets reference) :
    Acc (fun next reference => LeadsTo root reference next) reference := by
  induction h using Leaves.recOn_parts generalizing reference with
  | leaf hbody hplain =>
    cases hmeets with
    | reference href =>
      -- a leaf has no component in which another reference could be met
      rw [standsFor_of_some href] at hbody
      apply Acc.intro
      rintro next ⟨body, hother, component, hmem, -⟩
      have hsame := Except.ok.inj (hbody.symm.trans hother)
      rw [← hsame, hplain] at hmem
      exact absurd hmem List.not_mem_nil
    | component href hmem =>
      rw [standsFor_of_none href] at hbody
      rw [Except.ok.inj hbody, hplain] at hmem
      exact absurd hmem List.not_mem_nil
  | @components schema body parts hbody hsome _ ih =>
    have hcomponents : ∀ (component : Schema), component ∈ body.allOf → ∀ {next : String},
        component.Meets next → Acc (fun next reference => LeadsTo root reference next) next := by
      intro component hmem next hnext
      obtain ⟨leaves, -, -, hpart⟩ := exists_mem_right_of_forall₂ ih hmem
      exact hpart hnext
    cases hmeets with
    | reference href =>
      rw [standsFor_of_some href] at hbody
      apply Acc.intro
      rintro next ⟨other, hother, component, hmem, hnext⟩
      have hsame := Except.ok.inj (hbody.symm.trans hother)
      rw [← hsame] at hmem
      exact hcomponents component hmem hnext
    | component href hmem hinside =>
      rw [standsFor_of_none href] at hbody
      rw [Except.ok.inj hbody] at hmem
      exact hcomponents _ hmem hinside

/-- A reference from which every path comes to an end does not lead back to itself. -/
theorem not_transGen_leadsTo_self {root : Schema} {reference : String}
    (h : Acc (fun next reference => LeadsTo root reference next) reference) :
    ¬ Relation.TransGen (LeadsTo root) reference reference := by
  induction h with
  | intro reference _ ih =>
    intro hcycle
    obtain ⟨next, hnext, hback⟩ := Relation.TransGen.head'_iff.mp hcycle
    exact ih next hnext (Relation.TransGen.tail' hback hnext)

theorem exists_mergeResolved {root : Schema} {unused path : List String} {components : List Schema}
    (hcomponents : ∀ component ∈ components,
      ∃ resolved, resolveFrom root unused path component = .ok resolved) (merged : Schema) :
    ∃ result, mergeResolved root unused path merged components = .ok result := by
  induction components generalizing merged with
  | nil => exact ⟨merged, by rw [mergeResolved]⟩
  | cons component rest ih =>
    obtain ⟨resolved, hresolved⟩ := hcomponents component List.mem_cons_self
    obtain ⟨result, hresult⟩ :=
      ih (fun other hother => hcomponents other (List.mem_cons_of_mem _ hother))
        (merged.merge resolved)
    refine ⟨result, ?_⟩
    rw [mergeResolved, bind_eq_ok]
    exact ⟨resolved, hresolved, hresult⟩

theorem exists_unfold {root body : Schema} {unused path : List String}
    (hcomponents : ∀ component ∈ body.allOf,
      ∃ resolved, resolveFrom root unused path component = .ok resolved) :
    ∃ result, unfold root unused path body = .ok result := by
  cases hall : body.allOf with
  | nil => exact ⟨body, unfold_of_nil hall⟩
  | cons first rest =>
    rw [hall] at hcomponents
    obtain ⟨seed, hseed⟩ := hcomponents first List.mem_cons_self
    obtain ⟨result, hresult⟩ :=
      exists_mergeResolved
        (fun other hother => hcomponents other (List.mem_cons_of_mem _ hother)) seed
    refine ⟨result, ?_⟩
    rw [unfold_of_cons hall, bind_eq_ok]
    exact ⟨seed, hseed, hresult⟩

/-- A schema resolves when its body does, with whatever is unused once its own reference has been
followed. -/
theorem exists_resolveFrom_of_body {root schema body : Schema} {unused path : List String}
    (hbody : standsFor root schema = .ok body)
    (hended : ∀ {reference}, schema.Meets reference →
      Acc (fun next reference => LeadsTo root reference next) reference)
    (hunused : ∀ reference, Reaches root schema reference → reference ∈ unused)
    (hunfold : ∀ unused path, (∀ component ∈ body.allOf, ∀ reference,
        Reaches root component reference → reference ∈ unused) →
      ∃ result, unfold root unused path body = .ok result) :
    ∃ result, resolveFrom root unused path schema = .ok result := by
  cases href : schema.reference with
  | none =>
    rw [standsFor_of_none href] at hbody
    cases hbody
    rw [resolveFrom_of_none href]
    apply hunfold
    intro component hmem reference hreaches
    exact hunused reference (hreaches.of_component href hmem)
  | some reference =>
    rw [standsFor_of_some href] at hbody
    have hmeets := Meets.reference href
    have hown : reference ∈ unused := hunused reference ⟨reference, hmeets, .refl⟩
    rw [resolveFrom_of_some href, if_pos hown, hbody]
    apply hunfold
    intro component hmem next hreaches
    have hpath := transGen_leadsTo_of_reaches hbody hmem hreaches
    refine List.mem_filter.mpr ⟨hunused next ⟨reference, hmeets, hpath.to_reflTransGen⟩, ?_⟩
    -- a component that reached the reference again would close a cycle
    rw [decide_eq_true_iff]
    rintro rfl
    exact not_transGen_leadsTo_self (hended hmeets) hpath

/-- A finite unfolding resolves, given that no reference it meets has been followed. -/
theorem Leaves.exists_resolveFrom {root schema : Schema} {leaves : List Schema}
    (h : Leaves root schema leaves) {unused : List String} (path : List String)
    (hunused : ∀ reference, Reaches root schema reference → reference ∈ unused) :
    ∃ result, resolveFrom root unused path schema = .ok result := by
  induction h using Leaves.recOn_parts generalizing unused path with
  | leaf hbody hplain =>
    refine exists_resolveFrom_of_body hbody (Leaves.leaf hbody hplain).acc_leadsTo hunused ?_
    intro unused path _
    exact ⟨_, unfold_of_nil hplain⟩
  | components hbody hsome hparts ih =>
    refine exists_resolveFrom_of_body hbody
      (Leaves.components hbody hsome hparts).acc_leadsTo hunused ?_
    intro unused path hreaches
    apply exists_unfold
    intro component hmem
    obtain ⟨leaves, -, -, hpart⟩ := exists_mem_right_of_forall₂ ih hmem
    exact hpart path (hreaches component hmem)

/-- A schema resolves just when it has leaves, and then to the fold of merges over them. -/
theorem resolve_eq_ok_iff {root schema result : Schema} :
    resolve root schema = .ok result
      ↔ ∃ leaves, Leaves root schema leaves ∧ mergeAll leaves = some result := by
  constructor
  · exact (exists_leaves_of_run root).1 _ _ _
  · rintro ⟨leaves, hleaves, hmerge⟩
    obtain ⟨other, hother⟩ :=
      hleaves.exists_resolveFrom [] fun _ hreaches => hreaches.mem_references
    obtain ⟨others, hothers, hagain⟩ := (exists_leaves_of_run root).1 _ _ _ hother
    -- the run has a value, and the leaves behind it can only be the given ones
    rw [hleaves.unique hothers, hagain, Option.some.injEq] at hmerge
    rw [resolve, hother, hmerge]

/-- What a schema resolves to is the fold of merges over its leaves, and every other schema with
these leaves resolves to the same. -/
theorem mergeAll_leaves_of_resolve {root schema result : Schema}
    (h : resolve root schema = .ok result) :
    ∃ leaves, Leaves root schema leaves ∧ (∀ other, Leaves root schema other → other = leaves) ∧
      mergeAll leaves = some result ∧
      ∀ other, Leaves root other leaves → resolve root other = .ok result := by
  obtain ⟨leaves, hleaves, hmerge⟩ := resolve_eq_ok_iff.mp h
  refine ⟨leaves, hleaves, fun other hother => hother.unique hleaves, hmerge, ?_⟩
  intro other hother
  exact resolve_eq_ok_iff.mpr ⟨leaves, hother, hmerge⟩

/-- A document that composes the base of its shapes. -/
def shapes : Schema where
  definitions := [("base", { allOf := [
    { types := [.object], properties := [("id", { types := [.string] })] },
    { types := [.object], required := ["id"] }] })]

/-- A shape: the base behind a reference, and beside it a component that describes a property of
the base and has one of its own. -/
def circle : Schema where
  allOf := [
    { reference := some "#/definitions/base" },
    { types := [.object]
      properties := [
        ("id", { types := [.string], description := some "Unique." }),
        ("radius", { types := [.number] })] }]

/-- The shape with its components put together. -/
def wholeCircle : Schema where
  types := [.object]
  properties := [
    ("id", { types := [.string], description := some "Unique." }),
    ("radius", { types := [.number] })]
  required := ["id"]

theorem mergeAll_leaves_circle :
    resolve shapes circle = .ok wholeCircle ∧
      ∃ leaves, Leaves shapes circle leaves ∧
        (∀ other, Leaves shapes circle other → other = leaves) ∧
        mergeAll leaves = some wholeCircle ∧
        ∀ other, Leaves shapes other leaves → resolve shapes other = .ok wholeCircle := by
  have hresolve : resolve shapes circle = .ok wholeCircle := by cbv
  exact ⟨hresolve, mergeAll_leaves_of_resolve hresolve⟩

end SchemaForge.Schema
