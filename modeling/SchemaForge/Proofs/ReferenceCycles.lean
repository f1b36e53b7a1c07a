import Mathlib.Data.Finset.Card
import Mathlib.Data.List.Chain
import SchemaForge.Proofs.Inference
import SchemaForge.Proofs.Leaves

/-! # Cycles of references

Resolution goes from reference to reference, and it ends however they lead to each other. It
succeeds just when every reference it meets resolves and none leads back to itself; otherwise it
stops at the first reference, in order, that does not resolve or that its path has met before.
-/

namespace SchemaForge.Schema

/-! ## Resolution ends -/

/-- Behind a path of references, a schema opens as the body whose components come next: as itself,
or as what its reference resolves to, and then the path goes on with the reference. -/
inductive Opens (root : Schema) (path : List String) (schema : Schema) :
    List String → Schema → Prop
  | inline (href : schema.reference = none) : Opens root path schema path schema
  | follow {reference : String} {body : Schema} (href : schema.reference = some reference)
      (hnew : reference ∉ path) (hbody : Reference.resolve root reference = .ok body) :
      Opens root path schema (path ++ [reference]) body

/-- The schema that stands at a position opens as a body with the next schema as a component. -/
def Continues (root : Schema) (position next : List String × Schema) : Prop :=
  ∃ body, Opens root position.1 position.2 next.1 body ∧ next.2 ∈ body.allOf

/-- The references that a path may still be extended by. -/
def unusedReferences (root : Schema) (position : List String × Schema) : Finset String :=
  (root.references ++ position.2.references).toFinset \ position.1.toFinset

theorem references_subset_of_mem_allOf {schema component : Schema}
    (h : component ∈ schema.allOf) : component.references ⊆ schema.references := by
  intro reference hreference
  have hlist := mem_referencesOfList.mpr ⟨component, h, hreference⟩
  exact mem_references.mpr (by simp [hlist])

/-- A component that is written inline is smaller, and it brings no new reference. -/
theorem unusedReferences_inline {root schema component : Schema} (path : List String)
    (h : component ∈ schema.allOf) :
    unusedReferences root (path, component) ⊆ unusedReferences root (path, schema) := by
  intro reference hreference
  have hsubset := references_subset_of_mem_allOf h
  simp only [unusedReferences, Finset.mem_sdiff, List.mem_toFinset, List.mem_append] at hreference ⊢
  exact ⟨hreference.1.imp_right (@hsubset reference), hreference.2⟩

/-- A reference that was followed is not left for the components behind it, which are all written
in the document. -/
theorem unusedReferences_follow {root schema body component : Schema} {path : List String}
    {reference : String} (href : schema.reference = some reference) (hnew : reference ∉ path)
    (hbody : Reference.resolve root reference = .ok body) (hmem : component ∈ body.allOf) :
    unusedReferences root (path ++ [reference], component)
      ⊂ unusedReferences root (path, schema) := by
  have hdocument : component.references ⊆ root.references :=
    List.Subset.trans (references_subset_of_mem_allOf hmem) (references_subset_of_resolve hbody)
  have hown : reference ∈ schema.references := mem_references.mpr (Or.inl href)
  rw [Finset.ssubset_iff_of_subset]
  · refine ⟨reference, ?_, ?_⟩
    · simp [unusedReferences, hown, hnew]
    · simp [unusedReferences]
  · intro other hother
    simp only [unusedReferences, Finset.mem_sdiff, List.mem_toFinset, List.mem_append,
      List.mem_singleton, not_or] at hother ⊢
    obtain ⟨hwritten, hpath, -⟩ := hother
    exact ⟨Or.inl (hwritten.elim id (@hdocument other)), hpath⟩

/-- No position continues without end: either a reference fewer is left, or the schema is smaller
and no more are left. -/
theorem wellFounded_continues (root : Schema) :
    WellFounded fun next position => Continues root position next := by
  have hlexicographic : WellFounded (Prod.Lex (· < ·) (· < · : Nat → Nat → Prop)) :=
    (Prod.lex Nat.lt_wfRel Nat.lt_wfRel).wf
  refine Subrelation.wf ?_ (InvImage.wf (fun position : List String × Schema =>
    ((unusedReferences root position).card, sizeOf position.2)) hlexicographic)
  rintro ⟨deeper, component⟩ ⟨path, schema⟩ ⟨body, hopens, hmem⟩
  simp only at hopens hmem
  cases hopens with
  | inline href =>
    exact Prod.Lex.right' _ (Finset.card_le_card (unusedReferences_inline _ hmem))
      (Holds.component hmem).sizeOf_lt
  | follow href hnew hbody =>
    exact Prod.Lex.left _ _
      (Finset.card_lt_card (unusedReferences_follow href hnew hbody hmem))

/-! ## Where resolution stops -/

/-- Behind a path, a schema stops resolution with an error: it refers to a reference on the path or
to one that does not resolve, or a component of its body stops it while all components in front of
that one have leaves. -/
inductive Stops (root : Schema) : List String → Schema → Error → Prop
  | cyclic {path : List String} {schema : Schema} {reference : String}
      (href : schema.reference = some reference) (hused : reference ∈ path) :
      Stops root path schema (.cyclicReference (path ++ [reference]))
  | unresolved {path : List String} {schema : Schema} {reference : String} {error : Error}
      (href : schema.reference = some reference) (hnew : reference ∉ path)
      (herror : Reference.resolve root reference = .error error) : Stops root path schema error
  | component {path deeper : List String} {schema body component : Schema}
      {before after : List Schema} {error : Error} (hopens : Opens root path schema deeper body)
      (hparts : body.allOf = before ++ component :: after)
      (hbefore : ∀ earlier ∈ before, ∃ leaves, Leaves root earlier leaves)
      (h : Stops root deeper component error) : Stops root path schema error

/-- The references that count as unused behind a path are not on it, and of those that the schema
reaches they are all that are not. -/
structure Tracked (root : Schema) (unused path : List String) (schema : Schema) : Prop where
  mem_path : ∀ reference, Reaches root schema reference → reference ∉ unused → reference ∈ path
  not_mem_path : ∀ reference ∈ unused, reference ∉ path

theorem Tracked.component {root schema component : Schema} {unused path : List String}
    (h : Tracked root unused path schema) (href : schema.reference = none)
    (hmem : component ∈ schema.allOf) : Tracked root unused path component where
  mem_path reference hreaches := h.mem_path reference (hreaches.of_component href hmem)
  not_mem_path := h.not_mem_path

/-- A reference moves from the unused ones to the path when it is followed. -/
theorem Tracked.follow {root schema body component : Schema} {unused path : List String}
    {reference : String} (h : Tracked root unused path schema)
    (href : schema.reference = some reference)
    (hbody : Reference.resolve root reference = .ok body) (hmem : component ∈ body.allOf) :
    Tracked root (unused.filter (· ≠ reference)) (path ++ [reference]) component where
  mem_path other hreaches hused := by
    have hpath := transGen_leadsTo_of_reaches hbody hmem hreaches
    have hreached : Reaches root schema other :=
      ⟨reference, .reference href, hpath.to_reflTransGen⟩
    simp only [List.mem_filter, decide_eq_true_eq, not_and, not_not] at hused
    rw [List.mem_append, List.mem_singleton]
    by_cases hunused : other ∈ unused
    · exact Or.inr (hused hunused)
    · exact Or.inl (h.mem_path other hreached hunused)
  not_mem_path other hother := by
    simp only [List.mem_filter, decide_eq_true_eq] at hother
    simp [h.not_mem_path other hother.1, hother.2]

/-- One of the components stops resolution behind the path, and all in front of it have leaves. -/
def StopsAmong (root : Schema) (path : List String) (components : List Schema) (error : Error) :
    Prop :=
  ∃ before component after, components = before ++ component :: after ∧
    (∀ earlier ∈ before, ∃ leaves, Leaves root earlier leaves) ∧ Stops root path component error

theorem StopsAmong.head {root component : Schema} {path : List String} {error : Error}
    (h : Stops root path component error) (rest : List Schema) :
    StopsAmong root path (component :: rest) error :=
  ⟨[], component, rest, rfl, by simp, h⟩

theorem StopsAmong.tail {root component : Schema} {path : List String} {components : List Schema}
    {error : Error} (hfirst : ∃ leaves, Leaves root component leaves)
    (h : StopsAmong root path components error) :
    StopsAmong root path (component :: components) error := by
  obtain ⟨before, stopping, after, rfl, hbefore, hstops⟩ := h
  refine ⟨component :: before, stopping, after, rfl, ?_, hstops⟩
  exact List.forall_mem_cons.mpr ⟨hfirst, hbefore⟩

/-- A run that yields an error stops at its first component to yield one: the run for a schema, for
the components of a body, and for components that are merged into a schema. -/
theorem stops_of_run (root : Schema) :
    (∀ unused path schema, Tracked root unused path schema → ∀ {error},
      resolveFrom root unused path schema = .error error → Stops root path schema error) ∧
    (∀ unused path body, (∀ component ∈ body.allOf, Tracked root unused path component) →
      ∀ {error}, unfold root unused path body = .error error →
        StopsAmong root path body.allOf error) ∧
    (∀ unused path merged components,
      (∀ component ∈ components, Tracked root unused path component) → ∀ {error},
        mergeResolved root unused path merged components = .error error →
          StopsAmong root path components error) := by
  apply resolveFrom.mutual_induct
  case case1 =>
    intro unused path schema href ih htracked error h
    rw [resolveFrom_of_none href] at h
    obtain ⟨before, component, after, hparts, hbefore, hstops⟩ :=
      ih (fun component hmem => htracked.component href hmem) h
    exact .component (.inline href) hparts hbefore hstops
  case case2 =>
    intro unused path schema reference href hunused ih htracked error h
    have hnew := htracked.not_mem_path reference hunused
    rw [resolveFrom_of_some href, if_pos hunused] at h
    cases hbody : Reference.resolve root reference with
    | error unresolved =>
      rw [hbody] at h
      cases h
      exact .unresolved href hnew hbody
    | ok body =>
      rw [hbody] at h
      obtain ⟨before, component, after, hparts, hbefore, hstops⟩ :=
        ih body (fun component hmem => htracked.follow href hbody hmem) h
      exact .component (.follow href hnew hbody) hparts hbefore hstops
  case case3 =>
    intro unused path schema reference href hused htracked error h
    rw [resolveFrom_of_some href, if_neg hused] at h
    cases h
    exact .cyclic href
      (htracked.mem_path reference ⟨reference, .reference href, .refl⟩ hused)
  case case4 =>
    intro unused path body hall _ error h
    rw [unfold_of_nil hall] at h
    cases h
  case case5 =>
    intro unused path body first rest hall ihfirst ihrest htracked error h
    rw [hall] at htracked ⊢
    rw [unfold_of_cons hall] at h
    cases hseed : resolveFrom root unused path first with
    | error stopped =>
      rw [hseed] at h
      cases h
      exact .head (ihfirst (htracked first List.mem_cons_self) hseed) rest
    | ok seed =>
      rw [hseed] at h
      obtain ⟨leaves, hleaves, -⟩ := (exists_leaves_of_run root).1 _ _ _ hseed
      refine .tail ⟨leaves, hleaves⟩ (ihrest seed (fun component hmem => ?_) h)
      exact htracked component (List.mem_cons_of_mem _ hmem)
  case case6 =>
    intro unused path merged _ error h
    rw [mergeResolved] at h
    cases h
  case case7 =>
    intro unused path merged component rest ihfirst ihrest htracked error h
    rw [mergeResolved] at h
    cases hresolved : resolveFrom root unused path component with
    | error stopped =>
      rw [hresolved] at h
      cases h
      exact .head (ihfirst (htracked component List.mem_cons_self) hresolved) rest
    | ok resolved =>
      rw [hresolved] at h
      obtain ⟨leaves, hleaves, -⟩ := (exists_leaves_of_run root).1 _ _ _ hresolved
      refine .tail ⟨leaves, hleaves⟩ (ihrest resolved (fun other hmem => ?_) h)
      exact htracked other (List.mem_cons_of_mem _ hmem)

theorem stops_of_resolve {root schema : Schema} {error : Error}
    (h : resolve root schema = .error error) : Stops root [] schema error := by
  refine (stops_of_run root).1 _ _ _ ⟨?_, ?_⟩ h
  · intro reference hreaches hused
    exact absurd hreaches.mem_references hused
  · exact fun _ _ => List.not_mem_nil

/-! ## The references on the way to an error -/

/-- References of which the schema meets the first and each one leads to the next. -/
def Trail (root schema : Schema) (references : List String) : Prop :=
  references.IsChain (LeadsTo root) ∧ ∀ first ∈ references.head?, schema.Meets first

theorem Trail.snoc {root schema : Schema} {path : List String} {reference next : String}
    (h : Trail root schema (path ++ [reference])) (hnext : LeadsTo root reference next) :
    Trail root schema (path ++ [reference] ++ [next]) := by
  refine ⟨h.1.append (List.isChain_singleton _) ?_, ?_⟩
  · intro last hlast other hother
    rw [List.getLast?_concat, Option.mem_some_iff] at hlast
    rw [List.head?_cons, Option.mem_some_iff] at hother
    rwa [← hlast, ← hother]
  · intro first hfirst
    rw [List.head?_append_of_ne_nil _ (by simp)] at hfirst
    exact h.2 first hfirst

/-- Everything on a trail is reached. -/
theorem Trail.reaches {root schema : Schema} {before after : List String} {reference : String}
    (h : Trail root schema (before ++ reference :: after)) : Reaches root schema reference := by
  obtain ⟨hchain, hfirst⟩ := h
  cases before with
  | nil => exact ⟨reference, hfirst reference rfl, .refl⟩
  | cons first rest =>
    refine ⟨first, hfirst first rfl, ?_⟩
    rw [List.isChain_split] at hchain
    exact List.relationReflTransGen_of_exists_isChain_cons (rest ++ [reference]) hchain.1
      (by simp)

/-- Wherever a schema is met behind a path on a trail, what stops it is a reference further on that
trail: one that it has met before, or one that does not resolve. -/
theorem Stops.exists_trail {root node schema : Schema} {path : List String} {error : Error}
    (h : Stops root path schema error) (hnodup : path.Nodup)
    (htrail : ∀ reference, schema.Meets reference → Trail root node (path ++ [reference])) :
    ∃ passed last, Trail root node (passed ++ [last]) ∧ passed.Nodup ∧
      (last ∈ passed ∧ error = .cyclicReference (passed ++ [last])
        ∨ last ∉ passed ∧ Reference.resolve root last = .error error) := by
  induction h with
  | @cyclic path schema reference href hused =>
    exact ⟨path, reference, htrail reference (.reference href), hnodup, Or.inl ⟨hused, rfl⟩⟩
  | @unresolved path schema reference error href hnew herror =>
    exact ⟨path, reference, htrail reference (.reference href), hnodup, Or.inr ⟨hnew, herror⟩⟩
  | component hopens hparts _ _ ih =>
    have hmem := hparts ▸ List.mem_append_right _ List.mem_cons_self
    cases hopens with
    | inline href =>
      exact ih hnodup fun reference hmeets => htrail reference (.component href hmem hmeets)
    | @follow reference _ href hnew hbody =>
      have hlonger : (_ ++ [reference]).Nodup := List.concat_eq_append ▸ hnodup.concat hnew
      refine ih hlonger fun next hmeets => ?_
      exact (htrail reference (.reference href)).snoc ⟨_, hbody, _, hmem, hmeets⟩

/-- A reference that a trail comes back to leads back to itself. -/
theorem Trail.transGen_leadsTo {root schema : Schema} {passed : List String} {last : String}
    (h : Trail root schema (passed ++ [last])) (hmem : last ∈ passed) :
    Relation.TransGen (LeadsTo root) last last := by
  obtain ⟨before, after, rfl⟩ := List.append_of_mem hmem
  have hchain := h.1
  rw [List.append_assoc, List.cons_append, List.isChain_split] at hchain
  cases after with
  | nil => exact .single hchain.2.rel
  | cons next rest =>
    rw [List.cons_append, List.isChain_cons_cons] at hchain
    exact .head' hchain.2.1
      (List.relationReflTransGen_of_exists_isChain_cons (rest ++ [last]) hchain.2.2 (by simp))

/-! ## When resolution succeeds -/

/-- A reference that is met in a finite unfolding resolves, and its components unfold as well. -/
theorem Leaves.exists_body_of_meets {root schema : Schema} {leaves : List Schema}
    (h : Leaves root schema leaves) {reference : String} (hmeets : schema.Meets reference) :
    ∃ body, Reference.resolve root reference = .ok body ∧
      ∀ component ∈ body.allOf, ∃ leaves, Leaves root component leaves := by
  induction hmeets generalizing leaves with
  | reference href =>
    cases h with
    | leaf hbody hplain =>
      rw [standsFor_of_some href] at hbody
      exact ⟨_, hbody, by simp [hplain]⟩
    | components hbody _ hparts =>
      rw [standsFor_of_some href] at hbody
      refine ⟨_, hbody, fun component hmem => ?_⟩
      obtain ⟨part, -, hpart⟩ := exists_mem_right_of_forall₂ hparts hmem
      exact ⟨part, hpart⟩
  | component href hmem _ ih =>
    cases h with
    | leaf hbody hplain =>
      rw [standsFor_of_none href] at hbody
      rw [Except.ok.inj hbody, hplain] at hmem
      exact absurd hmem List.not_mem_nil
    | components hbody _ hparts =>
      rw [standsFor_of_none href] at hbody
      rw [Except.ok.inj hbody] at hmem
      obtain ⟨part, -, hpart⟩ := exists_mem_right_of_forall₂ hparts hmem
      exact ih hpart

/-- Every reference that a finite unfolding reaches resolves, and none leads back to itself. -/
theorem Leaves.of_reaches {root schema : Schema} {leaves : List Schema}
    (h : Leaves root schema leaves) {reference : String} (hreaches : Reaches root schema reference) :
    (∃ body, Reference.resolve root reference = .ok body) ∧
      ¬ Relation.TransGen (LeadsTo root) reference reference := by
  obtain ⟨first, hmeets, hpath⟩ := hreaches
  have hended : (∃ body, Reference.resolve root reference = .ok body ∧
        ∀ component ∈ body.allOf, ∃ leaves, Leaves root component leaves) ∧
      Acc (fun next reference => LeadsTo root reference next) reference := by
    induction hpath with
    | refl => exact ⟨h.exists_body_of_meets hmeets, h.acc_leadsTo hmeets⟩
    | tail _ hnext ih =>
      obtain ⟨⟨body, hbody, hcomponents⟩, hacc⟩ := ih
      refine ⟨?_, hacc.inv hnext⟩
      obtain ⟨other, hother, component, hmem, hmeets⟩ := hnext
      obtain rfl := Except.ok.inj (hbody.symm.trans hother)
      obtain ⟨leaves, hleaves⟩ := hcomponents component hmem
      exact hleaves.exists_body_of_meets hmeets
  obtain ⟨⟨body, hbody, -⟩, hacc⟩ := hended
  exact ⟨⟨body, hbody⟩, not_transGen_leadsTo_self hacc⟩

/-- A reference fails to resolve in one way only. -/
theorem exists_segment_of_resolve_eq_error {root : Schema} {reference : String} {error : Error}
    (h : Reference.resolve root reference = .error error) :
    ∃ segment, error = .unresolvedReference reference segment := by
  unfold Reference.resolve at h
  cases hwalk : Reference.walk root root (Reference.segments reference) with
  | error segment =>
    rw [hwalk] at h
    cases h
    exact ⟨segment, rfl⟩
  | ok target =>
    rw [hwalk] at h
    cases h

/-- An error of resolution is told by the reference that stops it, at the end of a trail of
references that are all different. -/
theorem exists_trail_of_resolve_eq_error {root schema : Schema} {error : Error}
    (h : resolve root schema = .error error) :
    ∃ passed last, Trail root schema (passed ++ [last]) ∧ passed.Nodup ∧
      (last ∈ passed ∧ error = .cyclicReference (passed ++ [last])
        ∨ last ∉ passed ∧ Reference.resolve root last = .error error ∧
          ∃ segment, error = .unresolvedReference last segment) := by
  obtain ⟨passed, last, htrail, hnodup, hlast⟩ :=
    (stops_of_resolve h).exists_trail List.nodup_nil fun reference hmeets =>
      ⟨List.isChain_singleton _, by simpa using hmeets⟩
  refine ⟨passed, last, htrail, hnodup, hlast.imp_right fun hunresolved => ?_⟩
  exact ⟨hunresolved.1, hunresolved.2, exists_segment_of_resolve_eq_error hunresolved.2⟩

/-- Resolution ends: no position continues without end. It succeeds just when every reference that
the schema reaches resolves and none leads back to itself. Its errors are those of the first
reference to stop it: one that does not resolve, or one that the trail to it has met before. -/
theorem resolve_ends_exactly (root schema : Schema) :
    (WellFounded fun next position => Continues root position next) ∧
      ((∃ result, resolve root schema = .ok result)
        ↔ ∀ reference, Reaches root schema reference →
          (∃ body, Reference.resolve root reference = .ok body) ∧
            ¬ Relation.TransGen (LeadsTo root) reference reference) ∧
      ∀ error, resolve root schema = .error error →
        Stops root [] schema error ∧
          ∃ passed last, Trail root schema (passed ++ [last]) ∧ passed.Nodup ∧
            (last ∈ passed ∧ error = .cyclicReference (passed ++ [last])
              ∨ last ∉ passed ∧ Reference.resolve root last = .error error ∧
                ∃ segment, error = .unresolvedReference last segment) := by
  refine ⟨wellFounded_continues root, ⟨?_, ?_⟩, fun error herror =>
    ⟨stops_of_resolve herror, exists_trail_of_resolve_eq_error herror⟩⟩
  · rintro ⟨result, hresult⟩ reference hreaches
    obtain ⟨leaves, hleaves, -⟩ := resolve_eq_ok_iff.mp hresult
    exact hleaves.of_reaches hreaches
  · intro hreached
    cases hresolve : resolve root schema with
    | ok result => exact ⟨result, rfl⟩
    | error error =>
      obtain ⟨passed, last, htrail, -, hlast⟩ := exists_trail_of_resolve_eq_error hresolve
      obtain ⟨⟨body, hbody⟩, hacyclic⟩ := hreached last htrail.reaches
      rcases hlast with ⟨hmem, -⟩ | ⟨-, hunresolved, -⟩
      · exact absurd (htrail.transGen_leadsTo hmem) hacyclic
      · rw [hbody] at hunresolved
        cases hunresolved

/-- Two definitions that are composed of each other are told with the way around. -/
example : resolve
    { definitions := [
        ("egg", { allOf := [{ reference := some "#/definitions/hen" }] }),
        ("hen", { allOf := [{}, { allOf := [{ reference := some "#/definitions/egg" }] }] })] }
    { reference := some "#/definitions/egg" }
      = .error (.cyclicReference
        ["#/definitions/egg", "#/definitions/hen", "#/definitions/egg"]) := by
  cbv

end SchemaForge.Schema
