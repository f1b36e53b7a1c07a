import SchemaForge.Proofs.Relocation

/-! # Only components

A definition may be made the only component of a schema around it. References to the definition then
lead to the schema around, and resolving this one gives what the definition gives, apart from
addresses. But the table of the root is not the same one any more, and it is looked at where the root
itself is compared with another schema: there the comparison must not hinge on the definitions.
-/

namespace SchemaForge

namespace Schema

/-- A schema whose table of definitions has distinct keys, and others than the root's table. -/
structure OwnTable (root schema : Schema) : Prop where
  distinct : Entries.Distinct schema.definitions
  apart : ¬ (Entries.keys schema.definitions).Perm (Entries.keys root.definitions)

/-- No schema in the root has a table of definitions under the keys of the root's table. -/
def LoneTable (root : Schema) : Prop :=
  ∀ held, root.Holds held → Throughout
    (fun schema => ¬ (Entries.keys schema.definitions).Perm (Entries.keys root.definitions)) held

/-- Two schemas that differ in addresses alone, where no table in the second one is like the root's. -/
def Below (root first second : Schema) : Prop :=
  Relocated first second ∧ Throughout (OwnTable root) second

/-- The wrapper has nothing but the body, read at another place, as its only component. -/
structure Wraps (root wrapper body : Schema) : Prop where
  reference : body.reference = none
  component : ∃ moved location, Below root moved body ∧ wrapper = { allOf := [moved], location }

/-- A definition and its partner: they differ in addresses alone, or the first one wraps the second. -/
inductive Rewritten (root first second : Schema) : Prop
  | below (h : Below root first second) : Rewritten root first second
  | wraps (h : Wraps root first second) : Rewritten root first second

/-- The roots of two documents that differ in definitions alone, each of which is the same in both or
is wrapped in the first. -/
structure Rewrapped (root other : Schema) : Prop where
  alike : Alike (Below other) root other
  description : root.description = other.description
  definitions : List.Forall₂ (fun definition paired => definition.1 = paired.1 ∧
    Rewritten other definition.2 paired.2) root.definitions other.definitions
  keyed : other.Keyed

/-- Two schemas with the tables of two roots that are the same otherwise. -/
structure Headed (root other first second : Schema) : Prop where
  alike : Alike (Below other) first second
  description : first.description = second.description
  table : first.definitions = root.definitions
  paired : second.definitions = other.definitions

/-- Two schemas that differ in addresses, and in the tables of the roots where they have these. -/
inductive Kin (root other first second : Schema) : Prop
  | below (h : Below other first second) : Kin root other first second
  | headed (h : Headed root other first second) : Kin root other first second

/-- Two schemas that a reference may lead to. -/
inductive Targets (root other first second : Schema) : Prop
  | kin (h : Kin root other first second) : Targets root other first second
  | wraps (h : Wraps other first second) : Targets root other first second

section

variable {root first second : Schema}

/-- A merge keeps the table of the first schema. -/
theorem OwnTable.merge {target : Schema} (h : OwnTable root target) (source : Schema) :
    OwnTable root (target.merge source) := by
  rw [merge_eq]
  exact ⟨h.distinct, h.apart⟩

/-- The schemas in a root with distinct keys have their own tables when the root's is a lone one. -/
theorem LoneTable.throughout (h : root.LoneTable) (hkeyed : root.Keyed) {held : Schema}
    (hheld : root.Holds held) : Throughout (OwnTable root) held :=
  (hkeyed.held hheld).both (fun _ hown hapart => ⟨hown.definitions, hapart⟩) (h held hheld)

theorem Below.refl {schema : Schema} (h : Throughout (OwnTable root) schema) :
    Below root schema schema :=
  ⟨.refl schema, h⟩

theorem Below.alike (h : Below root first second) : Alike (Below root) first second := by
  have hback : Alike (flip (Below root)) second first :=
    h.1.alike.flip.imp fun _ hheld _ hrelocated => ⟨hrelocated, h.2.held hheld⟩
  exact hback.flip

theorem Below.definitions (h : Below root first second) :
    List.Forall₂ (fun definition paired => definition.1 = paired.1 ∧
      Below root definition.2 paired.2) first.definitions second.definitions :=
  forall₂_of_zip h.1.fullyAlike.definitions fun _ _ hmem hpaired =>
    ⟨hpaired.1, hpaired.2, h.2.held (.definition (List.of_mem_zip hmem).2)⟩

theorem Below.merge_of_alike (h : Below root first second) {source paired : Schema}
    (hsource : Alike (Below root) source paired)
    (hdescription : source.description = paired.description) :
    Below root (first.merge source) (second.merge paired) := by
  refine ⟨h.1.merge_of_alike (hsource.mono fun _ _ => And.left) hdescription,
    h.2.merge_of_properties (fun htarget _ => htarget.merge _) (h.2.own.merge _) ?_⟩
  intro property hmem
  obtain ⟨_, -, hproperty⟩ := exists_mem_left_of_forall₂ hsource.properties hmem
  exact hproperty.2.2

end

namespace Kin

variable {root other first second : Schema}

theorem alike (h : Kin root other first second) : Alike (Below other) first second := by
  cases h with
  | below h => exact h.alike
  | headed h => exact h.alike

theorem alike_kin (h : Kin root other first second) : Alike (Kin root other) first second :=
  h.alike.mono fun _ _ => .below

theorem description (h : Kin root other first second) :
    first.description = second.description := by
  cases h with
  | below h => exact h.1.fullyAlike.description
  | headed h => exact h.description

theorem merge {source paired : Schema} (h : Kin root other first second)
    (hsource : Kin root other source paired) :
    Kin root other (first.merge source) (second.merge paired) := by
  cases h with
  | below h => exact .below (h.merge_of_alike hsource.alike hsource.description)
  | headed h =>
    refine .headed ⟨h.alike.merge (fun hbelow hmore =>
      hbelow.merge_of_alike hmore.alike hmore.1.fullyAlike.description) hsource.alike, ?_, ?_, ?_⟩
    · rw [merge_eq, merge_eq, h.description, hsource.description]
    · rw [merge_eq]
      exact h.table
    · rw [merge_eq]
      exact h.paired

end Kin

/-! ## Equality -/

/-- Tables of the same schemas have the same keys. -/
theorem perm_keys_of_sameTable {first second : Schema} (h : sameTable first second = true)
    (hdistinct : Entries.Distinct first.definitions) :
    (Entries.keys first.definitions).Perm (Entries.keys second.definitions) := by
  rw [sameTable, Bool.and_eq_true, beq_iff_eq, sameEntries_eq_all, List.all_eq_true] at h
  obtain ⟨hlength, hfound⟩ := h
  refine (hdistinct.subperm ?_).perm_of_length_le ?_
  · intro key hkey
    obtain ⟨entry, hentry, rfl⟩ := List.mem_map.mp hkey
    by_contra hmissing
    have hsame := hfound entry hentry
    rw [(Entries.get?_eq_none_iff _ _).mpr hmissing] at hsame
    cases hsame
  · rw [Entries.keys, Entries.keys, List.length_map, List.length_map, hlength]

/-- Tables with different keys are different. -/
theorem OwnTable.sameTable_eq_false {root first second : Schema} (h : OwnTable root first)
    (hkeys : Entries.keys second.definitions = Entries.keys root.definitions)
    (hdistinct : Entries.Distinct second.definitions) :
    sameTable first second = false ∧ sameTable second first = false := by
  refine ⟨Bool.eq_false_iff.mpr fun hsame => h.apart ?_,
    Bool.eq_false_iff.mpr fun hsame => h.apart ?_⟩
  · rw [← hkeys]
    exact perm_keys_of_sameTable hsame h.distinct
  · rw [← hkeys]
    exact (perm_keys_of_sameTable hsame hdistinct).symm

section

variable {root other : Schema} (hroots : Rewrapped root other)

include hroots

theorem Rewrapped.keys_eq : Entries.keys root.definitions = Entries.keys other.definitions :=
  Entries.keys_eq_of_forall₂ hroots.definitions

theorem Rewrapped.distinct : Entries.Distinct root.definitions := by
  rw [Entries.Distinct, hroots.keys_eq]
  exact hroots.keyed.own.definitions

/-- The tables of the roots are the same as themselves. -/
theorem Rewrapped.sameTable_self : sameTable root root = true ∧ sameTable other other = true := by
  have hothers : ∀ definition ∈ other.definitions, same definition.2 definition.2 = true :=
    fun _ hmem => same_self (hroots.keyed.held (.definition hmem))
  have hown : ∀ definition ∈ root.definitions, same definition.2 definition.2 = true := by
    intro definition hmem
    obtain ⟨paired, hpaired, -, hrewritten⟩ := exists_mem_right_of_forall₂ hroots.definitions hmem
    cases hrewritten with
    | below hbelow => rw [hbelow.1.same_eq hbelow.1, hothers _ hpaired]
    | wraps hwraps =>
      obtain ⟨moved, location, hbelow, heq⟩ := hwraps.component
      have hmoved : same moved moved = true := by rw [hbelow.1.same_eq hbelow.1, hothers _ hpaired]
      rw [heq]
      simp [same, sameList, sameEntries, sameAdditional, sameEnumeration, sameDefault, hmoved]
  simp only [sameTable, beq_self_eq_true, Bool.true_and]
  exact ⟨sameEntries_self hroots.distinct hown, sameEntries_self hroots.keyed.own.definitions hothers⟩

/-- A table below the roots is another one than theirs, on both sides. -/
theorem Rewrapped.sameTable_eq_false {first second third fourth : Schema}
    (h : Below other first second) (hheaded : Headed root other third fourth) :
    (sameTable first third = false ∧ sameTable third first = false) ∧
      sameTable second fourth = false ∧ sameTable fourth second = false := by
  have hkeys : Entries.keys first.definitions = Entries.keys second.definitions :=
    Entries.keys_eq_of_forall₂ h.definitions
  have hown : OwnTable other first := by
    refine ⟨?_, ?_⟩
    · rw [Entries.Distinct, hkeys]
      exact h.2.own.distinct
    · rw [hkeys]
      exact h.2.own.apart
  refine ⟨hown.sameTable_eq_false ?_ ?_, h.2.own.sameTable_eq_false ?_ ?_⟩
  · rw [hheaded.table, hroots.keys_eq]
  · rw [hheaded.table]
    exact hroots.distinct
  · rw [hheaded.paired]
  · rw [hheaded.paired]
    exact hroots.keyed.own.definitions

/-- Two schemas are the same in one document when they are in the other. -/
theorem Kin.same_eq {first second third fourth : Schema} (h : Kin root other first second)
    (hmore : Kin root other third fourth) : same first third = same second fourth := by
  have hsame : ∀ a, first.Holds a → ∀ b a' b', Below other a b → Below other a' b' →
      same a a' = same b b' := fun _ _ _ _ _ hbelow hpaired => hbelow.1.same_eq hpaired.1
  rw [Schema.same_eq, Schema.same_eq,
    sameApart_eq_of_alike hsame h.alike h.description hmore.alike hmore.description]
  congr 1
  cases h with
  | below h =>
    cases hmore with
    | below hmore => exact sameTable_eq_of_forall₂ hsame h.definitions hmore.definitions
    | headed hmore =>
      obtain ⟨⟨hfirst, -⟩, hsecond, -⟩ := hroots.sameTable_eq_false h hmore
      rw [hfirst, hsecond]
  | headed h =>
    cases hmore with
    | below hmore =>
      obtain ⟨⟨-, hfirst⟩, -, hsecond⟩ := hroots.sameTable_eq_false hmore h
      rw [hfirst, hsecond]
    | headed hmore =>
      have htables := hroots.sameTable_self
      unfold sameTable at htables ⊢
      rw [h.table, hmore.table, h.paired, hmore.paired, htables.1, htables.2]

/-! ## References and resolution -/

theorem Rewrapped.kin : Kin root other root other :=
  .headed ⟨hroots.alike, hroots.description, rfl, rfl⟩

/-- A definition that is found in the first document is found in the second one. -/
theorem Targets.exists_get? {first second found : Schema} {key : String}
    (h : Targets root other first second) (hget : Entries.get? first.definitions key = some found) :
    ∃ paired, Entries.get? second.definitions key = some paired ∧ Targets root other found paired := by
  cases h with
  | kin h =>
    cases h with
    | below h =>
      have hrel := Entries.rel_get? h.definitions key
      rw [hget] at hrel
      generalize Entries.get? second.definitions key = paired at hrel ⊢
      cases hrel with
      | some hpaired => exact ⟨_, rfl, .kin (.below hpaired)⟩
    | headed h =>
      have hrel := Entries.rel_get? hroots.definitions key
      rw [← h.table, ← h.paired, hget] at hrel
      generalize Entries.get? second.definitions key = paired at hrel ⊢
      cases hrel with
      | some hpaired =>
        cases hpaired with
        | below hbelow => exact ⟨_, rfl, .kin (.below hbelow)⟩
        | wraps hwraps => exact ⟨_, rfl, .wraps hwraps⟩
  | wraps h =>
    obtain ⟨moved, location, -, rfl⟩ := h.component
    cases hget

theorem Targets.follows_walk {first second : Schema} (h : Targets root other first second)
    (segments : List String) :
    Follows (Targets root other) (Reference.walk root first segments)
      (Reference.walk other second segments) := by
  induction segments generalizing first second with
  | nil => exact .ok h
  | cons segment rest ih =>
    rw [Reference.walk, Reference.walk]
    split
    · exact ih (.kin hroots.kin)
    · split
      · exact ih h
      · cases hget : Entries.get? first.definitions segment with
        | none =>
          intro target htarget
          cases htarget
        | some found =>
          obtain ⟨paired, hpaired, htargets⟩ := h.exists_get? hroots hget
          rw [hpaired]
          exact ih htargets

theorem Kin.follows_standsFor {first second : Schema} (h : Kin root other first second) :
    Follows (Targets root other) (standsFor root first) (standsFor other second) := by
  rw [standsFor, standsFor, ← h.alike.reference]
  cases first.reference with
  | none => exact .ok (.kin h)
  | some reference =>
    exact ((Targets.kin hroots.kin).follows_walk hroots (Reference.segments reference)).mapError _ _

/-- What is wrapped has the leaves of the wrapper. -/
theorem exists_leaves_of_targets {first second : Schema} {leaves : List Schema}
    (hleaves : Leaves root first leaves)
    (h : Follows (Targets root other) (standsFor root first) (standsFor other second)) :
    ∃ others, Leaves other second others ∧ List.Forall₂ (Kin root other) leaves others := by
  induction hleaves using Leaves.recOn_parts generalizing second with
  | leaf hbody hplain =>
    obtain ⟨body, hother, htargets⟩ := h _ hbody
    cases htargets with
    | kin hkin =>
      have hallOf := hkin.alike.allOf
      rw [hplain] at hallOf
      exact ⟨[body], .leaf hother (List.forall₂_nil_left_iff.mp hallOf), .cons hkin .nil⟩
    | wraps hwraps =>
      obtain ⟨moved, location, -, rfl⟩ := hwraps.component
      cases hplain
  | components hbody hsome _ ih =>
    obtain ⟨body, hother, htargets⟩ := h _ hbody
    cases htargets with
    | kin hkin =>
      have hallOf := hkin.alike_kin.allOf
      obtain ⟨more, hmore, hpaired⟩ := Comparison.exists_parts
        (ih.imp fun _ _ ⟨_, hpart⟩ _ hcomponent => hpart (hcomponent.follows_standsFor hroots)) hallOf
      refine ⟨more.flatten, .components hother ?_ hmore, hpaired⟩
      rintro hnil
      rw [hnil] at hallOf
      exact hsome (List.forall₂_nil_right_iff.mp hallOf)
    | wraps hwraps =>
      -- the only component has the leaves of the body, which has no reference to follow
      obtain ⟨moved, location, hbelow, rfl⟩ := hwraps.component
      obtain ⟨leaves, rest, ⟨-, hpart⟩, hrest, rfl⟩ := List.forall₂_cons_left_iff.mp ih
      obtain rfl := List.forall₂_nil_left_iff.mp hrest
      obtain ⟨others, hothers, hpaired⟩ := hpart ((Kin.below hbelow).follows_standsFor hroots)
      rw [List.flatten_singleton]
      exact ⟨others, hothers.of_standsFor (standsFor_of_none hwraps.reference) hother, hpaired⟩

/-- Where schemas stand for the same schemas, or for a wrapper and its body, they resolve to the
same. -/
theorem follows_resolve {first second : Schema}
    (h : Follows (Targets root other) (standsFor root first) (standsFor other second)) :
    Follows (Kin root other) (resolve root first) (resolve other second) := by
  intro result hresult
  obtain ⟨leaves, hleaves, hfold⟩ := resolve_eq_ok_iff.mp hresult
  obtain ⟨others, hothers, hpaired⟩ := exists_leaves_of_targets hroots hleaves h
  obtain ⟨merged, hmerged, hkin⟩ := Comparison.exists_mergeAll Kin.merge hpaired hfold
  exact ⟨merged, resolve_eq_ok_iff.mpr ⟨others, hothers, hmerged⟩, hkin⟩

theorem Kin.follows_resolve {first second : Schema} (h : Kin root other first second) :
    Follows (Kin root other) (resolve root first) (resolve other second) :=
  Schema.follows_resolve hroots (h.follows_standsFor hroots)

/-- A wrapper resolves to what its body resolves to. -/
theorem Wraps.follows_resolve {wrapper body : Schema} (h : Wraps other wrapper body) :
    Follows (Kin root other) (resolve root wrapper) (resolve other body) := by
  refine Schema.follows_resolve hroots ?_
  have hwrapper : wrapper.reference = none := by
    obtain ⟨moved, location, -, rfl⟩ := h.component
    rfl
  rw [standsFor_of_none hwrapper, standsFor_of_none h.reference]
  exact .ok (.wraps h)

end

end Schema

end SchemaForge
