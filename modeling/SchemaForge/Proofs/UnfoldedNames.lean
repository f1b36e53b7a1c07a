import SchemaForge.Proofs.Leaves

/-! # Names that resolution keeps

A composition declares the names that the leaves of its unfolding declare. Resolution keeps each of
them and invents none. It takes nothing from a schema that has components except these, and a
reference is followed once: a target that is a reference itself stands for what it holds beside it.
-/

namespace SchemaForge.Schema

/-! ## The unfolding of a schema -/

/-- The node stands in the unfolding of the schema: it is what the schema stands for, or it stands
in the unfolding of one of the components of that. -/
inductive Unfolding (root : Schema) : Schema → Schema → Prop
  | body {schema body : Schema} (hbody : standsFor root schema = .ok body) :
      Unfolding root schema body
  | component {schema body component node : Schema} (hbody : standsFor root schema = .ok body)
      (hmem : component ∈ body.allOf) (hnode : Unfolding root component node) :
      Unfolding root schema node

/-- The nodes that a schema unfolds into are what it stands for and those of its components. -/
theorem unfolding_iff {root schema body node : Schema} (hbody : standsFor root schema = .ok body) :
    Unfolding root schema node
      ↔ node = body ∨ ∃ component ∈ body.allOf, Unfolding root component node := by
  constructor
  · intro h
    cases h with
    | body hother => exact Or.inl (Except.ok.inj (hother.symm.trans hbody))
    | component hother hmem hnode =>
      rw [Except.ok.inj (hother.symm.trans hbody)] at hmem
      exact Or.inr ⟨_, hmem, hnode⟩
  · rintro (rfl | ⟨component, hmem, hnode⟩)
    · exact .body hbody
    · exact .component hbody hmem hnode

/-- The leaves of a schema are the nodes of its unfolding that have no components. -/
theorem Leaves.mem_iff {root schema : Schema} {leaves : List Schema}
    (h : Leaves root schema leaves) (node : Schema) :
    node ∈ leaves ↔ Unfolding root schema node ∧ node.allOf = [] := by
  -- along the leaves: a schema without components is its only leaf, else they are those of the parts
  induction h using Leaves.recOn_parts with
  | leaf hbody hplain =>
    rw [unfolding_iff hbody, hplain, List.mem_singleton]
    constructor
    · rintro rfl
      exact ⟨Or.inl rfl, hplain⟩
    · rintro ⟨rfl | ⟨component, hmem, -⟩, -⟩
      · rfl
      · exact absurd hmem List.not_mem_nil
  | @components schema body parts hbody hsome _ ih =>
    rw [unfolding_iff hbody, List.mem_flatten]
    constructor
    · rintro ⟨leaves, hleaves, hmem⟩
      obtain ⟨component, hcomponent, -, hpart⟩ := exists_mem_left_of_forall₂ ih hleaves
      obtain ⟨hnode, hplain⟩ := hpart.mp hmem
      exact ⟨Or.inr ⟨component, hcomponent, hnode⟩, hplain⟩
    · rintro ⟨rfl | ⟨component, hcomponent, hnode⟩, hplain⟩
      · exact absurd hplain hsome
      · obtain ⟨leaves, hleaves, -, hpart⟩ := exists_mem_right_of_forall₂ ih hcomponent
        exact ⟨leaves, hleaves, hpart.mpr ⟨hnode, hplain⟩⟩

/-! ## Names under merges -/

/-- A union of properties has the keys of both lists. -/
theorem mem_keys_mergeProperties (held added : List (String × Schema)) (name : String) :
    name ∈ Entries.keys (mergeProperties held added)
      ↔ name ∈ Entries.keys held ∨ name ∈ Entries.keys added := by
  rw [keys_mergeProperties, List.mem_append, List.mem_filter]
  by_cases hname : name ∈ Entries.keys held <;> simp [hname]

/-- A list of names that a schema declares and that merging unites. -/
def United (names : Schema → List String) : Prop :=
  ∀ target source name, name ∈ names (merge target source) ↔ name ∈ names target ∨ name ∈ names source

theorem united_properties : United fun schema => Entries.keys schema.properties := by
  intro target source name
  rw [merge_eq]
  exact mem_keys_mergeProperties target.properties source.properties name

theorem united_required : United Schema.required := by
  intro target source name
  rw [merge_eq]
  exact mem_addMissing target.required source.required name

/-- A fold of merges declares what one of its schemas declares. -/
theorem United.mem_foldl_iff {names : Schema → List String} (h : United names) (first : Schema)
    (rest : List Schema) (name : String) :
    name ∈ names (rest.foldl merge first) ↔ ∃ schema ∈ first :: rest, name ∈ names schema := by
  induction rest generalizing first with
  | nil => simp
  | cons second rest ih =>
    rw [List.foldl_cons, ih, List.exists_mem_cons_iff, List.exists_mem_cons_iff,
      List.exists_mem_cons_iff, h, or_assoc]

theorem United.mem_mergeAll_iff {names : Schema → List String} (h : United names)
    {leaves : List Schema} {result : Schema} (hmerge : mergeAll leaves = some result)
    (name : String) :
    name ∈ names result ↔ ∃ leaf ∈ leaves, name ∈ names leaf := by
  cases leaves with
  | nil => cases hmerge
  | cons first rest =>
    cases hmerge
    exact h.mem_foldl_iff first rest name

/-! ## What resolution keeps -/

/-- What a schema resolves to declares what one of the leaves in its unfolding declares. -/
theorem United.mem_resolve_iff {names : Schema → List String} (h : United names)
    {root schema result : Schema} (hresolve : resolve root schema = .ok result) (name : String) :
    name ∈ names result
      ↔ ∃ node, Unfolding root schema node ∧ node.allOf = [] ∧ name ∈ names node := by
  obtain ⟨leaves, hleaves, hmerge⟩ := resolve_eq_ok_iff.mp hresolve
  rw [h.mem_mergeAll_iff hmerge]
  constructor
  · rintro ⟨node, hmem, hname⟩
    obtain ⟨hnode, hplain⟩ := (hleaves.mem_iff node).mp hmem
    exact ⟨node, hnode, hplain, hname⟩
  · rintro ⟨node, hnode, hplain, hname⟩
    exact ⟨node, (hleaves.mem_iff node).mpr ⟨hnode, hplain⟩, hname⟩

/-- The names of properties and the required names of what a schema resolves to are those of the
nodes without components in its unfolding: none is lost and none is added. -/
theorem names_of_resolve {root schema result : Schema} (h : resolve root schema = .ok result)
    (name : String) :
    (name ∈ Entries.keys result.properties
        ↔ ∃ node, Unfolding root schema node ∧ node.allOf = [] ∧ name ∈ Entries.keys node.properties)
      ∧ (name ∈ result.required
        ↔ ∃ node, Unfolding root schema node ∧ node.allOf = [] ∧ name ∈ node.required) :=
  ⟨united_properties.mem_resolve_iff h name, united_required.mem_resolve_iff h name⟩

/-- A document in which one definition is a second name for another one. -/
def secondNames : Schema where
  definitions := [
    ("base", { properties := [("id", {})], required := ["id"] }),
    ("alias", { reference := some "#/definitions/base" })]

/-- The base with a property beside it. -/
def extendedBase : Schema where
  allOf := [{ reference := some "#/definitions/base" }, { properties := [("size", {})] }]

/-- The extended base with its components put together. -/
def wholeBase : Schema where
  properties := [("id", {}), ("size", {})]
  required := ["id"]

theorem names_extendedBase :
    resolve secondNames extendedBase = .ok wholeBase ∧ ∀ name,
      (name ∈ ["id", "size"]
          ↔ ∃ node, Unfolding secondNames extendedBase node ∧ node.allOf = []
            ∧ name ∈ Entries.keys node.properties)
        ∧ (name ∈ ["id"]
          ↔ ∃ node, Unfolding secondNames extendedBase node ∧ node.allOf = []
            ∧ name ∈ node.required) := by
  have hresolve : resolve secondNames extendedBase = .ok wholeBase := by cbv
  exact ⟨hresolve, names_of_resolve hresolve⟩

/-! ## Names that are given up

A schema also declares the properties that stand beside its components, and a definition that is a
reference declares what it finally leads to. Resolution takes neither over.
-/

/-- The node stands in the unfolding of the schema that leaves nothing out: a schema without a
reference counts with what stands beside its components, and references are followed to the end. -/
inductive WholeUnfolding (root : Schema) : Schema → Schema → Prop
  | self {schema : Schema} (href : schema.reference = none) : WholeUnfolding root schema schema
  | target {schema body node : Schema} {reference : String}
      (href : schema.reference = some reference) (hbody : Reference.resolve root reference = .ok body)
      (hnode : WholeUnfolding root body node) : WholeUnfolding root schema node
  | component {schema component node : Schema} (hmem : component ∈ schema.allOf)
      (hnode : WholeUnfolding root component node) : WholeUnfolding root schema node

/-- What the schema resolves to, if to anything, declares all names that its whole unfolding
declares. -/
def KeepsNames (root schema : Schema) : Prop :=
  ∀ result, resolve root schema = .ok result → ∀ node, WholeUnfolding root schema node →
    Entries.keys node.properties ⊆ Entries.keys result.properties ∧ node.required ⊆ result.required

/-- A schema with a property beside its components. -/
def ownProperty : Schema where
  properties := [("own", {})]
  required := ["own"]
  allOf := [{ properties := [("other", {})] }]

/-- A reference to the second name. -/
def bySecondName : Schema where
  reference := some "#/definitions/alias"

/-- The property beside components is lost, and so is the one behind two references. -/
theorem not_keepsNames_ownProperty_bySecondName :
    ¬ KeepsNames secondNames ownProperty ∧ ¬ KeepsNames secondNames bySecondName := by
  constructor
  · intro h
    have hresolve : resolve secondNames ownProperty = .ok { properties := [("other", {})] } := by cbv
    have hkept := (h _ hresolve ownProperty (.self rfl)).1
    exact absurd (hkept (List.mem_singleton_self "own")) (by decide)
  · intro h
    have hresolve : resolve secondNames bySecondName
        = .ok { reference := some "#/definitions/base" } := by cbv
    have htarget : Reference.resolve secondNames "#/definitions/alias"
        = .ok { reference := some "#/definitions/base" } := by cbv
    have hbase : Reference.resolve secondNames "#/definitions/base"
        = .ok { properties := [("id", {})], required := ["id"] } := by cbv
    have hnode : WholeUnfolding secondNames bySecondName
        { properties := [("id", {})], required := ["id"] } :=
      .target rfl htarget (.target rfl hbase (.self rfl))
    have hkept := (h _ hresolve _ hnode).1
    exact absurd (hkept (List.mem_singleton_self "id")) (by decide)

end SchemaForge.Schema
