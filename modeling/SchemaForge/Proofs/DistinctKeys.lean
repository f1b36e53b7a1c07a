import SchemaForge.Proofs.AcceptableSchemas

/-! # Distinct keys

The objects of a document have each key once, and so have the tables of the schemas that are read
from it. Merging and resolution keep this, like any property of schemas that merging two of them
keeps. Where keys are distinct, every value and every schema is the same as itself.
-/

namespace SchemaForge

namespace Json

mutual

/-- No object in a value has a key twice. -/
def hasDistinctKeys : Json → Bool
  | .arr items => itemsHaveDistinctKeys items
  | .obj members => decide (Entries.keys members).Nodup && membersHaveDistinctKeys members
  | .null | .bool _ | .int _ | .float _ | .str _ => true

/-- No object in a list of values has a key twice. -/
def itemsHaveDistinctKeys : List Json → Bool
  | [] => true
  | item :: rest => hasDistinctKeys item && itemsHaveDistinctKeys rest

/-- No object in the values of members has a key twice. -/
def membersHaveDistinctKeys : List (String × Json) → Bool
  | [] => true
  | (_, value) :: rest => hasDistinctKeys value && membersHaveDistinctKeys rest

end

theorem itemsHaveDistinctKeys_iff (items : List Json) :
    itemsHaveDistinctKeys items = true ↔ ∀ item ∈ items, item.hasDistinctKeys = true := by
  induction items with
  | nil => simp [itemsHaveDistinctKeys]
  | cons item rest ih => simp [itemsHaveDistinctKeys, ih]

theorem membersHaveDistinctKeys_iff (members : List (String × Json)) :
    membersHaveDistinctKeys members = true
      ↔ ∀ member ∈ members, member.2.hasDistinctKeys = true := by
  induction members with
  | nil => simp [membersHaveDistinctKeys]
  | cons member rest ih => simp [membersHaveDistinctKeys, ih]

theorem hasDistinctKeys_arr_iff (items : List Json) :
    (arr items).hasDistinctKeys = true ↔ ∀ item ∈ items, item.hasDistinctKeys = true := by
  rw [hasDistinctKeys, itemsHaveDistinctKeys_iff]

theorem hasDistinctKeys_obj_iff (members : List (String × Json)) :
    (obj members).hasDistinctKeys = true
      ↔ Entries.Distinct members ∧ ∀ member ∈ members, member.2.hasDistinctKeys = true := by
  rw [hasDistinctKeys, Bool.and_eq_true, decide_eq_true_iff, membersHaveDistinctKeys_iff]
  rfl

theorem sameItems_self {items : List Json} (h : ∀ item ∈ items, item.same item = true) :
    sameItems items items = true := by
  induction items with
  | nil => rfl
  | cons item rest ih =>
    rw [List.forall_mem_cons] at h
    rw [sameItems, h.1, ih h.2]
    rfl

/-- Members are the same as others when each one has an equal counterpart. -/
theorem sameMembers_eq_all (members others : List (String × Json)) :
    sameMembers members others = members.all fun member =>
      match Entries.get? others member.1 with
      | some other => same member.2 other
      | none => false := by
  induction members with
  | nil => rfl
  | cons member rest ih =>
    obtain ⟨key, value⟩ := member
    rw [sameMembers, ih]
    rfl

/-- A value is the same as itself. -/
theorem same_self (value : Json) (h : value.hasDistinctKeys = true) : value.same value = true := by
  induction value using (measure (sizeOf : Json → Nat)).wf.induction with
  | _ value ih =>
    cases value with
    | arr items =>
      rw [hasDistinctKeys_arr_iff] at h
      refine sameItems_self fun item hitem => ih item ?_ (h item hitem)
      have hsize := List.sizeOf_lt_of_mem hitem
      show sizeOf item < sizeOf (Json.arr items)
      rw [arr.sizeOf_spec]
      omega
    | obj members =>
      rw [hasDistinctKeys_obj_iff] at h
      obtain ⟨hkeys, hmembers⟩ := h
      rw [same, beq_self_eq_true, Bool.true_and, sameMembers_eq_all, List.all_eq_true]
      rintro ⟨key, value⟩ hmember
      rw [(Entries.get?_eq_some_iff_mem hkeys).mpr hmember]
      refine ih value ?_ (hmembers _ hmember)
      have hsize := List.sizeOf_lt_of_mem hmember
      show sizeOf value < sizeOf (Json.obj members)
      rw [obj.sizeOf_spec]
      rw [Prod.mk.sizeOf_spec] at hsize
      omega
    | null => rfl
    | bool value | int value | float value | str text => simp [same]

end Json

namespace Schema

/-! ## Properties of all schemas in a schema -/

/-- The property holds of the schema and of every schema that it holds, at any depth. -/
inductive Throughout (P : Schema → Prop) : Schema → Prop
  | intro {schema : Schema} (own : P schema)
      (held : ∀ {held : Schema}, schema.Holds held → Throughout P held) : Throughout P schema

section

variable {P : Schema → Prop} {root schema : Schema}

theorem Throughout.own (h : Throughout P schema) : P schema := by
  cases h with
  | intro own _ => exact own

theorem Throughout.held (h : Throughout P schema) {held : Schema} (hheld : schema.Holds held) :
    Throughout P held := by
  cases h with
  | intro _ held => exact held hheld

/-! ### References and leaves -/

variable (hroot : Throughout P root)

include hroot

theorem throughout_walk {current found : Schema} (h : Throughout P current)
    {segments : List String} (hwalk : Reference.walk root current segments = .ok found) :
    Throughout P found := by
  induction segments generalizing current with
  | nil =>
    cases hwalk
    exact h
  | cons segment rest ih =>
    rw [Reference.walk] at hwalk
    split at hwalk
    · exact ih hroot hwalk
    · split at hwalk
      · exact ih h hwalk
      · cases hget : Entries.get? current.definitions segment with
        | none =>
          rw [hget] at hwalk
          cases hwalk
        | some definition =>
          rw [hget] at hwalk
          exact ih (h.held (.definition (Entries.mem_of_get?_eq_some hget))) hwalk

theorem throughout_target {reference : String} {target : Schema}
    (h : Reference.resolve root reference = .ok target) : Throughout P target :=
  throughout_walk hroot hroot (mapError_eq_ok.mp h)

theorem throughout_standsFor (h : Throughout P schema) {body : Schema}
    (hbody : standsFor root schema = .ok body) : Throughout P body := by
  cases href : schema.reference with
  | none =>
    rw [standsFor_of_none href] at hbody
    cases hbody
    exact h
  | some reference =>
    rw [standsFor_of_some href] at hbody
    exact throughout_target hroot hbody

theorem throughout_leaves (h : Throughout P schema) {leaves : List Schema}
    (hleaves : Leaves root schema leaves) : ∀ leaf ∈ leaves, Throughout P leaf := by
  induction hleaves using Leaves.recOn_parts with
  | leaf hbody _ =>
    intro leaf hleaf
    rw [List.mem_singleton.mp hleaf]
    exact throughout_standsFor hroot h hbody
  | components hbody _ _ ih =>
    intro leaf hleaf
    obtain ⟨part, hpart, hmem⟩ := List.mem_flatten.mp hleaf
    obtain ⟨component, hcomponent, -, hleaves⟩ := exists_mem_left_of_forall₂ ih hpart
    exact hleaves ((throughout_standsFor hroot h hbody).held (.component hcomponent)) leaf hmem

end

/-- What two properties imply holds throughout a schema when they do. -/
theorem Throughout.both {P Q S : Schema → Prop} (hboth : ∀ schema, P schema → Q schema → S schema)
    {schema : Schema} (h : Throughout P schema) (hother : Throughout Q schema) :
    Throughout S schema := by
  induction h with
  | intro own _ ih => exact .intro (hboth _ own hother.own) fun hheld => ih hheld (hother.held hheld)

/-! ### Merges -/

/-- What merging two schemas keeps of each, it keeps of all the schemas in them; of the second one
only the properties are held. -/
theorem Throughout.merge_of_properties {P : Schema → Prop}
    (hP : ∀ {target source}, P target → P source → P (Schema.merge target source))
    {target source : Schema} (h : Throughout P target) (hown : P (Schema.merge target source))
    (hsource : ∀ property ∈ source.properties, Throughout P property.2) :
    Throughout P (Schema.merge target source) := by
  induction h generalizing source with
  | @intro target own held ih =>
    refine .intro hown fun {part} hpart => ?_
    rw [merge_eq] at hpart
    cases hpart with
    | @property key _ hmem =>
      rcases List.mem_append.mp hmem with hshared | hmissing
      · rw [mergeShared_eq_map, List.mem_map] at hshared
        obtain ⟨⟨other, part⟩, hpart, heq⟩ := hshared
        cases heq
        cases hget : Entries.get? source.properties other with
        | none => exact held (.property hpart)
        | some added =>
          have hadded := hsource _ (Entries.mem_of_get?_eq_some hget)
          exact ih (.property hpart) (hP (held (.property hpart)).own hadded.own)
            fun _ hmem => hadded.held (.property hmem)
      · exact hsource _ (List.mem_filter.mp hmissing).1
    | item hmem => exact held (.item hmem)
    | additional hvalue => exact held (.additional hvalue)
    | component hmem => exact held (.component hmem)
    | alternative hmem => exact held (.alternative hmem)
    | definition hmem => exact held (.definition hmem)

section

variable {P : Schema → Prop} (hP : ∀ {target source}, P target → P source → P (Schema.merge target source))

include hP

theorem Throughout.merge {target source : Schema} (h : Throughout P target)
    (hsource : Throughout P source) : Throughout P (Schema.merge target source) :=
  h.merge_of_properties hP (hP h.own hsource.own) fun _ hmem => hsource.held (.property hmem)

theorem Throughout.foldl_merge {first : Schema} {rest : List Schema}
    (h : ∀ schema ∈ first :: rest, Throughout P schema) :
    Throughout P (rest.foldl Schema.merge first) := by
  induction rest generalizing first with
  | nil => exact h first List.mem_cons_self
  | cons second rest ih =>
    simp only [List.forall_mem_cons] at h
    refine ih (List.forall_mem_cons.mpr ⟨h.1.merge hP h.2.1, h.2.2⟩)

theorem Throughout.mergeAll {leaves : List Schema} {result : Schema}
    (h : ∀ leaf ∈ leaves, Throughout P leaf) (hmerge : Schema.mergeAll leaves = some result) :
    Throughout P result := by
  cases leaves with
  | nil => cases hmerge
  | cons first rest =>
    cases hmerge
    exact Throughout.foldl_merge hP h

/-- So it is kept of all the schemas in what a schema resolves to. -/
theorem Throughout.resolve {root schema result : Schema} (hroot : Throughout P root)
    (h : Throughout P schema) (hresolve : Schema.resolve root schema = .ok result) :
    Throughout P result := by
  obtain ⟨leaves, hleaves, hmerge⟩ := resolve_eq_ok_iff.mp hresolve
  exact Throughout.mergeAll hP (throughout_leaves hroot h hleaves) hmerge

end

/-! ## Schemas with distinct keys -/

/-- The keys that stand in a schema itself are distinct: those of its properties and definitions, and
those in its values. -/
structure OwnKeys (schema : Schema) : Prop where
  properties : Entries.Distinct schema.properties
  definitions : Entries.Distinct schema.definitions
  enumeration : ∀ values, schema.enumeration = some values →
    ∀ value ∈ values, value.hasDistinctKeys = true
  defaultValue : ∀ value, schema.defaultValue = some value → value.hasDistinctKeys = true

/-- Keys are distinct everywhere in a schema. -/
def Keyed (schema : Schema) : Prop := Throughout OwnKeys schema

theorem OwnKeys.merge {target source : Schema} (h : OwnKeys target) (hsource : OwnKeys source) :
    OwnKeys (Schema.merge target source) := by
  rw [merge_eq]
  refine ⟨?_, h.definitions, h.enumeration, h.defaultValue⟩
  rw [Entries.Distinct, keys_mergeProperties, List.nodup_append]
  refine ⟨h.properties, hsource.properties.filter _, ?_⟩
  rintro key hkey _ hadded rfl
  simpa [hkey] using List.of_mem_filter hadded

/-- Resolution keeps keys distinct. -/
theorem Keyed.resolve {root schema result : Schema} (hroot : root.Keyed) (h : schema.Keyed)
    (hresolve : Schema.resolve root schema = .ok result) : result.Keyed :=
  Throughout.resolve OwnKeys.merge hroot h hresolve

/-! ### Comparing a schema with itself -/

theorem sameList_self {schemas : List Schema} (h : ∀ schema ∈ schemas, same schema schema = true) :
    sameList schemas schemas = true := by
  induction schemas with
  | nil => rfl
  | cons schema rest ih =>
    rw [List.forall_mem_cons] at h
    rw [sameList, h.1, ih h.2]
    rfl

/-- Named schemas are the same as others when each one has an equal counterpart. -/
theorem sameEntries_eq_all (entries others : List (String × Schema)) :
    sameEntries entries others = entries.all fun entry =>
      match Entries.get? others entry.1 with
      | some other => same entry.2 other
      | none => false := by
  induction entries with
  | nil => rfl
  | cons entry rest ih =>
    obtain ⟨key, schema⟩ := entry
    rw [sameEntries, ih]
    rfl

theorem sameEntries_self {entries : List (String × Schema)} (hkeys : Entries.Distinct entries)
    (h : ∀ entry ∈ entries, same entry.2 entry.2 = true) : sameEntries entries entries = true := by
  rw [sameEntries_eq_all, List.all_eq_true]
  rintro ⟨key, schema⟩ hmem
  rw [(Entries.get?_eq_some_iff_mem hkeys).mpr hmem]
  exact h _ hmem

/-- A schema is the same as itself. -/
theorem same_self {schema : Schema} (h : schema.Keyed) : same schema schema = true := by
  induction h with
  | @intro schema own _ ih =>
    have hproperties := sameEntries_self own.properties fun _ hmem => ih (.property hmem)
    have hdefinitions := sameEntries_self own.definitions fun _ hmem => ih (.definition hmem)
    have hitems := sameList_self fun _ hmem => ih (.item hmem)
    have hallOf := sameList_self fun _ hmem => ih (.component hmem)
    have hanyOf := sameList_self fun _ hmem => ih (.alternative hmem)
    have hadditional : sameAdditional schema.additional schema.additional = true := by
      cases hvalue : schema.additional with
      | unspecified => rfl
      | permitted allowed => exact beq_self_eq_true allowed
      | constrained value => exact ih (.additional hvalue)
    have henumeration : sameEnumeration schema.enumeration schema.enumeration = true := by
      cases hvalues : schema.enumeration with
      | none => rfl
      | some values =>
        exact Json.sameItems_self fun value hmem =>
          value.same_self (own.enumeration values hvalues value hmem)
    have hdefault : sameDefault schema.defaultValue schema.defaultValue = true := by
      cases hvalue : schema.defaultValue with
      | none => rfl
      | some value => exact value.same_self (own.defaultValue value hvalue)
    cases schema
    simp only [same, beq_self_eq_true, Bool.true_and, hproperties, hdefinitions, hitems, hallOf,
      hanyOf, hadditional, henumeration, hdefault]

/-! ### Schemas that are read -/

open Json

/-- What holds of each schema for the value it is read from, it holds of all the schemas in it, if
the values below have the same form. -/
theorem throughout_of_readOf {P : Schema → Prop} {Q : Json → Prop}
    (hown : ∀ {value schema}, Q value → ReadOf value schema → P schema)
    (hbelow : ∀ {value other}, Q value → Below value other → Q other) {value : Json}
    (h : Q value) {schema : Schema} (hread : ReadOf value schema) : Throughout P schema := by
  induction value using wellFounded_below.induction generalizing schema with
  | _ value ih =>
    refine .intro (hown h hread) fun hheld => ?_
    obtain ⟨other, hother, hread⟩ := exists_below_of_holds hread hheld
    exact ih other hother (hbelow h hother) hread

theorem hasDistinctKeys_of_get? {members : Entries Json} {keyword : String} {value : Json}
    (h : (obj members).hasDistinctKeys = true) (hget : members.get? keyword = some value) :
    value.hasDistinctKeys = true :=
  ((hasDistinctKeys_obj_iff members).mp h).2 _ (Entries.mem_of_get?_eq_some hget)

theorem hasDistinctKeys_of_below {value other : Json} (h : value.hasDistinctKeys = true)
    (hbelow : Below value other) : other.hasDistinctKeys = true := by
  obtain @⟨members, _, hmem⟩ := hbelow
  obtain ⟨keyword, whole, hget, hcomes⟩ := exists_comesFrom_of_mem_schemasBelow hmem
  have hwhole := hasDistinctKeys_of_get? h hget
  cases hcomes with
  | whole => exact hwhole
  | entry hentry => exact ((hasDistinctKeys_obj_iff _).mp hwhole).2 _ hentry
  | item hitem => exact (hasDistinctKeys_arr_iff _).mp hwhole _ hitem

theorem distinct_tableEntries {members : Entries Json}
    (h : (obj members).hasDistinctKeys = true) (keyword : String) :
    Entries.Distinct (tableEntries (members.get? keyword)) := by
  cases hget : Entries.get? members keyword with
  | none => exact List.nodup_nil
  | some value =>
    cases value with
    | obj entries => exact ((hasDistinctKeys_obj_iff _).mp (hasDistinctKeys_of_get? h hget)).1
    | _ => exact List.nodup_nil

/-- The keys of a schema are distinct when those of the value it is read from are. -/
theorem ownKeys_of_readOf {value : Json} {schema : Schema} (h : value.hasDistinctKeys = true)
    (hread : ReadOf value schema) : OwnKeys schema := by
  obtain ⟨location, hread⟩ := hread
  cases value with
  | obj members =>
    have hfrom := readAt_obj_eq_ok hread
    have hkeys : ∀ {keyword : String} {schemas : Entries Schema},
        List.Forall₂ (fun entry named => entry.1 = named.1 ∧ ReadOf entry.2 named.2)
          (tableEntries (Entries.get? members keyword)) schemas → Entries.Distinct schemas := by
      intro keyword schemas hpaired
      rw [Entries.Distinct, ← Entries.keys_eq_of_forall₂ hpaired]
      exact distinct_tableEntries h keyword
    refine ⟨hkeys (forall₂_of_readProperties hfrom.properties), ?_, ?_, ?_⟩
    · obtain ⟨definitions, further, hdefinitions, -, heq⟩ := hfrom.definitions
      rw [heq]
      exact (hkeys (forall₂_of_readDefinitions hdefinitions)).putAll further
    · intro values hvalues value hmem
      have hget := get?_of_readEnumeration (hvalues ▸ hfrom.enumeration)
      exact (hasDistinctKeys_arr_iff values).mp (hasDistinctKeys_of_get? h hget) value hmem
    · intro value hvalue
      exact hasDistinctKeys_of_get? h (hfrom.defaultValue ▸ hvalue)
  | bool allowed =>
    cases hread
    refine ⟨List.nodup_nil, List.nodup_nil, ?_, ?_⟩
    · intro values hvalues
      cases hvalues
    · intro value hvalue
      cases hvalue
  | _ => cases hread

/-- A document with distinct keys is read as a schema with distinct keys. -/
theorem keyed_of_readOf {value : Json} {schema : Schema} (h : value.hasDistinctKeys = true)
    (hread : ReadOf value schema) : schema.Keyed :=
  throughout_of_readOf ownKeys_of_readOf hasDistinctKeys_of_below h hread

end Schema

end SchemaForge
