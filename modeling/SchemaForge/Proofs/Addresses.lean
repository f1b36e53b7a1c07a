import SchemaForge.Proofs.Relocation

/-! # Addresses

The location of a schema is an address: its keys and indices lead through the document to the value
that the schema is read from. The location of a value that is refused as no schema is one as well.
-/

namespace SchemaForge

namespace Json

/-- A step into a value, to the member under a key or to the item at an index. -/
inductive Step where
  | key (name : String)
  | index (position : Nat)

/-- The segment of an address that stands for a step. -/
def Step.segment : Step → String
  | .key name => name
  | .index position => toString position

/-- The steps lead from a value to one inside it. -/
inductive Leads : Json → List Step → Json → Prop
  | here (value : Json) : Leads value [] value
  | member {members : Entries Json} {key : String} {value target : Json} {path : List Step}
      (hmem : (key, value) ∈ members) (h : Leads value path target) :
      Leads (.obj members) (.key key :: path) target
  | item {items : List Json} {position : Nat} {value target : Json} {path : List Step}
      (hitem : items[position]? = some value) (h : Leads value path target) :
      Leads (.arr items) (.index position :: path) target

/-- The address of what steps lead to from the root of a document. -/
def address (path : List Step) : String := "/".intercalate ("#" :: path.map Step.segment)

/-- The address that steps lead to from another one. -/
def addressFrom (location : String) (path : List Step) : String :=
  path.foldl (fun location step => location ++ "/" ++ step.segment) location

theorem intercalate_append_cons (separator front text : String) (rest : List String) :
    separator.intercalate ((front ++ text) :: rest)
      = front ++ separator.intercalate (text :: rest) := by
  cases rest with
  | nil => rw [String.intercalate_singleton, String.intercalate_singleton]
  | cons other rest =>
    rw [String.intercalate_cons_cons, String.intercalate_cons_cons, String.append_assoc,
      String.append_assoc, String.append_assoc]

theorem address_eq (path : List Step) : address path = addressFrom "#" path := by
  unfold address
  generalize "#" = location
  induction path generalizing location with
  | nil => exact String.intercalate_singleton
  | cons step rest ih =>
    show _ = addressFrom (location ++ "/" ++ step.segment) rest
    rw [← ih, intercalate_append_cons]
    exact String.intercalate_cons_cons

theorem addressFrom_append (location : String) (path more : List Step) :
    addressFrom location (path ++ more) = addressFrom (addressFrom location path) more :=
  List.foldl_append

namespace Leads

variable {value middle target : Json} {path more : List Step}

theorem append (h : Leads value path middle) (hmore : Leads middle more target) :
    Leads value (path ++ more) target := by
  induction h with
  | here => exact hmore
  | member hmem _ ih => exact .member hmem (ih hmore)
  | item hitem _ ih => exact .item hitem (ih hmore)

/-- Every step leads to something smaller. -/
theorem sizeOf_add_length_le (h : Leads value path target) :
    sizeOf target + path.length ≤ sizeOf value := by
  induction h with
  | here => exact Nat.le_refl _
  | member hmem _ ih =>
    have hsize := List.sizeOf_lt_of_mem hmem
    rw [Prod.mk.sizeOf_spec] at hsize
    rw [obj.sizeOf_spec, List.length_cons]
    omega
  | item hitem _ ih =>
    have hsize := List.sizeOf_lt_of_mem (List.mem_of_getElem? hitem)
    rw [arr.sizeOf_spec, List.length_cons]
    omega

/-- Where keys are distinct, steps lead to one value at most. -/
theorem unique (hkeys : value.hasDistinctKeys = true) (h : Leads value path target)
    {other : Json} (hother : Leads value path other) : target = other := by
  induction h with
  | here =>
    cases hother
    rfl
  | @member members _ _ _ _ hmem _ ih =>
    obtain ⟨hdistinct, hvalues⟩ := (hasDistinctKeys_obj_iff members).mp hkeys
    cases hother with
    | member hmem' hrest =>
      have hsame := ((Entries.get?_eq_some_iff_mem hdistinct).mpr hmem).symm.trans
        ((Entries.get?_eq_some_iff_mem hdistinct).mpr hmem')
      cases hsame
      exact ih (hvalues _ hmem) hrest
  | @item items _ _ _ _ hitem _ ih =>
    cases hother with
    | item hitem' hrest =>
      cases hitem.symm.trans hitem'
      exact ih ((hasDistinctKeys_arr_iff items).mp hkeys _ (List.mem_of_getElem? hitem)) hrest

end Leads

end Json

namespace Schema

open Json

/-! ## What is read below members -/

/-- An outcome of reading a value below the members, at its own address. -/
def ReadBelow (location : String) (members : Entries Json) (result : Except Error Schema) : Prop :=
  ∃ path value, path ≠ [] ∧ Leads (.obj members) path value ∧
    readAt (addressFrom location path) value = result

/-- Where an outcome tells that a value is no schema, it is one of the given outcomes. -/
def FaultsFrom {α : Type} (reached : Except Error Schema → Prop) (outcome : Except Error α) :
    Prop :=
  ∀ fragment place, outcome = .error (.schema (.notASchema fragment) place) →
    reached (.error (.schema (.notASchema fragment) place))

/-- The schemas that an outcome holds, and any value that it tells to be no schema, come from the
given outcomes. -/
structure MadeOf {α : Type} (reached : Except Error Schema → Prop) (holds : α → Schema → Prop)
    (outcome : Except Error α) : Prop where
  held : ∀ {part schema}, outcome = .ok part → holds part schema → reached (.ok schema)
  fault : FaultsFrom reached outcome

section

variable {α β : Type} {reached other : Except Error Schema → Prop} {holds : α → Schema → Prop}

theorem FaultsFrom.ok (part : α) : FaultsFrom reached (.ok part) := nofun

theorem FaultsFrom.bind {first : Except Error α} {next : α → Except Error β}
    (h : FaultsFrom reached first) (hnext : ∀ part, FaultsFrom reached (next part)) :
    FaultsFrom reached (first >>= next) := by
  intro fragment place hfault
  cases hfirst : first with
  | error error =>
    rw [hfirst] at hfault
    cases hfault
    exact h fragment place hfirst
  | ok part =>
    rw [hfirst] at hfault
    exact hnext part fragment place hfault

theorem MadeOf.ok {part : α} (h : ∀ schema, ¬ holds part schema) :
    MadeOf reached holds (.ok part) where
  held := by
    rintro _ schema ⟨⟩ hheld
    exact absurd hheld (h schema)
  fault := .ok part

theorem MadeOf.error {error : Error}
    (h : ∀ fragment place, error ≠ .schema (.notASchema fragment) place) :
    MadeOf reached holds (.error error) where
  held := nofun
  fault := by
    rintro fragment place ⟨⟩
    exact absurd rfl (h fragment place)

theorem MadeOf.mono {outcome : Except Error α} (h : MadeOf reached holds outcome)
    (hreached : ∀ result, reached result → other result) : MadeOf other holds outcome where
  held hpart hheld := hreached _ (h.held hpart hheld)
  fault fragment place hfault := hreached _ (h.fault fragment place hfault)

/-- A schema that is read alone makes all of a part. -/
theorem MadeOf.single {outcome : Except Error Schema} (part : Schema → α) (h : reached outcome)
    (hpart : ∀ schema held, holds (part schema) held → held = schema) :
    MadeOf reached holds (outcome.map part) where
  held hmap hheld := by
    obtain ⟨schema, rfl, rfl⟩ := map_eq_ok.mp hmap
    rw [hpart _ _ hheld]
    exact h
  fault fragment place hfault := by
    cases outcome with
    | error error =>
      cases hfault
      exact h
    | ok schema => cases hfault

end

/-! ### Named and listed schemas -/

theorem madeOf_readEntries (location : String) (entries : Entries Json) :
    MadeOf (fun result => ∃ key value, (key, value) ∈ entries ∧
      readAt (location ++ "/" ++ key) value = result)
      (fun schemas schema => ∃ key, (key, schema) ∈ schemas) (readEntries location entries) := by
  induction entries with
  | nil =>
    refine .ok ?_
    rintro _ ⟨_, hmem⟩
    exact absurd hmem List.not_mem_nil
  | cons entry rest ih =>
    obtain ⟨key, value⟩ := entry
    rw [readEntries]
    have hrest : MadeOf (fun result => ∃ name other, (name, other) ∈ (key, value) :: rest ∧
        readAt (location ++ "/" ++ name) other = result)
        (fun schemas schema => ∃ key, (key, schema) ∈ schemas) (readEntries location rest) := by
      refine ih.mono ?_
      rintro _ ⟨name, other, hmem, hread⟩
      exact ⟨name, other, List.mem_cons_of_mem _ hmem, hread⟩
    constructor
    · intro part schema h hheld
      obtain ⟨first, hfirst, h⟩ := bind_eq_ok.mp h
      obtain ⟨more, hmore, h⟩ := bind_eq_ok.mp h
      cases h
      obtain ⟨name, hmem⟩ := hheld
      rcases List.mem_cons.mp hmem with heq | hmem
      · cases heq
        exact ⟨key, value, List.mem_cons_self, hfirst⟩
      · exact hrest.held hmore ⟨name, hmem⟩
    · refine FaultsFrom.bind
        (fun _ _ hfault => ⟨key, value, List.mem_cons_self, hfault⟩) fun _ => ?_
      exact hrest.fault.bind fun _ => .ok _

theorem madeOf_readList (location : String) (index : Nat) (values : List Json) :
    MadeOf (fun result => ∃ position value, values[position]? = some value ∧
      readAt (location ++ "/" ++ toString (index + position)) value = result)
      (fun schemas schema => schema ∈ schemas) (readList location index values) := by
  induction values generalizing index with
  | nil => exact .ok fun _ => List.not_mem_nil
  | cons value rest ih =>
    rw [readList]
    have hrest : MadeOf (fun result => ∃ position other, (value :: rest)[position]? = some other ∧
        readAt (location ++ "/" ++ toString (index + position)) other = result)
        (fun schemas schema => schema ∈ schemas) (readList location (index + 1) rest) := by
      refine (ih (index + 1)).mono ?_
      rintro _ ⟨position, other, hother, hread⟩
      rw [Nat.add_assoc, Nat.add_comm 1] at hread
      exact ⟨position + 1, other, hother, hread⟩
    constructor
    · intro part schema h hheld
      obtain ⟨first, hfirst, h⟩ := bind_eq_ok.mp h
      obtain ⟨more, hmore, h⟩ := bind_eq_ok.mp h
      cases h
      rcases List.mem_cons.mp hheld with rfl | hmem
      · exact ⟨0, value, rfl, hfirst⟩
      · exact hrest.held hmore hmem
    · refine FaultsFrom.bind (fun _ _ hfault => ⟨0, value, rfl, hfault⟩) fun _ => ?_
      exact hrest.fault.bind fun _ => .ok _

/-! ### Keywords -/

section

variable {location : String} {members : Entries Json} {keyword : String}

theorem leads_of_get? {value : Json} (h : members.get? keyword = some value) :
    Leads (.obj members) [.key keyword] value :=
  .member (Entries.mem_of_get?_eq_some h) (.here value)

theorem readBelow_of_get? {value : Json} (h : members.get? keyword = some value) :
    ReadBelow location members (readAt (location ++ "/" ++ keyword) value) :=
  ⟨_, value, List.cons_ne_nil _ _, leads_of_get? h, rfl⟩

theorem madeOf_table {entries : Entries Json} (h : members.get? keyword = some (.obj entries)) :
    MadeOf (ReadBelow location members) (fun schemas schema => ∃ key, (key, schema) ∈ schemas)
      (readEntries (location ++ "/" ++ keyword) entries) := by
  refine (madeOf_readEntries _ entries).mono ?_
  rintro _ ⟨key, value, hmem, rfl⟩
  exact ⟨_, value, List.cons_ne_nil _ _, (leads_of_get? h).append (.member hmem (.here value)), rfl⟩

theorem madeOf_list {values : List Json} (h : members.get? keyword = some (.arr values)) :
    MadeOf (ReadBelow location members) (fun schemas schema => schema ∈ schemas)
      (readList (location ++ "/" ++ keyword) 0 values) := by
  refine (madeOf_readList _ 0 values).mono ?_
  rintro _ ⟨position, value, hvalue, rfl⟩
  refine ⟨_, value, List.cons_ne_nil _ _, (leads_of_get? h).append (.item hvalue (.here value)), ?_⟩
  rw [Nat.zero_add]
  rfl

end

section

variable (location : String) (members : Entries Json)

theorem madeOf_readProperties : MadeOf (ReadBelow location members)
    (fun schemas schema => ∃ key, (key, schema) ∈ schemas) (readProperties location members) := by
  have hkeyword : location ++ "/properties" = location ++ "/" ++ "properties" := by
    rw [String.append_assoc]
    rfl
  rw [readProperties_eq, hkeyword]
  cases hget : members.get? "properties" with
  | none => exact .ok fun _ ⟨_, hmem⟩ => absurd hmem List.not_mem_nil
  | some value =>
    cases value with
    | obj entries => exact madeOf_table hget
    | _ => exact .error nofun

theorem madeOf_readItems : MadeOf (ReadBelow location members)
    (fun schemas schema => schema ∈ schemas) (readItems location members) := by
  have hkeyword : location ++ "/items" = location ++ "/" ++ "items" := by
    rw [String.append_assoc]
    rfl
  rw [readItems_eq, hkeyword]
  cases hget : members.get? "items" with
  | none => exact .ok fun _ => List.not_mem_nil
  | some value =>
    cases value with
    | null => exact .ok fun _ => List.not_mem_nil
    | arr values => exact madeOf_list hget
    | _ =>
      exact .single (fun schema => [schema]) (readBelow_of_get? hget)
        fun _ _ => List.mem_singleton.mp

theorem madeOf_readAdditional : MadeOf (ReadBelow location members)
    (fun additional schema => additional = .constrained schema)
    (readAdditional location members) := by
  have hkeyword : location ++ "/additionalProperties"
      = location ++ "/" ++ "additionalProperties" := by
    rw [String.append_assoc]
    rfl
  rw [readAdditional_eq, hkeyword]
  cases hget : members.get? "additionalProperties" with
  | none => exact .ok nofun
  | some value =>
    cases value with
    | bool allowed => exact .ok nofun
    | _ =>
      refine .single Additional.constrained (readBelow_of_get? hget) fun schema held heq => ?_
      cases heq
      rfl

theorem madeOf_readSchemaList (keyword : String) : MadeOf (ReadBelow location members)
    (fun schemas schema => schema ∈ schemas) (readSchemaList keyword location members) := by
  rw [readSchemaList_eq]
  cases hget : members.get? keyword with
  | none => exact .ok fun _ => List.not_mem_nil
  | some value =>
    cases value with
    | null => exact .ok fun _ => List.not_mem_nil
    | arr values => exact madeOf_list hget
    | _ => exact .error nofun

theorem madeOf_readDefinitions (keyword : String) : MadeOf (ReadBelow location members)
    (fun schemas schema => ∃ key, (key, schema) ∈ schemas)
    (readDefinitions keyword location members) := by
  rw [readDefinitions_eq]
  cases hget : members.get? keyword with
  | none => exact .ok fun _ ⟨_, hmem⟩ => absurd hmem List.not_mem_nil
  | some value =>
    cases value with
    | obj entries => exact madeOf_table hget
    | _ =>
      dsimp only [Option.elim_some]
      split
      · exact .error nofun
      · exact .ok fun _ ⟨_, hmem⟩ => absurd hmem List.not_mem_nil

/-! Keywords without schemas have faults of their own only. -/

variable {reached : Except Error Schema → Prop}

theorem faultsFrom_readReference : FaultsFrom reached (readReference location members) := by
  unfold readReference
  split <;> exact nofun

theorem faultsFrom_readEnumeration : FaultsFrom reached (readEnumeration location members) := by
  unfold readEnumeration
  split <;> exact nofun

theorem faultsFrom_types : FaultsFrom reached
    ((members.get? "type").elim (.ok []) (readTypes location)) := by
  cases members.get? "type" with
  | none => exact .ok []
  | some value =>
    rw [Option.elim_some, readTypes_eq]
    generalize value.singleOrList = names
    induction names with
    | nil => exact .ok []
    | cons name rest ih =>
      rw [List.mapM_cons]
      refine FaultsFrom.bind ?_ fun type => ih.bind fun _ => .ok _
      split <;> exact nofun

/-- The schemas that a schema holds are read below its members, and a value there that is no schema
is what is told. -/
theorem madeOf_readAt_obj :
    MadeOf (ReadBelow location members) Holds (readAt location (.obj members)) := by
  have hproperties := madeOf_readProperties location members
  have hitems := madeOf_readItems location members
  have hadditional := madeOf_readAdditional location members
  have hlist := madeOf_readSchemaList location members
  have hdefinitions := madeOf_readDefinitions location members
  constructor
  · intro schema held hread hheld
    have hfrom := readAt_obj_eq_ok hread
    cases hheld with
    | property hmem => exact hproperties.held hfrom.properties ⟨_, hmem⟩
    | item hmem => exact hitems.held hfrom.items hmem
    | additional hvalue => exact hadditional.held hfrom.additional hvalue
    | component hmem => exact (hlist _).held hfrom.allOf hmem
    | alternative hmem => exact (hlist _).held hfrom.anyOf hmem
    | definition hmem =>
      obtain ⟨definitions, further, hfirst, hsecond, heq⟩ := hfrom.definitions
      rw [heq] at hmem
      -- a definition of `$defs` has its own address, also where it replaces one of `definitions`
      rcases Entries.mem_putAll hmem with hmem | hmem
      · exact (hdefinitions _).held hfirst ⟨_, hmem⟩
      · exact (hdefinitions _).held hsecond ⟨_, hmem⟩
  · rw [readAt_obj]
    exact (faultsFrom_readReference location members).bind fun _ =>
      (faultsFrom_types location members).bind fun _ => hproperties.fault.bind fun _ =>
      hitems.fault.bind fun _ => hadditional.fault.bind fun _ => (hlist _).fault.bind fun _ =>
      (hlist _).fault.bind fun _ => (faultsFrom_readEnumeration location members).bind fun _ =>
      (hdefinitions _).fault.bind fun _ => (hdefinitions _).fault.bind fun _ => .ok _

end

/-! ## Whole documents -/

/-- Whatever a schema holds, at any depth, is read at its own address. -/
theorem exists_leads_of_reflTransGen_holds {location : String} {value : Json} {schema held : Schema}
    (hread : readAt location value = .ok schema) (hheld : Relation.ReflTransGen Holds schema held) :
    ∃ path fragment, value.Leads path fragment ∧
      readAt (addressFrom location path) fragment = .ok held := by
  induction hheld using Relation.ReflTransGen.head_induction_on generalizing location value with
  | refl => exact ⟨[], value, .here value, hread⟩
  | head hfirst _ ih =>
    cases value with
    | obj members =>
      obtain ⟨path, below, -, hleads, hbelow⟩ :=
        (madeOf_readAt_obj location members).held hread hfirst
      obtain ⟨more, fragment, hmore, hfragment⟩ := ih hbelow
      rw [← addressFrom_append] at hfragment
      exact ⟨path ++ more, fragment, hleads.append hmore, hfragment⟩
    | bool allowed =>
      cases hread
      cases hfirst with
      | additional hvalue => cases hvalue
      | _ hmem => exact absurd hmem List.not_mem_nil
    | _ => cases hread

/-- A value that is told to be no schema stands at the address that is told. -/
theorem exists_leads_of_notASchema {location place : String} {value fragment : Json}
    (h : readAt location value = .error (.schema (.notASchema fragment) place)) :
    ∃ path, value.Leads path fragment ∧ place = addressFrom location path ∧
      (∀ members, fragment ≠ .obj members) ∧ ∀ allowed, fragment ≠ .bool allowed := by
  induction value using (measure (sizeOf : Json → Nat)).wf.induction generalizing location with
  | _ value ih =>
    cases value with
    | obj members =>
      obtain ⟨path, below, hne, hleads, hbelow⟩ := (madeOf_readAt_obj location members).fault _ _ h
      have hsize := hleads.sizeOf_add_length_le
      have hlength := List.length_pos_iff.mpr hne
      obtain ⟨more, hmore, hplace, hnone⟩ := ih below (by
        show sizeOf below < sizeOf (Json.obj members)
        omega) hbelow
      rw [← addressFrom_append] at hplace
      exact ⟨path ++ more, hleads.append hmore, hplace, hnone⟩
    | bool allowed => cases h
    | _ =>
      cases h
      exact ⟨[], .here _, rfl, nofun, nofun⟩

theorem location_of_readAt {location : String} {value : Json} {schema : Schema}
    (h : readAt location value = .ok schema) : schema.location = location := by
  cases value with
  | obj members => exact (readAt_obj_eq_ok h).location
  | bool allowed =>
    cases h
    rfl
  | _ => cases h

/-- What is read at a location is read on its own too, apart from addresses. -/
theorem exists_read_of_readAt {location : String} {value : Json} {schema : Schema}
    (h : readAt location value = .ok schema) :
    ∃ alone, read value = .ok alone ∧ Relocated alone schema := by
  have hagree := agree_relocated_readAt value "#" location
  rw [h] at hagree
  cases halone : readAt "#" value with
  | error error =>
    rw [halone] at hagree
    cases hagree
  | ok alone => exact ⟨alone, halone, relocated_of_readOf ⟨_, halone⟩ ⟨_, h⟩⟩

/-- Locations are addresses. The location of every schema in a document leads to a value that is read
as that schema on its own, apart from locations, and the location of a value that is refused as no
schema leads to that value. -/
theorem addressed_read (document : Json) :
    (∀ root schema, read document = .ok root → Relation.ReflTransGen Holds root schema →
      ∃ path fragment, document.Leads path fragment ∧ schema.location = address path ∧
        ∃ alone, read fragment = .ok alone ∧ Relocated alone schema) ∧
    ∀ fragment location, read document = .error (.schema (.notASchema fragment) location) →
      ∃ path, document.Leads path fragment ∧ location = address path ∧
        (∀ members, fragment ≠ .obj members) ∧ ∀ allowed, fragment ≠ .bool allowed := by
  simp only [address_eq]
  constructor
  · intro root schema hread hheld
    obtain ⟨path, fragment, hleads, hfragment⟩ := exists_leads_of_reflTransGen_holds hread hheld
    exact ⟨path, fragment, hleads, location_of_readAt hfragment, exists_read_of_readAt hfragment⟩
  · intro fragment location hread
    exact exists_leads_of_notASchema hread

/-- A document whose second table replaces the one definition of the first. -/
def twoTables : Json :=
  .obj [("definitions", .obj [("a", .bool true)]),
    ("$defs", .obj [("a", .obj [("items", .arr [.bool true,
      .obj [("anyOf", .arr [.obj [("type", .str "string")]])]])])])]

/-- A text, as the last schema of the document. -/
def innermostText : Schema where
  types := [.string]
  location := "#/$defs/a/items/1/anyOf/0"

/-- The choice that the text is in. -/
def textChoice : Schema where
  anyOf := [innermostText]
  location := "#/$defs/a/items/1"

/-- The definition that the second table puts in the place of the other one. -/
def replacement : Schema where
  items := [{ location := "#/$defs/a/items/0" }, textChoice]
  location := "#/$defs/a"

/-- A document with a number for a schema in it. -/
def strayNumber : Json :=
  .obj [("properties", .obj [("p", .obj [("allOf", .arr [.bool true, .int 5])])])]

theorem addressed_twoTables_strayNumber :
    read twoTables = .ok { definitions := [("a", replacement)] } ∧
      Relation.ReflTransGen Holds { definitions := [("a", replacement)] } innermostText ∧
      (∃ path fragment, twoTables.Leads path fragment ∧ innermostText.location = address path ∧
        ∃ alone, read fragment = .ok alone ∧ Relocated alone innermostText) ∧
      read strayNumber = .error (.schema (.notASchema (.int 5)) "#/properties/p/allOf/1") ∧
      ∃ path, strayNumber.Leads path (.int 5) ∧ "#/properties/p/allOf/1" = address path ∧
        (∀ members, Json.int 5 ≠ .obj members) ∧ ∀ allowed, Json.int 5 ≠ .bool allowed := by
  have hread : read twoTables = .ok { definitions := [("a", replacement)] } := by cbv
  have hheld : Relation.ReflTransGen Holds { definitions := [("a", replacement)] } innermostText :=
    .head (.definition (List.mem_singleton_self _))
      (.head (.item (List.mem_cons_of_mem _ (List.mem_singleton_self textChoice)))
        (.single (.alternative (List.mem_singleton_self innermostText))))
  have hfault : read strayNumber
      = .error (.schema (.notASchema (.int 5)) "#/properties/p/allOf/1") := by cbv
  exact ⟨hread, hheld, (addressed_read twoTables).1 _ _ hread hheld, hfault,
    (addressed_read strayNumber).2 _ _ hfault⟩

end Schema

end SchemaForge
