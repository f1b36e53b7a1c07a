import Mathlib.Logic.Relation
import SchemaForge.Proofs.Undescribed

/-! # Acceptable schemas

A document is read exactly where every value that stands in the place of a schema is acceptable in
itself. Any other document is refused with the place of a fault, or with the value of a table of
named schemas that is no object.
-/

namespace SchemaForge

namespace Json

/-- The values that are meant by a value that may be a list of them. -/
def singleOrList : Json → List Json
  | .arr values => values
  | value => [value]

/-- A value stands in the place of a schema right below another value that does. -/
inductive Below : Json → Json → Prop
  | intro {members : Entries Json} {value : Json} (h : value ∈ schemasBelow members) :
      Below (.obj members) value

/-- A value stands in the place of a schema of a document. -/
def SchemaIn (document value : Json) : Prop := Relation.ReflTransGen Below document value

end Json

open Json

namespace Schema

/-- The members of a schema have the kinds of values that their keywords take. -/
structure WellShaped (members : Entries Json) : Prop where
  reference : ∀ value, members.get? "$ref" = some value → ∃ text, value = .str text
  types : ∀ value, members.get? "type" = some value →
    ∀ name ∈ value.singleOrList, ∃ type : SimpleType, name = .str type.name
  properties : ∀ value, members.get? "properties" = some value → ∃ entries, value = .obj entries
  allOf : ∀ value, members.get? "allOf" = some value → value = .null ∨ ∃ values, value = .arr values
  anyOf : ∀ value, members.get? "anyOf" = some value → value = .null ∨ ∃ values, value = .arr values
  enumeration : ∀ value, members.get? "enum" = some value → ∃ values, value = .arr values
  definitions : ∀ value, members.get? "definitions" = some value →
    value.isOn = false ∨ ∃ entries, value = .obj entries
  furtherDefinitions : ∀ value, members.get? "$defs" = some value →
    value.isOn = false ∨ ∃ entries, value = .obj entries

/-- A value that may stand in the place of a schema, whatever the schemas below it are. -/
inductive Acceptable : Json → Prop
  | bool (value : Bool) : Acceptable (.bool value)
  | obj {members : Entries Json} (h : WellShaped members) : Acceptable (.obj members)

/-- A table of named schemas that is no object: properties, or definitions that are on. -/
def LooseTable (members : Entries Json) (table : Json) : Prop :=
  (members.get? "properties" = some table ∧ ∀ entries, table ≠ .obj entries) ∨
    ∃ keyword ∈ ["definitions", "$defs"], members.get? keyword = some table ∧
      table.isOn = true ∧ ∀ entries, table ≠ .obj entries

/-- Every value in the place of a schema is acceptable. -/
def Readable (document : Json) : Prop := ∀ value, SchemaIn document value → Acceptable value

/-- Some schema has a table that is no object. -/
def HasLooseTable (document table : Json) : Prop :=
  ∃ members, SchemaIn document (.obj members) ∧ LooseTable members table

/-- What reading a part of a document may come to: it has a value exactly where the part is
acceptable, and it fails with the place of a fault, or else with a table that is no object. -/
structure Reads {α : Type} (outcome : Except Error α) (acceptable : Prop) (loose : Json → Prop) :
    Prop where
  ok_iff : (∃ value, outcome = .ok value) ↔ acceptable
  fault : ∀ error, outcome = .error error →
    (∃ fault location, error = .schema fault location) ∨
      ∃ table, error = .notAnObject table "items" ∧ loose table

namespace Reads

variable {α β : Type} {A B : Prop} {L M : Json → Prop}

theorem ok (value : α) (h : A) : Reads (.ok value) A L where
  ok_iff := ⟨fun _ => h, fun _ => ⟨value, rfl⟩⟩
  fault := nofun

theorem pure (value : α) : Reads (.ok value) True fun _ => False := .ok value trivial

theorem schema {fault : SchemaFault} {location : String} (h : ¬ A) :
    Reads (.error (.schema fault location) : Except Error α) A L where
  ok_iff := ⟨nofun, fun hA => absurd hA h⟩
  fault := by
    rintro _ ⟨⟩
    exact Or.inl ⟨fault, location, rfl⟩

theorem notAnObject {table : Json} (h : ¬ A) (hloose : L table) :
    Reads (.error (.notAnObject table "items") : Except Error α) A L where
  ok_iff := ⟨nofun, fun hA => absurd hA h⟩
  fault := by
    rintro _ ⟨⟩
    exact Or.inr ⟨table, rfl, hloose⟩

theorem congr {outcome : Except Error α} (h : Reads outcome A L) (hA : A ↔ B)
    (hL : ∀ table, L table → M table) : Reads outcome B M where
  ok_iff := h.ok_iff.trans hA
  fault error herror := (h.fault error herror).imp_right fun ⟨table, htable, hloose⟩ =>
    ⟨table, htable, hL table hloose⟩

/-- Of a sequence, both parts must be acceptable. -/
theorem bind {first : Except Error α} {next : α → Except Error β} (h : Reads first A L)
    (hnext : ∀ value, Reads (next value) B M) :
    Reads (first >>= next) (A ∧ B) fun table => L table ∨ M table where
  ok_iff := by
    rw [← h.ok_iff]
    constructor
    · rintro ⟨result, hresult⟩
      obtain ⟨value, hvalue, hrest⟩ := bind_eq_ok.mp hresult
      exact ⟨⟨value, hvalue⟩, (hnext value).ok_iff.mp ⟨result, hrest⟩⟩
    · rintro ⟨⟨value, hvalue⟩, hB⟩
      obtain ⟨result, hresult⟩ := (hnext value).ok_iff.mpr hB
      exact ⟨result, bind_eq_ok.mpr ⟨value, hvalue, hresult⟩⟩
  fault error herror := by
    cases hfirst : first with
    | error early =>
      rw [hfirst] at herror
      cases herror
      exact (h.fault error hfirst).imp_right fun ⟨table, htable, hloose⟩ =>
        ⟨table, htable, Or.inl hloose⟩
    | ok value =>
      rw [hfirst] at herror
      exact ((hnext value).fault error herror).imp_right fun ⟨table, htable, hloose⟩ =>
        ⟨table, htable, Or.inr hloose⟩

theorem map {outcome : Except Error α} (h : Reads outcome A L) (f : α → β) :
    Reads (outcome.map f) A L where
  ok_iff := by
    rw [← h.ok_iff]
    cases outcome <;> simp [Except.map]
  fault error herror := by
    cases outcome with
    | error early =>
      cases herror
      exact h.fault error rfl
    | ok value => cases herror

end Reads

/-! ## Keywords without schemas -/

theorem reads_readReference (location : String) (members : Entries Json) :
    Reads (readReference location members)
      (∀ value, members.get? "$ref" = some value → ∃ text, value = .str text)
      fun _ => False := by
  unfold readReference
  cases hget : members.get? "$ref" with
  | none => exact .ok _ nofun
  | some value =>
    cases value with
    | str text =>
      refine .ok _ ?_
      rintro _ ⟨⟩
      exact ⟨text, rfl⟩
    | _ =>
      refine .schema fun h => ?_
      obtain ⟨text, htext⟩ := h _ rfl
      cases htext

theorem reads_readEnumeration (location : String) (members : Entries Json) :
    Reads (readEnumeration location members)
      (∀ value, members.get? "enum" = some value → ∃ values, value = .arr values)
      fun _ => False := by
  unfold readEnumeration
  cases hget : members.get? "enum" with
  | none => exact .ok _ nofun
  | some value =>
    cases value with
    | arr values =>
      refine .ok _ ?_
      rintro _ ⟨⟩
      exact ⟨values, rfl⟩
    | _ =>
      refine .schema fun h => ?_
      obtain ⟨values, hvalues⟩ := h _ rfl
      cases hvalues

theorem ofName?_eq_some_iff {name : String} {type : SimpleType} :
    SimpleType.ofName? name = some type ↔ name = type.name := by
  constructor
  · intro h
    unfold SimpleType.ofName? at h
    simpa [eq_comm] using List.find?_some h
  · rintro rfl
    exact SimpleType.ofName?_name type

theorem Reads.mapM {α β : Type} {step : α → Except Error β} {acceptable : α → Prop} {values : List α}
    (h : ∀ value ∈ values, Reads (step value) (acceptable value) fun _ => False) :
    Reads (values.mapM step) (∀ value ∈ values, acceptable value) fun _ => False := by
  induction values with
  | nil => exact .ok _ fun _ hmem => absurd hmem List.not_mem_nil
  | cons value rest ih =>
    rw [List.forall_mem_cons] at h
    rw [List.mapM_cons]
    have hcons := h.1.bind fun first => (ih h.2).bind fun more => .pure (first :: more)
    exact hcons.congr (by rw [List.forall_mem_cons, and_true]) (by simp)

theorem readTypes_eq (location : String) (value : Json) :
    readTypes location value = value.singleOrList.mapM fun name =>
      match match name with
        | .str text => SimpleType.ofName? text
        | _ => none with
      | some type => .ok type
      | none => .error (.schema (.unknownType name) location) := by
  cases value <;> rfl

theorem reads_readTypes (location : String) (value : Json) :
    Reads (readTypes location value)
      (∀ name ∈ value.singleOrList, ∃ type : SimpleType, name = .str type.name)
      fun _ => False := by
  rw [readTypes_eq]
  refine .mapM fun name _ => ?_
  split
  · rename_i type htype
    refine .ok _ ⟨type, ?_⟩
    split at htype
    · rw [ofName?_eq_some_iff.mp htype]
    · cases htype
  · rename_i hnone
    refine .schema ?_
    rintro ⟨type, rfl⟩
    dsimp only at hnone
    rw [SimpleType.ofName?_name] at hnone
    cases hnone

/-! ## Schemas below -/

/-- A value is read as its acceptability tells, wherever it stands. -/
def ReadsAnywhere (value : Json) : Prop :=
  ∀ location, Reads (readAt location value) (Readable value) (HasLooseTable value)

theorem reads_readList {values : List Json} (h : ∀ value ∈ values, ReadsAnywhere value)
    (location : String) (index : Nat) :
    Reads (readList location index values) (∀ value ∈ values, Readable value)
      fun table => ∃ value ∈ values, HasLooseTable value table := by
  induction values generalizing index with
  | nil => exact .ok _ fun _ hmem => absurd hmem List.not_mem_nil
  | cons value rest ih =>
    rw [List.forall_mem_cons] at h
    have hcons := (h.1 (location ++ "/" ++ toString index)).bind fun schema =>
      (ih h.2 (index + 1)).bind fun more => .pure (schema :: more)
    rw [readList]
    exact hcons.congr (by rw [List.forall_mem_cons, and_true]) (by simp)

theorem reads_readEntries {entries : Entries Json}
    (h : ∀ value ∈ entries.map Prod.snd, ReadsAnywhere value) (location : String) :
    Reads (readEntries location entries) (∀ value ∈ entries.map Prod.snd, Readable value)
      fun table => ∃ value ∈ entries.map Prod.snd, HasLooseTable value table := by
  induction entries with
  | nil => exact .ok _ fun _ hmem => absurd hmem List.not_mem_nil
  | cons entry rest ih =>
    obtain ⟨key, value⟩ := entry
    rw [List.map_cons, List.forall_mem_cons] at h
    have hcons := (h.1 (location ++ "/" ++ key)).bind fun schema =>
      (ih h.2).bind fun more => .pure ((key, schema) :: more)
    rw [readEntries, List.map_cons]
    exact hcons.congr (by rw [List.forall_mem_cons, and_true]) (by simp)

section

variable {members : Entries Json}

theorem reads_readProperties (h : ∀ value ∈ (Entries.get? members "properties").elim [] entryValues,
    ReadsAnywhere value) (location : String) :
    Reads (readProperties location members)
      ((∀ value, Entries.get? members "properties" = some value → ∃ entries, value = .obj entries) ∧
        ∀ value ∈ (Entries.get? members "properties").elim [] entryValues, Readable value)
      fun table =>
        (Entries.get? members "properties" = some table ∧ ∀ entries, table ≠ .obj entries) ∨
          ∃ value ∈ (Entries.get? members "properties").elim [] entryValues,
            HasLooseTable value table := by
  rw [readProperties_eq]
  generalize Entries.get? members "properties" = found at h ⊢
  cases found with
  | none => exact .ok _ ⟨nofun, fun _ hmem => absurd hmem List.not_mem_nil⟩
  | some value =>
    cases value with
    | obj entries =>
      refine (reads_readEntries h _).congr (iff_and_self.mpr fun _ => ?_) fun _ => Or.inr
      rintro _ ⟨⟩
      exact ⟨entries, rfl⟩
    | _ =>
      refine .notAnObject (fun hobject => ?_) (Or.inl ⟨rfl, nofun⟩)
      obtain ⟨entries, hentries⟩ := hobject.1 _ rfl
      cases hentries

theorem reads_readDefinitions {keyword : String}
    (h : ∀ value ∈ (Entries.get? members keyword).elim [] entryValues, ReadsAnywhere value)
    (location : String) :
    Reads (readDefinitions keyword location members)
      ((∀ value, Entries.get? members keyword = some value →
          value.isOn = false ∨ ∃ entries, value = .obj entries) ∧
        ∀ value ∈ (Entries.get? members keyword).elim [] entryValues, Readable value)
      fun table =>
        (Entries.get? members keyword = some table ∧ table.isOn = true ∧
            ∀ entries, table ≠ .obj entries) ∨
          ∃ value ∈ (Entries.get? members keyword).elim [] entryValues,
            HasLooseTable value table := by
  rw [readDefinitions_eq]
  generalize Entries.get? members keyword = found at h ⊢
  cases found with
  | none => exact .ok _ ⟨nofun, fun _ hmem => absurd hmem List.not_mem_nil⟩
  | some value =>
    cases value with
    | obj entries =>
      refine (reads_readEntries h _).congr (iff_and_self.mpr fun _ => ?_) fun _ => Or.inr
      rintro _ ⟨⟩
      exact Or.inr ⟨entries, rfl⟩
    | _ =>
      dsimp only [Option.elim_some]
      split
      · rename_i hon
        refine .notAnObject (fun hobject => ?_) (Or.inl ⟨rfl, hon, nofun⟩)
        rcases hobject.1 _ rfl with hoff | ⟨entries, hentries⟩
        · rw [hon] at hoff
          cases hoff
        · cases hentries
      · rename_i hoff
        refine .ok _ ⟨?_, fun _ hmem => absurd hmem List.not_mem_nil⟩
        rintro _ ⟨⟩
        exact Or.inl (by simpa using hoff)

theorem reads_readSchemaList {keyword : String}
    (h : ∀ value ∈ (Entries.get? members keyword).elim [] listValues, ReadsAnywhere value)
    (location : String) :
    Reads (readSchemaList keyword location members)
      ((∀ value, Entries.get? members keyword = some value →
          value = .null ∨ ∃ values, value = .arr values) ∧
        ∀ value ∈ (Entries.get? members keyword).elim [] listValues, Readable value)
      fun table => ∃ value ∈ (Entries.get? members keyword).elim [] listValues,
        HasLooseTable value table := by
  rw [readSchemaList_eq]
  generalize Entries.get? members keyword = found at h ⊢
  cases found with
  | none => exact .ok _ ⟨nofun, fun _ hmem => absurd hmem List.not_mem_nil⟩
  | some value =>
    cases value with
    | null =>
      refine .ok _ ⟨?_, fun _ hmem => absurd hmem List.not_mem_nil⟩
      rintro _ ⟨⟩
      exact Or.inl rfl
    | arr values =>
      refine (reads_readList h _ 0).congr (iff_and_self.mpr fun _ => ?_) fun _ => id
      rintro _ ⟨⟩
      exact Or.inr ⟨values, rfl⟩
    | _ =>
      refine .schema fun hlist => ?_
      rcases hlist.1 _ rfl with hnull | ⟨values, hvalues⟩
      · cases hnull
      · cases hvalues

theorem reads_readItems (h : ∀ value ∈ (Entries.get? members "items").elim [] itemValues,
    ReadsAnywhere value) (location : String) :
    Reads (readItems location members)
      (∀ value ∈ (Entries.get? members "items").elim [] itemValues, Readable value)
      fun table => ∃ value ∈ (Entries.get? members "items").elim [] itemValues,
        HasLooseTable value table := by
  rw [readItems_eq]
  generalize Entries.get? members "items" = found at h ⊢
  cases found with
  | none => exact .ok _ fun _ hmem => absurd hmem List.not_mem_nil
  | some value =>
    cases value with
    | null => exact .ok _ fun _ hmem => absurd hmem List.not_mem_nil
    | arr values => exact reads_readList h _ 0
    | _ =>
      have hsingle := h _ (List.mem_singleton_self _)
      exact ((hsingle _).map fun schema => [schema]).congr List.forall_mem_singleton.symm
        fun _ hloose => ⟨_, List.mem_singleton_self _, hloose⟩

theorem reads_readAdditional
    (h : ∀ value ∈ (Entries.get? members "additionalProperties").elim [] additionalValues,
      ReadsAnywhere value) (location : String) :
    Reads (readAdditional location members)
      (∀ value ∈ (Entries.get? members "additionalProperties").elim [] additionalValues,
        Readable value)
      fun table =>
        ∃ value ∈ (Entries.get? members "additionalProperties").elim [] additionalValues,
          HasLooseTable value table := by
  rw [readAdditional_eq]
  generalize Entries.get? members "additionalProperties" = found at h ⊢
  cases found with
  | none => exact .ok _ fun _ hmem => absurd hmem List.not_mem_nil
  | some value =>
    cases value with
    | bool allowed => exact .ok _ fun _ hmem => absurd hmem List.not_mem_nil
    | _ =>
      have hsingle := h _ (List.mem_singleton_self _)
      exact ((hsingle _).map Additional.constrained).congr List.forall_mem_singleton.symm
        fun _ hloose => ⟨_, List.mem_singleton_self _, hloose⟩

end

/-! ## Whole documents -/

theorem not_below_of_ne_obj {document value : Json} (h : ∀ members, document ≠ .obj members) :
    ¬ Below document value := by
  rintro ⟨hvalue⟩
  exact h _ rfl

theorem readable_obj_iff (members : Entries Json) : Readable (.obj members) ↔
    WellShaped members ∧ ∀ value ∈ schemasBelow members, Readable value := by
  constructor
  · intro h
    refine ⟨?_, fun value hvalue below hbelow => ?_⟩
    · cases h _ .refl with
      | obj hshaped => exact hshaped
    · exact h below (.head ⟨hvalue⟩ hbelow)
  · rintro ⟨hshaped, hbelow⟩ value hvalue
    rcases Relation.ReflTransGen.cases_head hvalue with rfl | ⟨middle, ⟨hmiddle⟩, hrest⟩
    · exact .obj hshaped
    · exact hbelow middle hmiddle value hrest

theorem hasLooseTable_obj_iff (members : Entries Json) (table : Json) :
    HasLooseTable (.obj members) table ↔
      LooseTable members table ∨ ∃ value ∈ schemasBelow members, HasLooseTable value table := by
  constructor
  · rintro ⟨others, hothers, hloose⟩
    rcases Relation.ReflTransGen.cases_head hothers with heq | ⟨middle, ⟨hmiddle⟩, hrest⟩
    · cases heq
      exact Or.inl hloose
    · exact Or.inr ⟨middle, hmiddle, others, hrest, hloose⟩
  · rintro (hloose | ⟨value, hvalue, others, hothers, hloose⟩)
    · exact ⟨members, .refl, hloose⟩
    · exact ⟨others, .head ⟨hvalue⟩ hothers, hloose⟩

theorem reads_types (location : String) (members : Entries Json) :
    Reads ((Entries.get? members "type").elim (.ok []) (readTypes location))
      (∀ value, Entries.get? members "type" = some value →
        ∀ name ∈ value.singleOrList, ∃ type : SimpleType, name = .str type.name)
      fun _ => False := by
  cases Entries.get? members "type" with
  | none => exact .ok _ nofun
  | some value => exact (reads_readTypes location value).congr (by simp) fun _ => id

/-- An object is read as its keywords and the schemas below it tell. -/
theorem reads_obj {members : Entries Json}
    (h : ∀ value ∈ schemasBelow members, ReadsAnywhere value) : ReadsAnywhere (.obj members) := by
  intro location
  have hparts := h
  unfold schemasBelow at hparts
  simp only [List.forall_mem_append] at hparts
  obtain ⟨⟨⟨⟨⟨⟨hproperties, hitems⟩, hadditional⟩, hallOf⟩, hanyOf⟩, hdefinitions⟩, hfurther⟩ :=
    hparts
  have hsequence := (reads_readReference location members).bind fun reference =>
    (reads_types location members).bind fun types =>
    (reads_readProperties hproperties location).bind fun properties =>
    (reads_readItems hitems location).bind fun items =>
    (reads_readAdditional hadditional location).bind fun additional =>
    (reads_readSchemaList hallOf location).bind fun allOf =>
    (reads_readSchemaList hanyOf location).bind fun anyOf =>
    (reads_readEnumeration location members).bind fun enumeration =>
    (reads_readDefinitions hdefinitions location).bind fun definitions =>
    (reads_readDefinitions hfurther location).bind fun further =>
    .pure ({
      reference, types, properties, items, additional, allOf, anyOf, enumeration, location
      required := readRequired members
      defaultValue := Entries.get? members "default"
      description := readDescription members
      definitions := Entries.putAll definitions further } : Schema)
  rw [readAt_obj]
  refine hsequence.congr ?_ ?_
  · rw [readable_obj_iff]
    unfold schemasBelow
    simp only [List.forall_mem_append]
    constructor
    · rintro ⟨href, htypes, ⟨hp, hp'⟩, hi, ha, ⟨hall, hall'⟩, ⟨hany, hany'⟩, henum, ⟨hd, hd'⟩,
        ⟨hf, hf'⟩, -⟩
      exact ⟨⟨href, htypes, hp, hall, hany, henum, hd, hf⟩,
        ⟨⟨⟨⟨⟨⟨hp', hi⟩, ha⟩, hall'⟩, hany'⟩, hd'⟩, hf'⟩⟩
    · rintro ⟨hshaped, ⟨⟨⟨⟨⟨⟨hp', hi⟩, ha⟩, hall'⟩, hany'⟩, hd'⟩, hf'⟩⟩
      exact ⟨hshaped.reference, hshaped.types, ⟨hshaped.properties, hp'⟩, hi, ha,
        ⟨hshaped.allOf, hall'⟩, ⟨hshaped.anyOf, hany'⟩, hshaped.enumeration,
        ⟨hshaped.definitions, hd'⟩, ⟨hshaped.furtherDefinitions, hf'⟩, trivial⟩
  · intro table
    rw [hasLooseTable_obj_iff]
    -- a loose table stands here, or below one of the keywords
    have hbelow : ∀ {values : List Json}, (∀ value ∈ values, value ∈ schemasBelow members) →
        (∃ value ∈ values, HasLooseTable value table) →
          ∃ value ∈ schemasBelow members, HasLooseTable value table :=
      fun hsub ⟨value, hvalue, hloose⟩ => ⟨value, hsub value hvalue, hloose⟩
    rintro (hno | hno | (hloose | hloose) | hloose | hloose | hloose | hloose | hno |
      (hloose | hloose) | (hloose | hloose) | hno)
    · exact hno.elim
    · exact hno.elim
    · exact Or.inl (Or.inl hloose)
    · exact Or.inr (hbelow (by simp +contextual [schemasBelow]) hloose)
    · exact Or.inr (hbelow (by simp +contextual [schemasBelow]) hloose)
    · exact Or.inr (hbelow (by simp +contextual [schemasBelow]) hloose)
    · exact Or.inr (hbelow (by simp +contextual [schemasBelow]) hloose)
    · exact Or.inr (hbelow (by simp +contextual [schemasBelow]) hloose)
    · exact hno.elim
    · exact Or.inl (Or.inr ⟨"definitions", by simp, hloose⟩)
    · exact Or.inr (hbelow (by simp +contextual [schemasBelow]) hloose)
    · exact Or.inl (Or.inr ⟨"$defs", by simp, hloose⟩)
    · exact Or.inr (hbelow (by simp +contextual [schemasBelow]) hloose)
    · exact hno.elim

/-- The value is another one, or stands right under a key or an index of it. -/
inductive ComesFrom (value : Json) : Json → Prop
  | whole : ComesFrom value value
  | entry {entries : Entries Json} {key : String} (h : (key, value) ∈ entries) :
      ComesFrom value (.obj entries)
  | item {values : List Json} (h : value ∈ values) : ComesFrom value (.arr values)

theorem comesFrom_of_mem_entryValues {whole value : Json} (h : value ∈ entryValues whole) :
    ComesFrom value whole := by
  cases whole with
  | obj entries =>
    obtain ⟨entry, hentry, rfl⟩ := List.mem_map.mp h
    exact .entry hentry
  | _ => exact absurd h List.not_mem_nil

theorem comesFrom_of_mem_listValues {whole value : Json} (h : value ∈ listValues whole) :
    ComesFrom value whole := by
  cases whole with
  | arr values => exact .item h
  | _ => exact absurd h List.not_mem_nil

theorem comesFrom_of_mem_itemValues {whole value : Json} (h : value ∈ itemValues whole) :
    ComesFrom value whole := by
  cases whole with
  | null => exact absurd h List.not_mem_nil
  | arr values => exact .item h
  | _ =>
    rw [List.mem_singleton.mp h]
    exact .whole

theorem comesFrom_of_mem_additionalValues {whole value : Json}
    (h : value ∈ additionalValues whole) : ComesFrom value whole := by
  cases whole with
  | bool allowed => exact absurd h List.not_mem_nil
  | _ =>
    rw [List.mem_singleton.mp h]
    exact .whole

/-- What stands below a schema comes from the value of one of its keywords. -/
theorem exists_comesFrom_of_mem_schemasBelow {members : Entries Json} {value : Json}
    (h : value ∈ schemasBelow members) :
    ∃ keyword whole, members.get? keyword = some whole ∧ ComesFrom value whole := by
  have hfound : ∀ {keyword : String} {values : Json → List Json},
      (∀ {whole value : Json}, value ∈ values whole → ComesFrom value whole) →
        value ∈ (Entries.get? members keyword).elim [] values →
          ∃ keyword whole, members.get? keyword = some whole ∧ ComesFrom value whole := by
    intro keyword values hcomes hvalue
    cases hget : Entries.get? members keyword with
    | none =>
      rw [hget] at hvalue
      exact absurd hvalue List.not_mem_nil
    | some whole =>
      rw [hget] at hvalue
      exact ⟨keyword, whole, hget, hcomes hvalue⟩
  unfold schemasBelow at h
  simp only [List.mem_append] at h
  rcases h with (((((hvalue | hvalue) | hvalue) | hvalue) | hvalue) | hvalue) | hvalue
  · exact hfound comesFrom_of_mem_entryValues hvalue
  · exact hfound comesFrom_of_mem_itemValues hvalue
  · exact hfound comesFrom_of_mem_additionalValues hvalue
  · exact hfound comesFrom_of_mem_listValues hvalue
  · exact hfound comesFrom_of_mem_listValues hvalue
  · exact hfound comesFrom_of_mem_entryValues hvalue
  · exact hfound comesFrom_of_mem_entryValues hvalue

theorem ComesFrom.sizeOf_le {value whole : Json} (h : ComesFrom value whole) :
    sizeOf value ≤ sizeOf whole := by
  cases h with
  | whole => exact Nat.le_refl _
  | entry hmem =>
    have hsize := List.sizeOf_lt_of_mem hmem
    rw [Prod.mk.sizeOf_spec] at hsize
    rw [Json.obj.sizeOf_spec]
    omega
  | item hmem =>
    have hsize := List.sizeOf_lt_of_mem hmem
    rw [Json.arr.sizeOf_spec]
    omega

/-- What stands below a schema is smaller. -/
theorem sizeOf_lt_of_mem_schemasBelow {members : Entries Json} {value : Json}
    (h : value ∈ schemasBelow members) : sizeOf value < sizeOf members := by
  obtain ⟨keyword, whole, hget, hcomes⟩ := exists_comesFrom_of_mem_schemasBelow h
  exact Nat.lt_of_le_of_lt hcomes.sizeOf_le (sizeOf_lt_of_get? hget)

/-- No value stands below itself, at any depth. -/
theorem wellFounded_below : WellFounded fun value document => Below document value := by
  refine Subrelation.wf ?_ (measure sizeOf).wf
  rintro value _ ⟨hvalue⟩
  have hsize := sizeOf_lt_of_mem_schemasBelow hvalue
  show sizeOf value < sizeOf (Json.obj _)
  rw [Json.obj.sizeOf_spec]
  omega

theorem readsAnywhere (value : Json) : ReadsAnywhere value := by
  induction value using wellFounded_below.induction with
  | _ value ih =>
    cases value with
    | obj members => exact reads_obj fun below hbelow => ih below ⟨hbelow⟩
    | bool allowed =>
      refine fun location => .ok _ fun below hbelow => ?_
      rcases Relation.ReflTransGen.cases_head hbelow with rfl | ⟨middle, hmiddle, -⟩
      · exact .bool allowed
      · exact absurd hmiddle (not_below_of_ne_obj nofun)
    | _ => exact fun location => .schema fun hreadable => nomatch hreadable _ .refl

/-- A document is read exactly where every value in the place of a schema is acceptable. -/
theorem exists_read_iff (document : Json) :
    (∃ root, read document = .ok root) ↔ Readable document :=
  (readsAnywhere document "#").ok_iff

/-- A document that is not read has a fault at a place, or a table of named schemas that is no
object and is named by the error. -/
theorem schema_of_read_eq_error {document : Json} {error : Error}
    (h : read document = .error error) :
    (∃ fault location, error = .schema fault location) ∨
      ∃ table, error = .notAnObject table "items" ∧ HasLooseTable document table :=
  (readsAnywhere document "#").fault error h

/-! ## Schemas that are held -/

/-- What a schema holds is read from a value below the one that it is read from. -/
theorem exists_below_of_holds {value : Json} {schema held : Schema} (h : ReadOf value schema)
    (hheld : schema.Holds held) : ∃ other, Below value other ∧ ReadOf other held := by
  obtain ⟨location, hread⟩ := h
  cases value with
  | obj members =>
    have hfrom := readAt_obj_eq_ok hread
    have htable : ∀ {found : Option Json} {schemas : Entries Schema} {key : String},
        List.Forall₂ (fun entry named => entry.1 = named.1 ∧ ReadOf entry.2 named.2)
          (tableEntries found) schemas → (key, held) ∈ schemas →
        ∃ other ∈ found.elim [] entryValues, ReadOf other held := by
      intro found schemas key hpaired hmem
      obtain ⟨entry, hentry, -, hread⟩ := exists_mem_left_of_forall₂ hpaired hmem
      exact ⟨entry.2, mem_entryValues_of_mem_tableEntries hentry, hread⟩
    -- the value stands below the keyword of the schema that is held
    have hbelow : ∃ other ∈ schemasBelow members, ReadOf other held := by
      unfold schemasBelow
      cases hheld with
      | property hmem =>
        obtain ⟨other, hother, hread⟩ := htable (forall₂_of_readProperties hfrom.properties) hmem
        exact ⟨other, by simp [hother], hread⟩
      | item hmem =>
        obtain ⟨other, hother, hread⟩ :=
          exists_mem_left_of_forall₂ (forall₂_of_readItems hfrom.items) hmem
        exact ⟨other, by simp [hother], hread⟩
      | additional hvalue =>
        obtain ⟨other, hother, hread⟩ := readOf_of_readAdditional (hvalue ▸ hfrom.additional)
        exact ⟨other, by simp [hother], hread⟩
      | component hmem =>
        obtain ⟨other, hother, hread⟩ :=
          exists_mem_left_of_forall₂ (forall₂_of_readSchemaList hfrom.allOf) hmem
        exact ⟨other, by simp [hother], hread⟩
      | alternative hmem =>
        obtain ⟨other, hother, hread⟩ :=
          exists_mem_left_of_forall₂ (forall₂_of_readSchemaList hfrom.anyOf) hmem
        exact ⟨other, by simp [hother], hread⟩
      | definition hmem =>
        obtain ⟨definitions, further, hdefinitions, hfurther, heq⟩ := hfrom.definitions
        rw [heq] at hmem
        rcases Entries.mem_putAll hmem with hfirst | hsecond
        · obtain ⟨other, hother, hread⟩ := htable (forall₂_of_readDefinitions hdefinitions) hfirst
          exact ⟨other, by simp [hother], hread⟩
        · obtain ⟨other, hother, hread⟩ := htable (forall₂_of_readDefinitions hfurther) hsecond
          exact ⟨other, by simp [hother], hread⟩
    obtain ⟨other, hother, hread⟩ := hbelow
    exact ⟨other, ⟨hother⟩, hread⟩
  | bool allowed =>
    cases hread
    cases hheld with
    | additional hvalue => cases hvalue
    | _ hmem => exact absurd hmem List.not_mem_nil
  | _ => cases hread

end Schema

end SchemaForge
