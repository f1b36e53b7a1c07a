import SchemaForge.Proofs.ComparedRuns
import SchemaForge.Proofs.Reading

/-! # Reading paired values

Two values that are paired keyword by keyword are read as schemas that are paired keyword by keyword,
or neither of them is read. The pairing of the values that schemas hold is a parameter, as is the
pairing of the locations that they are read at.
-/

namespace SchemaForge

namespace Json

variable (V : Json → Json → Prop)

/-- Two values in the place of a table of named schemas. -/
inductive TablesPaired : Json → Json → Prop
  | table {entries others : List (String × Json)}
      (h : List.Forall₂ (fun entry other => entry.1 = other.1 ∧ V entry.2 other.2) entries others) :
      TablesPaired (.obj entries) (.obj others)
  | loose {value : Json} (h : ∀ entries, value ≠ .obj entries) : TablesPaired value value

/-- Two values in the place of a list of schemas. -/
inductive ListsPaired : Json → Json → Prop
  | null : ListsPaired .null .null
  | list {values others : List Json} (h : List.Forall₂ V values others) :
      ListsPaired (.arr values) (.arr others)
  | loose {value other : Json} (h : value ≠ .null ∧ ∀ values, value ≠ .arr values)
      (hother : other ≠ .null ∧ ∀ values, other ≠ .arr values) : ListsPaired value other

/-- Two values in the place of the schemas of items. -/
inductive ItemsPaired : Json → Json → Prop
  | null : ItemsPaired .null .null
  | list {values others : List Json} (h : List.Forall₂ V values others) :
      ItemsPaired (.arr values) (.arr others)
  | single {value other : Json} (h : V value other)
      (hvalue : value ≠ .null ∧ ∀ values, value ≠ .arr values)
      (hother : other ≠ .null ∧ ∀ values, other ≠ .arr values) : ItemsPaired value other

/-- Two values in the place of what is said about additional properties. -/
inductive AdditionalPaired : Json → Json → Prop
  | permitted (allowed : Bool) : AdditionalPaired (.bool allowed) (.bool allowed)
  | constrained {value other : Json} (h : V value other) (hvalue : ∀ allowed, value ≠ .bool allowed)
      (hother : ∀ allowed, other ≠ .bool allowed) : AdditionalPaired value other

/-- The members of two schemas are paired keyword by keyword. -/
structure MembersPaired (members others : Entries Json) : Prop where
  plain : ∀ keyword ∈ ["$ref", "type", "required", "enum", "default"],
    members.get? keyword = others.get? keyword
  tables : ∀ keyword ∈ ["properties", "definitions", "$defs"],
    Option.Rel (TablesPaired V) (members.get? keyword) (others.get? keyword)
  lists : ∀ keyword ∈ ["allOf", "anyOf"],
    Option.Rel (ListsPaired V) (members.get? keyword) (others.get? keyword)
  items : Option.Rel (ItemsPaired V) (members.get? "items") (others.get? "items")
  additional : Option.Rel (AdditionalPaired V) (members.get? "additionalProperties")
    (others.get? "additionalProperties")

end Json

namespace Schema

open Json

/-! ## Keywords without schemas -/

/-- The location is told in errors only. -/
theorem agree_readReference {members others : Entries Json}
    (h : members.get? "$ref" = others.get? "$ref") (location another : String) :
    Agree (· = ·) (readReference location members) (readReference another others) := by
  unfold readReference
  rw [h]
  cases Entries.get? others "$ref" with
  | none => exact .ok rfl
  | some value =>
    cases value with
    | str text => exact .ok rfl
    | _ => exact .error _ _

theorem agree_readEnumeration {members others : Entries Json}
    (h : members.get? "enum" = others.get? "enum") (location another : String) :
    Agree (· = ·) (readEnumeration location members) (readEnumeration another others) := by
  unfold readEnumeration
  rw [h]
  cases Entries.get? others "enum" with
  | none => exact .ok rfl
  | some value =>
    cases value with
    | arr values => exact .ok rfl
    | _ => exact .error _ _

theorem agree_mapM {α β : Type} {step another : α → Except Error β} {values : List α}
    (h : ∀ value, Agree (· = ·) (step value) (another value)) :
    Agree (· = ·) (values.mapM step) (values.mapM another) := by
  induction values with
  | nil => exact .ok rfl
  | cons value rest ih =>
    rw [List.mapM_cons, List.mapM_cons]
    refine Agree.bind (h value) ?_
    rintro first _ rfl
    refine Agree.bind ih ?_
    rintro more _ rfl
    exact .ok rfl

theorem agree_readTypes (location another : String) (value : Json) :
    Agree (· = ·) (readTypes location value) (readTypes another value) := by
  refine agree_mapM fun name => ?_
  dsimp only
  split
  · exact .ok rfl
  · exact .error _ _

/-! ## Keywords with schemas -/

section

variable {L : String → String → Prop} {R : Schema → Schema → Prop}

/-- Wherever the two values stand, they are read as schemas that are paired, or not read. -/
def ReadsAlike (L : String → String → Prop) (R : Schema → Schema → Prop) (value other : Json) :
    Prop :=
  ∀ location another, L location another → Agree R (readAt location value) (readAt another other)

variable (hL : ∀ {location another : String}, L location another →
  ∀ step, L (location ++ step) (another ++ step))

include hL

theorem agree_readEntries {entries others : List (String × Json)}
    (h : List.Forall₂ (fun entry other => entry.1 = other.1 ∧ ReadsAlike L R entry.2 other.2)
      entries others) {location another : String} (hplace : L location another) :
    Agree (List.Forall₂ fun entry other => entry.1 = other.1 ∧ R entry.2 other.2)
      (readEntries location entries) (readEntries another others) := by
  induction h with
  | nil => exact .ok List.Forall₂.nil
  | @cons entry other _ _ hentry _ ih =>
    obtain ⟨key, value⟩ := entry
    obtain ⟨otherKey, otherValue⟩ := other
    obtain ⟨rfl, hvalue⟩ := hentry
    rw [readEntries, readEntries]
    refine Agree.bind (hvalue _ _ (hL (hL hplace _) _)) fun schema paired hschema => ?_
    exact Agree.bind ih fun more rest hmore => .ok (List.Forall₂.cons ⟨rfl, hschema⟩ hmore)

theorem agree_readList {values others : List Json} (h : List.Forall₂ (ReadsAlike L R) values others)
    {location another : String} (hplace : L location another) (index : Nat) :
    Agree (List.Forall₂ R) (readList location index values) (readList another index others) := by
  induction h generalizing index with
  | nil => exact .ok List.Forall₂.nil
  | cons hvalue _ ih =>
    rw [readList, readList]
    refine Agree.bind (hvalue _ _ (hL (hL hplace _) _)) fun schema paired hschema => ?_
    exact Agree.bind (ih _) fun more rest hmore => .ok (List.Forall₂.cons hschema hmore)

variable {members others : Entries Json} (h : MembersPaired (ReadsAlike L R) members others)
  {location another : String} (hplace : L location another)

include h hplace

theorem agree_readProperties :
    Agree (List.Forall₂ fun entry other => entry.1 = other.1 ∧ R entry.2 other.2)
      (readProperties location members) (readProperties another others) := by
  have htable := h.tables "properties" (by decide)
  rw [readProperties_eq, readProperties_eq]
  generalize Entries.get? members "properties" = value at htable ⊢
  generalize Entries.get? others "properties" = other at htable ⊢
  cases htable with
  | none => exact .ok List.Forall₂.nil
  | some hvalues =>
    cases hvalues with
    | table hentries => exact agree_readEntries hL hentries (hL hplace _)
    | loose hloose =>
      dsimp only [Option.elim_some]
      split
      · exact absurd rfl (hloose _)
      · exact .error _ _

theorem agree_readDefinitions {keyword : String} (hkeyword : keyword ∈ ["definitions", "$defs"]) :
    Agree (List.Forall₂ fun entry other => entry.1 = other.1 ∧ R entry.2 other.2)
      (readDefinitions keyword location members) (readDefinitions keyword another others) := by
  have htable := h.tables keyword (List.mem_cons_of_mem _ hkeyword)
  rw [readDefinitions_eq, readDefinitions_eq]
  generalize Entries.get? members keyword = value at htable ⊢
  generalize Entries.get? others keyword = other at htable ⊢
  cases htable with
  | none => exact .ok List.Forall₂.nil
  | some hvalues =>
    cases hvalues with
    | table hentries => exact agree_readEntries hL hentries (hL (hL hplace _) _)
    | loose hloose =>
      dsimp only [Option.elim_some]
      split
      · exact absurd rfl (hloose _)
      · split
        · exact .error _ _
        · exact .ok List.Forall₂.nil

theorem agree_readSchemaList {keyword : String} (hkeyword : keyword ∈ ["allOf", "anyOf"]) :
    Agree (List.Forall₂ R) (readSchemaList keyword location members)
      (readSchemaList keyword another others) := by
  have hlist := h.lists keyword hkeyword
  rw [readSchemaList_eq, readSchemaList_eq]
  generalize Entries.get? members keyword = value at hlist ⊢
  generalize Entries.get? others keyword = other at hlist ⊢
  cases hlist with
  | none => exact .ok List.Forall₂.nil
  | some hvalues =>
    cases hvalues with
    | null => exact .ok List.Forall₂.nil
    | list hlisted => exact agree_readList hL hlisted (hL (hL hplace _) _) 0
    | loose hvalue hother =>
      dsimp only [Option.elim_some]
      split
      · exact absurd rfl hvalue.1
      · exact absurd rfl (hvalue.2 _)
      · split
        · exact absurd rfl hother.1
        · exact absurd rfl (hother.2 _)
        · exact .error _ _

theorem agree_readItems :
    Agree (List.Forall₂ R) (readItems location members) (readItems another others) := by
  have hitems := h.items
  rw [readItems_eq, readItems_eq]
  generalize Entries.get? members "items" = value at hitems ⊢
  generalize Entries.get? others "items" = other at hitems ⊢
  cases hitems with
  | none => exact .ok List.Forall₂.nil
  | some hvalues =>
    cases hvalues with
    | null => exact .ok List.Forall₂.nil
    | list hlisted => exact agree_readList hL hlisted (hL hplace _) 0
    | single hpaired hvalue hother =>
      dsimp only [Option.elim_some]
      split
      · exact absurd rfl hvalue.1
      · exact absurd rfl (hvalue.2 _)
      · split
        · exact absurd rfl hother.1
        · exact absurd rfl (hother.2 _)
        · exact (hpaired _ _ (hL hplace _)).map fun _ _ hschema =>
            List.Forall₂.cons hschema List.Forall₂.nil

theorem agree_readAdditional :
    Agree (AdditionalAlike R) (readAdditional location members)
      (readAdditional another others) := by
  have hadditional := h.additional
  rw [readAdditional_eq, readAdditional_eq]
  generalize Entries.get? members "additionalProperties" = value at hadditional ⊢
  generalize Entries.get? others "additionalProperties" = other at hadditional ⊢
  cases hadditional with
  | none => exact .ok .unspecified
  | some hvalues =>
    cases hvalues with
    | permitted allowed => exact .ok (.permitted allowed)
    | constrained hpaired hvalue hother =>
      dsimp only [Option.elim_some]
      split
      · exact absurd rfl (hvalue _)
      · exact (hpaired _ _ (hL hplace _)).map fun _ _ => .constrained

/-- Paired members are read as schemas that are paired keyword by keyword, or neither is read. -/
theorem agree_readAt_obj :
    Agree (fun schema paired => Alike R schema paired ∧
        List.Forall₂ (fun definition other => definition.1 = other.1 ∧ R definition.2 other.2)
          schema.definitions paired.definitions ∧
        (schema.description = readDescription members ∧
          paired.description = readDescription others) ∧
        schema.location = location ∧ paired.location = another)
      (readAt location (.obj members)) (readAt another (.obj others)) := by
  have hplain := h.plain
  simp only [List.forall_mem_cons, List.not_mem_nil, false_implies, implies_true, and_true] at hplain
  obtain ⟨href, htype, hrequired, henum, hdefault⟩ := hplain
  have htypes : Agree (· = ·) ((Entries.get? members "type").elim (.ok []) (readTypes location))
      ((Entries.get? others "type").elim (.ok []) (readTypes another)) := by
    rw [htype]
    cases Entries.get? others "type" with
    | none => exact .ok rfl
    | some value => exact agree_readTypes location another value
  have hnames : readRequired members = readRequired others := by
    rw [readRequired, readRequired, hrequired]
  rw [readAt_obj, readAt_obj]
  -- keyword by keyword, in the order in which they are read
  refine Agree.bind (agree_readReference href location another) fun reference _ hreference => ?_
  refine Agree.bind htypes fun types _ htypes => ?_
  refine Agree.bind (agree_readProperties hL h hplace) fun properties _ hproperties => ?_
  refine Agree.bind (agree_readItems hL h hplace) fun items _ hitems => ?_
  refine Agree.bind (agree_readAdditional hL h hplace) fun additional _ hadditional => ?_
  refine Agree.bind (agree_readSchemaList hL h hplace (by decide)) fun allOf _ hallOf => ?_
  refine Agree.bind (agree_readSchemaList hL h hplace (by decide)) fun anyOf _ hanyOf => ?_
  refine Agree.bind (agree_readEnumeration henum location another) fun enumeration _ hvalues => ?_
  refine Agree.bind (agree_readDefinitions hL h hplace (by decide)) fun definitions _ hfirst => ?_
  refine Agree.bind (agree_readDefinitions hL h hplace (by decide)) fun further _ hsecond => .ok ?_
  exact ⟨⟨hreference, htypes, hproperties, hnames, hitems, hadditional, hallOf, hanyOf, hvalues,
    hdefault⟩, Entries.forall₂_putAll hfirst hsecond, ⟨rfl, rfl⟩, rfl, rfl⟩

end

end Schema

end SchemaForge
