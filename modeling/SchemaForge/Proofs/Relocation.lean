import SchemaForge.Proofs.AcceptableSchemas
import SchemaForge.Proofs.Counterparts
import SchemaForge.Proofs.DistinctKeys

/-! # Schemas at other places

A value that is read at two places of a document gives two schemas that differ in addresses alone.
Such schemas hold such schemas again, and stay such schemas through references, merges and resolution.
Addresses take no part in the equality of schemas, so it cannot tell them apart either.
-/

namespace SchemaForge

namespace Schema

/-- Two schemas are the same apart from addresses and from the schemas they hold, which are paired in
order. -/
structure FullyAlike (R : Schema → Schema → Prop) (first second : Schema) : Prop
    extends Alike R first second where
  description : first.description = second.description
  definitions : List.Forall₂ (fun definition other => definition.1 = other.1 ∧
    R definition.2 other.2) first.definitions second.definitions

/-- The schemas differ in addresses alone: they can be paired, and so can what they hold. -/
def Relocated (first second : Schema) : Prop :=
  ∃ R : Schema → Schema → Prop, (∀ a b, R a b → FullyAlike R a b) ∧ R first second

theorem FullyAlike.mono {R S : Schema → Schema → Prop} (hmono : ∀ a b, R a b → S a b)
    {first second : Schema} (h : FullyAlike R first second) : FullyAlike S first second where
  toAlike := h.toAlike.mono hmono
  description := h.description
  definitions := h.definitions.imp fun _ _ hdefinition => ⟨hdefinition.1, hmono _ _ hdefinition.2⟩

theorem FullyAlike.flip {R : Schema → Schema → Prop} {first second : Schema}
    (h : FullyAlike R first second) : FullyAlike (flip R) second first where
  toAlike := h.toAlike.flip
  description := h.description.symm
  definitions := h.definitions.flip.imp fun _ _ hdefinition => ⟨hdefinition.1.symm, hdefinition.2⟩

namespace Relocated

variable {first second : Schema}

theorem fullyAlike (h : Relocated first second) : FullyAlike Relocated first second := by
  obtain ⟨R, hlike, hpaired⟩ := h
  exact (hlike _ _ hpaired).mono fun a b hheld => ⟨R, hlike, hheld⟩

theorem alike (h : Relocated first second) : Alike Relocated first second := h.fullyAlike.toAlike

theorem of_fullyAlike (h : FullyAlike Relocated first second) : Relocated first second :=
  ⟨FullyAlike Relocated, fun _ _ hpaired => hpaired.mono fun _ _ => fullyAlike, h⟩

theorem refl (schema : Schema) : Relocated schema schema := by
  refine ⟨Eq, ?_, rfl⟩
  rintro schema _ rfl
  exact ⟨.refl (fun _ => rfl) schema, rfl, List.forall₂_same.mpr fun _ _ => ⟨rfl, rfl⟩⟩

theorem symm (h : Relocated first second) : Relocated second first := by
  obtain ⟨R, hlike, hpaired⟩ := h
  exact ⟨flip R, fun a b hheld => (hlike b a hheld).flip, hpaired⟩

end Relocated

/-- Paired schemas, and what becomes of them by merging. -/
inductive Merges (R : Schema → Schema → Prop) : Schema → Schema → Prop
  | base {a b : Schema} (h : R a b) : Merges R a b
  | merge {a b a' b' : Schema} (h : Merges R a b) (h' : Merges R a' b') :
      Merges R (a.merge a') (b.merge b')

/-- Definitions are kept from the first schema of a merge, so those of the second do not matter. -/
theorem FullyAlike.merge {R : Schema → Schema → Prop}
    (hmerge : ∀ {a b a' b'}, R a b → R a' b' → R (a.merge a') (b.merge b')) {a b a' b' : Schema}
    (h : FullyAlike R a b) (h' : Alike R a' b') (hdescription : a'.description = b'.description) :
    FullyAlike R (a.merge a') (b.merge b') where
  toAlike := h.toAlike.merge hmerge h'
  description := by rw [merge_eq, merge_eq, h.description, hdescription]
  definitions := by
    rw [merge_eq, merge_eq]
    exact h.definitions

theorem Relocated.merge {a b a' b' : Schema} (h : Relocated a b) (h' : Relocated a' b') :
    Relocated (a.merge a') (b.merge b') := by
  refine ⟨Merges Relocated, fun x y hpaired => ?_, .merge (.base h) (.base h')⟩
  induction hpaired with
  | base h => exact h.fullyAlike.mono fun _ _ => .base
  | merge _ _ ih ih' => exact ih.merge .merge ih'.toAlike ih'.description

/-- Merging schemas that have different definitions as well leaves a difference in addresses alone. -/
theorem Relocated.merge_of_alike {a b a' b' : Schema} (h : Relocated a b)
    (h' : Alike Relocated a' b') (hdescription : a'.description = b'.description) :
    Relocated (a.merge a') (b.merge b') :=
  .of_fullyAlike (h.fullyAlike.merge Relocated.merge h' hdescription)

/-! ## Equality -/

/-- Equality of tables of definitions, in any order. -/
def sameTable (first second : Schema) : Bool :=
  first.definitions.length == second.definitions.length
    && sameEntries first.definitions second.definitions

/-- Equality of schemas apart from their definitions. -/
def sameApart (first second : Schema) : Bool :=
  first.reference == second.reference && first.types == second.types
    && first.properties.length == second.properties.length
    && sameEntries first.properties second.properties
    && first.required == second.required && sameList first.items second.items
    && sameAdditional first.additional second.additional
    && sameList first.allOf second.allOf && sameList first.anyOf second.anyOf
    && sameEnumeration first.enumeration second.enumeration
    && sameDefault first.defaultValue second.defaultValue
    && first.description == second.description

theorem same_eq (first second : Schema) :
    same first second = (sameApart first second && sameTable first second) := by
  cases first
  simp only [same, sameApart, sameTable, Bool.and_assoc]

section

variable {R : Schema → Schema → Prop}

theorem sameList_eq_of_forall₂ {schemas others paired more : List Schema}
    (hsame : ∀ a ∈ schemas, ∀ b a' b', R a b → R a' b' → same a a' = same b b')
    (h : List.Forall₂ R schemas paired) (hothers : List.Forall₂ R others more) :
    sameList schemas others = sameList paired more := by
  induction h generalizing others more with
  | nil => cases hothers <;> rfl
  | cons hfirst _ ih =>
    rw [List.forall_mem_cons] at hsame
    cases hothers with
    | nil => rfl
    | cons hother hrest =>
      rw [sameList, sameList, hsame.1 _ _ _ hfirst hother, ih hsame.2 hrest]

theorem sameEntries_eq_of_forall₂ {entries others paired more : List (String × Schema)}
    (hsame : ∀ entry ∈ entries, ∀ b a' b', R entry.2 b → R a' b' →
      same entry.2 a' = same b b')
    (h : List.Forall₂ (fun entry other => entry.1 = other.1 ∧ R entry.2 other.2) entries paired)
    (hothers : List.Forall₂ (fun entry other => entry.1 = other.1 ∧ R entry.2 other.2)
      others more) : sameEntries entries others = sameEntries paired more := by
  induction h with
  | nil => rfl
  | @cons entry other _ _ hentry _ ih =>
    obtain ⟨key, schema⟩ := entry
    obtain ⟨another, pairedSchema⟩ := other
    obtain ⟨rfl, hschema⟩ := hentry
    rw [List.forall_mem_cons] at hsame
    rw [sameEntries, sameEntries, ih hsame.2]
    congr 1
    have hfound := Entries.rel_get? hothers key
    generalize Entries.get? others key = found at hfound ⊢
    generalize Entries.get? more key = foundMore at hfound ⊢
    cases hfound with
    | none => rfl
    | some hfound => exact hsame.1 _ _ _ hschema hfound

variable {a b a' b' : Schema}
  (hsame : ∀ x, a.Holds x → ∀ y x' y', R x y → R x' y' → same x x' = same y y')

include hsame

/-- Apart from their definitions, schemas that hold paired schemas are equal when their partners
are. -/
theorem sameApart_eq_of_alike (h : Alike R a b) (hdescription : a.description = b.description)
    (h' : Alike R a' b') (hdescription' : a'.description = b'.description) :
    sameApart a a' = sameApart b b' := by
  have hproperties := sameEntries_eq_of_forall₂
    (fun _ hmem => hsame _ (.property hmem)) h.properties h'.properties
  have hitems := sameList_eq_of_forall₂ (fun _ hmem => hsame _ (.item hmem)) h.items h'.items
  have hallOf := sameList_eq_of_forall₂ (fun _ hmem => hsame _ (.component hmem)) h.allOf h'.allOf
  have hanyOf := sameList_eq_of_forall₂ (fun _ hmem => hsame _ (.alternative hmem))
    h.anyOf h'.anyOf
  have hadditional : sameAdditional a.additional a'.additional
      = sameAdditional b.additional b'.additional := by
    rcases additionalAlike_cases h.additional with
      ⟨hfirst, hsecond⟩ | ⟨allowed, hfirst, hsecond⟩ | ⟨held, other, hfirst, hsecond, hheld⟩ <;>
      rcases additionalAlike_cases h'.additional with
        ⟨hthird, hfourth⟩ | ⟨allowed', hthird, hfourth⟩ | ⟨held', other', hthird, hfourth, hheld'⟩ <;>
      rw [hfirst, hsecond, hthird, hfourth] <;> try rfl
    exact hsame _ (.additional hfirst) _ _ _ hheld hheld'
  rw [sameApart, sameApart, hproperties, hitems, hallOf, hanyOf, hadditional, h.reference,
    h'.reference, h.types, h'.types, h.required, h'.required, h.enumeration, h'.enumeration,
    h.defaultValue, h'.defaultValue, hdescription, hdescription', h.properties.length_eq,
    h'.properties.length_eq]

theorem sameTable_eq_of_forall₂
    (h : List.Forall₂ (fun definition other => definition.1 = other.1 ∧ R definition.2 other.2)
      a.definitions b.definitions)
    (h' : List.Forall₂ (fun definition other => definition.1 = other.1 ∧ R definition.2 other.2)
      a'.definitions b'.definitions) : sameTable a a' = sameTable b b' := by
  rw [sameTable, sameTable, h.length_eq, h'.length_eq,
    sameEntries_eq_of_forall₂ (fun _ hmem => hsame _ (.definition hmem)) h h']

end

/-- Addresses take no part in equality. -/
theorem Relocated.same_eq {a b a' b' : Schema} (h : Relocated a b) (h' : Relocated a' b') :
    same a a' = same b b' := by
  induction a using wellFounded_holds.induction generalizing b a' b' with
  | _ a ih =>
    have hsame : ∀ x, a.Holds x → ∀ y x' y', Relocated x y → Relocated x' y' →
        same x x' = same y y' := fun x hx _ _ _ hpaired hpaired' => ih x hx hpaired hpaired'
    rw [Schema.same_eq, Schema.same_eq,
      sameApart_eq_of_alike hsame h.alike h.fullyAlike.description h'.alike
        h'.fullyAlike.description,
      sameTable_eq_of_forall₂ hsame h.fullyAlike.definitions h'.fullyAlike.definitions]

/-! ## References and resolution -/

section

variable {root other : Schema} (hroot : Relocated root other)

include hroot

theorem Relocated.agree_walk {current another : Schema} (h : Relocated current another)
    (segments : List String) :
    Agree Relocated (Reference.walk root current segments)
      (Reference.walk other another segments) := by
  induction segments generalizing current another with
  | nil => exact .ok h
  | cons segment rest ih =>
    rw [Reference.walk, Reference.walk]
    split
    · exact ih hroot
    · split
      · exact ih h
      · have hfound := Entries.rel_get? h.fullyAlike.definitions segment
        generalize Entries.get? current.definitions segment = found at hfound ⊢
        generalize Entries.get? another.definitions segment = foundMore at hfound ⊢
        cases hfound with
        | none => exact .error _ _
        | some hdefinition => exact ih hdefinition

theorem Relocated.agree_target (reference : String) :
    Agree Relocated (Reference.resolve root reference) (Reference.resolve other reference) :=
  (hroot.agree_walk hroot (Reference.segments reference)).mapError _ _

/-- Schemas that differ in addresses alone resolve to such schemas, or neither resolves. -/
theorem Relocated.agree_resolve {first second : Schema} (h : Relocated first second) :
    Agree Relocated (resolve root first) (resolve other second) :=
  Comparison.agree_resolve Relocated.alike hroot.agree_target Relocated.merge h

/-- The one-or-many pattern is found, or not found, whatever the addresses. -/
theorem Relocated.agree_isOneOrMany {single several one many : Schema} (hone : Relocated single one)
    (hmany : Relocated several many) :
    Agree (· = ·) (Document.isOneOrMany root single several)
      (Document.isOneOrMany other one many) :=
  Document.agree_isOneOrMany Relocated.alike Relocated.same_eq hroot.agree_resolve hone hmany

end

/-! ## Reading -/

open Json

section

variable {V : Json → Json → Prop}

theorem tablesPaired_self {found : Option Json}
    (h : ∀ value ∈ found.elim [] entryValues, V value value) :
    Option.Rel (TablesPaired V) found found := by
  cases found with
  | none => exact .none
  | some value =>
    cases value with
    | obj entries =>
      refine .some (.table (List.forall₂_same.mpr fun entry hmem => ⟨rfl, h _ ?_⟩))
      exact List.mem_map_of_mem hmem
    | _ => exact .some (.loose nofun)

theorem listsPaired_self {found : Option Json}
    (h : ∀ value ∈ found.elim [] listValues, V value value) :
    Option.Rel (ListsPaired V) found found := by
  cases found with
  | none => exact .none
  | some value =>
    cases value with
    | null => exact .some .null
    | arr values => exact .some (.list (List.forall₂_same.mpr h))
    | _ => exact .some (.loose ⟨nofun, nofun⟩ ⟨nofun, nofun⟩)

theorem itemsPaired_self {found : Option Json}
    (h : ∀ value ∈ found.elim [] itemValues, V value value) :
    Option.Rel (ItemsPaired V) found found := by
  cases found with
  | none => exact .none
  | some value =>
    cases value with
    | null => exact .some .null
    | arr values => exact .some (.list (List.forall₂_same.mpr h))
    | _ => exact .some (.single (h _ (List.mem_singleton_self _)) ⟨nofun, nofun⟩ ⟨nofun, nofun⟩)

theorem additionalPaired_self {found : Option Json}
    (h : ∀ value ∈ found.elim [] additionalValues, V value value) :
    Option.Rel (AdditionalPaired V) found found := by
  cases found with
  | none => exact .none
  | some value =>
    cases value with
    | bool allowed => exact .some (.permitted allowed)
    | _ => exact .some (.constrained (h _ (List.mem_singleton_self _)) nofun nofun)

/-- Members are paired with themselves when the schemas below them are. -/
theorem membersPaired_self {members : Entries Json}
    (h : ∀ value ∈ schemasBelow members, V value value) : MembersPaired V members members := by
  unfold schemasBelow at h
  simp only [List.forall_mem_append] at h
  obtain ⟨⟨⟨⟨⟨⟨hproperties, hitems⟩, hadditional⟩, hallOf⟩, hanyOf⟩, hdefinitions⟩, hfurther⟩ := h
  refine ⟨fun _ _ => rfl, ?_, ?_, itemsPaired_self hitems, additionalPaired_self hadditional⟩
  · simp only [List.forall_mem_cons, List.not_mem_nil, false_implies, implies_true, and_true]
    exact ⟨tablesPaired_self hproperties, tablesPaired_self hdefinitions,
      tablesPaired_self hfurther⟩
  · simp only [List.forall_mem_cons, List.not_mem_nil, false_implies, implies_true, and_true]
    exact ⟨listsPaired_self hallOf, listsPaired_self hanyOf⟩

end

/-- Read at any two places, a value gives schemas that differ in addresses alone, or none. -/
theorem agree_relocated_readAt (value : Json) (location another : String) :
    Agree Relocated (readAt location value) (readAt another value) := by
  induction value using wellFounded_below.induction generalizing location another with
  | _ value ih =>
    cases value with
    | obj members =>
      have hbelow : ∀ value ∈ schemasBelow members,
          ReadsAlike (fun _ _ => True) Relocated value value :=
        fun value hvalue location another _ => ih value ⟨hvalue⟩ location another
      refine (agree_readAt_obj (fun _ _ => trivial) (membersPaired_self hbelow) trivial).mono ?_
      rintro schema paired ⟨hlike, hdefinitions, ⟨hfirst, hsecond⟩, -⟩
      exact .of_fullyAlike ⟨hlike, hfirst.trans hsecond.symm, hdefinitions⟩
    | bool allowed =>
      have hlike : ∀ location another,
          Alike Relocated { location := location } { location := another } := fun _ _ =>
        ⟨rfl, rfl, .nil, rfl, .nil, .unspecified, .nil, .nil, rfl, rfl⟩
      exact .ok (.of_fullyAlike ⟨hlike location another, rfl, List.Forall₂.nil⟩)
    | _ => exact .error _ _

/-- All schemas that are read from one value differ in addresses alone. -/
theorem relocated_of_readOf {value : Json} {first second : Schema} (h : ReadOf value first)
    (hother : ReadOf value second) : Relocated first second := by
  obtain ⟨location, hfirst⟩ := h
  obtain ⟨another, hsecond⟩ := hother
  have hagree := agree_relocated_readAt value location another
  rw [hfirst, hsecond] at hagree
  cases hagree with
  | ok hrelocated => exact hrelocated

end Schema

namespace Document

open Schema

/-- Addresses decide nothing in an expansion. -/
theorem comparison_relocated (document : Document) : Comparison document document id Relocated where
  rootName := rfl
  alike := Relocated.alike
  description h := h.fullyAlike.description
  target := (Relocated.refl document.root).agree_target
  merge := Relocated.merge
  pair h hfirst hsecond :=
    (Relocated.refl document.root).agree_isOneOrMany (h.alike.pair hfirst hsecond).1
      (h.alike.pair hfirst hsecond).2

end Document

end SchemaForge
