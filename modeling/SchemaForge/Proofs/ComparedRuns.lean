import SchemaForge.Proofs.Expansion
import SchemaForge.Proofs.Leaves

/-! # Two expansions compared

Expansion looks at a schema keyword by keyword, so two documents whose schemas are paired keyword by
keyword expand alike: both fail, or both succeed with declarations that agree. The pairing has to
respect references, merges and the one-or-many pattern, where schemas are looked at as a whole. Each
step is compared in one direction first, from a success with the one document to a success with the
other; a pairing that can be read both ways gives the agreement.
-/

namespace SchemaForge

open Rust

/-! ## Outcomes that agree -/

/-- Both outcomes are failures, or they are values that are related. -/
inductive Agree {ε α β : Type} (R : α → β → Prop) : Except ε α → Except ε β → Prop
  | ok {first : α} {second : β} (h : R first second) : Agree R (.ok first) (.ok second)
  | error (first second : ε) : Agree R (.error first) (.error second)

namespace Agree

variable {ε α β γ δ : Type} {R : α → β → Prop} {S : γ → δ → Prop}
  {first : Except ε α} {second : Except ε β}

theorem flip (h : Agree R first second) : Agree (flip R) second first := by
  cases h with
  | ok h => exact .ok h
  | error => exact .error _ _

/-- Values that agree are those of the two runs. -/
theorem values (h : Agree R first second) :
    Agree (fun a b => first = .ok a ∧ second = .ok b ∧ R a b) first second := by
  cases h with
  | ok h => exact .ok ⟨rfl, rfl, h⟩
  | error => exact .error _ _

theorem mono {S : α → β → Prop} (h : Agree R first second) (hmono : ∀ a b, R a b → S a b) :
    Agree S first second := by
  cases h with
  | ok h => exact .ok (hmono _ _ h)
  | error => exact .error _ _

/-- Sequences agree when their parts do. -/
theorem bind {next : α → Except ε γ} {other : β → Except ε δ} (h : Agree R first second)
    (hnext : ∀ a b, R a b → Agree S (next a) (other b)) :
    Agree S (first.bind next) (second.bind other) := by
  cases h with
  | ok h => exact hnext _ _ h
  | error => exact .error _ _

/-- Values that agree may be changed alike. -/
theorem map {change : α → γ} {another : β → δ} (h : Agree R first second)
    (hchange : ∀ a b, R a b → S (change a) (another b)) :
    Agree S (first.map change) (second.map another) := by
  cases h with
  | ok h => exact .ok (hchange _ _ h)
  | error => exact .error _ _

/-- How failures are told makes no difference. -/
theorem mapError {ζ : Type} (h : Agree R first second) (tell another : ε → ζ) :
    Agree R (first.mapError tell) (second.mapError another) := by
  cases h with
  | ok h => exact .ok h
  | error => exact .error _ _

/-- A run agrees with itself on its value. -/
theorem same (outcome : Except ε α) : Agree (· = ·) outcome outcome := by
  cases outcome with
  | ok value => exact .ok rfl
  | error failure => exact .error failure failure

/-- Runs agree when a value of either one comes with a value of the other. -/
theorem of_forall_ok (h : ∀ a, first = .ok a → ∃ b, second = .ok b ∧ R a b)
    (hback : ∀ b, second = .ok b → ∃ a, first = .ok a) : Agree R first second := by
  cases first with
  | ok a =>
    obtain ⟨b, rfl, hrel⟩ := h a rfl
    exact .ok hrel
  | error failure =>
    cases second with
    | error another => exact .error failure another
    | ok b =>
      obtain ⟨a, ha⟩ := hback b rfl
      cases ha

/-- Where one run succeeds, so does the other one. -/
theorem exists_ok (h : Agree R first second) {a : α} (hfirst : first = .ok a) :
    ∃ b, second = .ok b ∧ R a b := by
  cases h with
  | ok h =>
    cases hfirst
    exact ⟨_, rfl, h⟩
  | error => cases hfirst

end Agree

/-- Every value of the first outcome comes with a value of the second one that is related to it. -/
def Follows {ε α β : Type} (R : α → β → Prop) (first : Except ε α) (second : Except ε β) : Prop :=
  ∀ a, first = .ok a → ∃ b, second = .ok b ∧ R a b

namespace Follows

variable {ε α β γ δ : Type} {R : α → β → Prop} {S : γ → δ → Prop}
  {first : Except ε α} {second : Except ε β}

theorem ok {a : α} {b : β} (h : R a b) : Follows R (.ok a : Except ε α) (.ok b : Except ε β) := by
  rintro _ ⟨⟩
  exact ⟨b, rfl, h⟩

theorem same (outcome : Except ε α) : Follows (· = ·) outcome outcome :=
  fun a h => ⟨a, h, rfl⟩

theorem mono {T : α → β → Prop} (h : Follows R first second) (hmono : ∀ a b, R a b → T a b) :
    Follows T first second := by
  intro a ha
  obtain ⟨b, hb, hrel⟩ := h a ha
  exact ⟨b, hb, hmono a b hrel⟩

/-- A sequence follows another one when its parts do. -/
theorem bind {next : α → Except ε γ} {other : β → Except ε δ} (h : Follows R first second)
    (hnext : ∀ a b, R a b → Follows S (next a) (other b)) :
    Follows S (first.bind next) (second.bind other) := by
  intro c hc
  obtain ⟨a, ha, hc⟩ := bind_eq_ok.mp hc
  obtain ⟨b, rfl, hrel⟩ := h a ha
  exact hnext a b hrel c hc

/-- How failures are told makes no difference. -/
theorem mapError {ζ : Type} (h : Follows R first second) (tell another : ε → ζ) :
    Follows R (first.mapError tell) (second.mapError another) := by
  intro a ha
  obtain ⟨b, hb, hrel⟩ := h a (mapError_eq_ok.mp ha)
  exact ⟨b, mapError_eq_ok.mpr hb, hrel⟩

end Follows

theorem Agree.follows {ε α β : Type} {R : α → β → Prop} {first : Except ε α} {second : Except ε β}
    (h : Agree R first second) : Follows R first second :=
  fun _ => h.exists_ok

/-- Outcomes agree when each follows the other. -/
theorem Agree.of_follows {ε α β : Type} {R : α → β → Prop} {first : Except ε α}
    {second : Except ε β} (h : Follows R first second) (hback : Follows (fun b a => R a b) second first) :
    Agree R first second :=
  .of_forall_ok h fun b hb => (hback b hb).imp fun _ ha => ha.1

/-- Runs that report events agree when their parts do. -/
theorem Traced.agree_bind {α β γ δ : Type} {R : α → β → Prop} {S : γ → δ → Prop}
    {first : Traced α} {second : Traced β} {next : α → Traced γ} {other : β → Traced δ}
    (h : Agree R first.outcome second.outcome)
    (hnext : ∀ a b, R a b → Agree S (next a).outcome (other b).outcome) :
    Agree S (first >>= next).outcome (second >>= other).outcome := by
  rw [outcome_bind, outcome_bind]
  exact h.bind hnext

theorem Traced.follows_bind {α β γ δ : Type} {R : α → β → Prop} {S : γ → δ → Prop}
    {first : Traced α} {second : Traced β} {next : α → Traced γ} {other : β → Traced δ}
    (h : Follows R first.outcome second.outcome)
    (hnext : ∀ a b, R a b → Follows S (next a).outcome (other b).outcome) :
    Follows S (first >>= next).outcome (second >>= other).outcome := by
  rw [outcome_bind, outcome_bind]
  exact h.bind hnext

/-! ## Schemas that are paired keyword by keyword -/

namespace Schema

/-- What two schemas say about additional properties is paired. -/
inductive AdditionalAlike (R : Schema → Schema → Prop) :
    Additional Schema → Additional Schema → Prop
  | unspecified : AdditionalAlike R .unspecified .unspecified
  | permitted (allowed : Bool) : AdditionalAlike R (.permitted allowed) (.permitted allowed)
  | constrained {first second : Schema} (h : R first second) :
      AdditionalAlike R (.constrained first) (.constrained second)

theorem AdditionalAlike.flip {R : Schema → Schema → Prop} {first second : Additional Schema}
    (h : AdditionalAlike R first second) : AdditionalAlike (flip R) second first := by
  cases h with
  | unspecified => exact .unspecified
  | permitted allowed => exact .permitted allowed
  | constrained h => exact .constrained h

/-- Both say nothing, both say yes or no, or both hold a schema. -/
theorem additionalAlike_cases {R : Schema → Schema → Prop} {first second : Additional Schema}
    (h : AdditionalAlike R first second) :
    (first = .unspecified ∧ second = .unspecified) ∨
      (∃ allowed, first = .permitted allowed ∧ second = .permitted allowed) ∨
      ∃ held paired, first = .constrained held ∧ second = .constrained paired ∧ R held paired := by
  cases h with
  | unspecified => exact Or.inl ⟨rfl, rfl⟩
  | permitted allowed => exact Or.inr (Or.inl ⟨allowed, rfl, rfl⟩)
  | constrained h => exact Or.inr (Or.inr ⟨_, _, rfl, rfl, h⟩)

/-- Two schemas are the same apart from the schemas they hold, which are paired in order, and apart
from descriptions, definitions and addresses. -/
structure Alike (R : Schema → Schema → Prop) (first second : Schema) : Prop where
  reference : first.reference = second.reference
  types : first.types = second.types
  properties : List.Forall₂ (fun property other => property.1 = other.1 ∧ R property.2 other.2)
    first.properties second.properties
  required : first.required = second.required
  items : List.Forall₂ R first.items second.items
  additional : AdditionalAlike R first.additional second.additional
  allOf : List.Forall₂ R first.allOf second.allOf
  anyOf : List.Forall₂ R first.anyOf second.anyOf
  enumeration : first.enumeration = second.enumeration
  defaultValue : first.defaultValue = second.defaultValue

/-- A schema is like itself when the schemas it holds are paired with themselves. -/
theorem Alike.refl {R : Schema → Schema → Prop} (hrefl : ∀ schema, R schema schema)
    (schema : Schema) : Alike R schema schema where
  reference := rfl
  types := rfl
  properties := List.forall₂_same.mpr fun property _ => ⟨rfl, hrefl property.2⟩
  required := rfl
  items := List.forall₂_same.mpr fun item _ => hrefl item
  additional := by
    cases schema.additional with
    | unspecified => exact .unspecified
    | permitted allowed => exact .permitted allowed
    | constrained value => exact .constrained (hrefl value)
  allOf := List.forall₂_same.mpr fun component _ => hrefl component
  anyOf := List.forall₂_same.mpr fun alternative _ => hrefl alternative
  enumeration := rfl
  defaultValue := rfl

theorem Alike.flip {R : Schema → Schema → Prop} {first second : Schema} (h : Alike R first second) :
    Alike (flip R) second first where
  reference := h.reference.symm
  types := h.types.symm
  properties := h.properties.flip.imp fun _ _ hproperty => ⟨hproperty.1.symm, hproperty.2⟩
  required := h.required.symm
  items := h.items.flip
  additional := h.additional.flip
  allOf := h.allOf.flip
  anyOf := h.anyOf.flip
  enumeration := h.enumeration.symm
  defaultValue := h.defaultValue.symm

/-- The pairing may be told otherwise for the schemas that are held. -/
theorem Alike.imp {R S : Schema → Schema → Prop} {first second : Schema}
    (h : Alike R first second) (himp : ∀ a, first.Holds a → ∀ b, R a b → S a b) :
    Alike S first second where
  reference := h.reference
  types := h.types
  properties := forall₂_of_zip h.properties fun _ _ hmem hrel =>
    ⟨hrel.1, himp _ (.property (List.of_mem_zip hmem).1) _ hrel.2⟩
  required := h.required
  items := forall₂_of_zip h.items fun _ _ hmem => himp _ (.item (List.of_mem_zip hmem).1) _
  additional := by
    rcases additionalAlike_cases h.additional with
      ⟨hfirst, hsecond⟩ | ⟨allowed, hfirst, hsecond⟩ | ⟨held, other, hfirst, hsecond, hheld⟩ <;>
      rw [hfirst, hsecond]
    · exact .unspecified
    · exact .permitted allowed
    · exact .constrained (himp _ (.additional hfirst) _ hheld)
  allOf := forall₂_of_zip h.allOf fun _ _ hmem => himp _ (.component (List.of_mem_zip hmem).1) _
  anyOf := forall₂_of_zip h.anyOf fun _ _ hmem => himp _ (.alternative (List.of_mem_zip hmem).1) _
  enumeration := h.enumeration
  defaultValue := h.defaultValue

theorem Alike.mono {R S : Schema → Schema → Prop} (hmono : ∀ a b, R a b → S a b)
    {first second : Schema} (h : Alike R first second) : Alike S first second :=
  h.imp fun a _ => hmono a

/-- Where both have two alternatives, these are paired. -/
theorem Alike.pair {R : Schema → Schema → Prop} {first second : Schema} (h : Alike R first second)
    {single several one many : Schema} (hfirst : first.anyOf = [single, several])
    (hsecond : second.anyOf = [one, many]) : R single one ∧ R several many := by
  have hanyOf := h.anyOf
  rw [hfirst, hsecond] at hanyOf
  simpa using hanyOf

theorem Alike.noPair {R : Schema → Schema → Prop} {first second : Schema}
    (h : Alike R first second) (hpair : first.NoPair) : second.NoPair := by
  intro single several hsecond
  have hanyOf := h.anyOf
  rw [hsecond] at hanyOf
  obtain ⟨other, more, -, hmore, hfirst⟩ := List.forall₂_cons_right_iff.mp hanyOf
  obtain ⟨another, rest, -, hrest, rfl⟩ := List.forall₂_cons_right_iff.mp hmore
  rw [List.forall₂_nil_right_iff.mp hrest] at hfirst
  exact hpair other another hfirst

end Schema

/-! ## Declarations that tell their descriptions -/

namespace Rust

/-- A field that tells another description. -/
def Field.redescribe (told : Option String → Option String) (field : Field) : Field :=
  { field with description := told field.description }

/-- A declaration that tells other descriptions, its own one and those of its fields. -/
def Declaration.redescribe (told : Option String → Option String) : Declaration → Declaration
  | struct declared => .struct { declared with
      fields := declared.fields.map (Field.redescribe told)
      description := told declared.description }
  | enum declared => .enum { declared with description := told declared.description }
  | typeAlias declared => .typeAlias { declared with description := told declared.description }

@[simp] theorem Declaration.redescribe_id (declaration : Declaration) :
    declaration.redescribe id = declaration := by
  have hfields : Field.redescribe id = id := rfl
  cases declaration <;> simp [redescribe, hfields]

theorem Declaration.redescribe_describe (told : Option String → Option String)
    (declaration : Declaration) (description : Option String) :
    (declaration.describe description).redescribe told
      = (declaration.redescribe told).describe (told description) := by
  cases declaration <;> rfl

end Rust

open Schema

/-! ## The one-or-many pattern -/

namespace Document

variable {R : Schema → Schema → Prop} {root other : Schema}
  (hlike : ∀ {a b}, R a b → Alike R a b)
  (hsame : ∀ {a b a' b'}, R a b → R a' b' → same a a' = same b b')

include hlike hsame

/-- Whether alternatives make the one-or-many pattern, it is told of their partners as well. -/
theorem follows_isOneOrMany
    (hresolve : ∀ {a b}, R a b → Follows R (Schema.resolve root a) (Schema.resolve other b))
    {single several one many : Schema} (hone : R single one) (hmany : R several many) :
    Follows (· = ·) (isOneOrMany root single several) (isOneOrMany other one many) := by
  rw [isOneOrMany, isOneOrMany]
  refine Follows.bind (hresolve hone) fun first paired hfirst => ?_
  refine Follows.bind (hresolve hmany) fun list further hlist => ?_
  have hitems := (hlike hlist).items
  rw [← (hlike hlist).types]
  generalize list.types = types
  generalize list.items = items at hitems ⊢
  generalize further.items = others at hitems ⊢
  -- the alternative must be an array, and its first item is the one that is compared
  cases types with
  | nil => exact .ok rfl
  | cons type more =>
    cases type with
    | array =>
      cases hitems with
      | nil => exact .ok rfl
      | cons hitem _ =>
        exact Follows.bind (hresolve hitem) fun _ _ hheld => .ok (hsame hfirst hheld)
    | _ => exact .ok rfl

theorem agree_isOneOrMany
    (hresolve : ∀ {a b}, R a b → Agree R (Schema.resolve root a) (Schema.resolve other b))
    {single several one many : Schema} (hone : R single one) (hmany : R several many) :
    Agree (· = ·) (isOneOrMany root single several) (isOneOrMany other one many) := by
  refine .of_follows (follows_isOneOrMany hlike hsame (fun h => (hresolve h).follows) hone hmany) ?_
  refine (follows_isOneOrMany (R := flip R) (fun h => (hlike h).flip)
    (fun h h' => (hsame h h').symm) (fun h => (hresolve h).flip.follows) hone hmany).mono ?_
  exact fun _ _ => Eq.symm

end Document

/-- Every look at a schema of the first document that succeeds is matched by the same look at the
paired schema of the second one. Descriptions are compared after `told` only. -/
structure Simulation (first second : Document) (told : Option String → Option String)
    (R : Schema → Schema → Prop) : Prop where
  rootName : first.rootName = second.rootName
  alike : ∀ {a b}, R a b → Alike R a b
  description : ∀ {a b}, R a b → told a.description = told b.description
  resolve : ∀ {a b}, R a b →
    Follows R (Schema.resolve first.root a) (Schema.resolve second.root b)
  pair : ∀ {a b single several single' several'}, R a b → a.anyOf = [single, several] →
    b.anyOf = [single', several'] →
    Follows (· = ·) (Document.isOneOrMany first.root single several)
      (Document.isOneOrMany second.root single' several')

namespace Simulation

variable {first second : Document} {told : Option String → Option String}
  {R : Schema → Schema → Prop} (h : Simulation first second told R)

include h

/-! ## Inference -/

theorem follows_typeName (reference : String) :
    Follows (· = ·) (Reference.typeName first.rootName reference)
      (Reference.typeName second.rootName reference) := by
  rw [h.rootName]
  exact .same _

theorem follows_inferByType {a b : Schema} (hrel : R a b)
    (ih : ∀ held other, a.Holds held → R held other →
      Follows (· = ·) (Document.infer first held).outcome (Document.infer second other).outcome) :
    Follows (· = ·) (Document.inferByType first a).outcome
      (Document.inferByType second b).outcome := by
  have hlike := h.alike hrel
  rw [Document.inferByType, Document.inferByType, ← hlike.types, ← hlike.enumeration,
    ← hlike.defaultValue]
  split
  case h_5 =>
    rcases additionalAlike_cases hlike.additional with
      ⟨hfirst, hsecond⟩ | ⟨allowed, hfirst, hsecond⟩ | ⟨value, other, hfirst, hsecond, hvalue⟩ <;>
      rw [hfirst, hsecond]
    · exact .ok rfl
    · cases allowed <;> exact .ok rfl
    · refine Traced.follows_bind (ih value other (.additional hfirst) hvalue) ?_
      rintro item _ rfl
      exact .ok rfl
  case h_6 =>
    have hitems := hlike.items
    cases hfirst : a.items with
    | nil =>
      rw [hfirst] at hitems
      rw [List.forall₂_nil_left_iff.mp hitems]
      exact .ok rfl
    | cons item rest =>
      rw [hfirst] at hitems
      obtain ⟨other, more, hitem, -, hsecond⟩ := List.forall₂_cons_left_iff.mp hitems
      rw [hsecond]
      refine Traced.follows_bind (ih item other (.item (by simp [hfirst])) hitem) ?_
      rintro item _ rfl
      exact .ok rfl
  all_goals exact .ok rfl

/-- A type that is inferred for the first of paired schemas is inferred for the second one. -/
theorem follows_infer {a b : Schema} (hrel : R a b) :
    Follows (· = ·) (Document.infer first a).outcome (Document.infer second b).outcome := by
  induction a using Schema.wellFounded_holds.induction generalizing b with
  | _ a ih =>
    have hlike := h.alike hrel
    cases href : a.reference with
    | some reference =>
      rw [Document.infer_of_reference href, Document.infer_of_reference (hlike.reference ▸ href)]
      refine Traced.follows_bind (h.follows_typeName reference) ?_
      rintro name _ rfl
      exact .ok rfl
    | none =>
      by_cases hpair : ∃ single several, a.anyOf = [single, several]
      · obtain ⟨single, several, hpair⟩ := hpair
        have hanyOf := hlike.anyOf
        rw [hpair] at hanyOf
        obtain ⟨other, more, hsingle, hmore, hother⟩ := List.forall₂_cons_left_iff.mp hanyOf
        obtain ⟨another, rest, -, hrest, rfl⟩ := List.forall₂_cons_left_iff.mp hmore
        rw [List.forall₂_nil_left_iff.mp hrest] at hother
        rw [Document.infer_of_pair href hpair,
          Document.infer_of_pair (hlike.reference ▸ href) hother]
        refine Traced.follows_bind (h.pair hrel hpair hother) ?_
        rintro same _ rfl
        cases same with
        | true =>
          refine Traced.follows_bind (ih single (.alternative (by simp [hpair])) hsingle) ?_
          rintro item _ rfl
          exact .ok rfl
        | false => exact .ok rfl
      · have hno : a.NoPair := fun single several hsome => hpair ⟨single, several, hsome⟩
        rw [Document.infer_of_noPair href hno,
          Document.infer_of_noPair (hlike.reference ▸ href) (hlike.noPair hno)]
        exact h.follows_inferByType hrel fun held other hheld hother => ih held hheld hother

/-! ## Declarations -/

/-- Paired properties become the same fields, apart from what their descriptions tell. -/
theorem follows_expandFields {properties others : Entries Schema}
    (hpaired : List.Forall₂ (fun property other => property.1 = other.1 ∧ R property.2 other.2)
      properties others) (holder : String) (required used : List String) :
    Follows (fun fields more => fields.map (Field.redescribe told) = more.map (Field.redescribe told))
      (Document.expandFields first holder required used properties).outcome
      (Document.expandFields second holder required used others).outcome := by
  induction hpaired generalizing used with
  | nil => exact .ok rfl
  | @cons property other _ _ hproperty _ ih =>
    obtain ⟨key, schema⟩ := property
    obtain ⟨otherKey, otherSchema⟩ := other
    obtain ⟨rfl, hrel⟩ := hproperty
    rw [Document.expandFields, Document.expandFields]
    refine Traced.follows_bind (R := fun _ _ => True) (.ok trivial) fun _ _ _ => ?_
    refine Traced.follows_bind (h.follows_infer hrel) ?_
    rintro inferred _ rfl
    refine Traced.follows_bind (ih _) fun fields more hfields => .ok ?_
    rw [List.map_cons, List.map_cons, hfields]
    simp only [Field.redescribe, h.description hrel]

/-- Paired schemas of one name become the same declaration, apart from what the descriptions of
its fields tell. -/
theorem follows_expandSchema (sourceName : String) {a b : Schema} (hrel : R a b) :
    Follows (fun declaration other => declaration.redescribe told = other.redescribe told)
      (Document.expandSchema first sourceName a).outcome
      (Document.expandSchema second sourceName b).outcome := by
  have hvalues : Document.enumerated a = Document.enumerated b :=
    congrArg (·.getD []) (h.alike hrel).enumeration
  rw [Document.expandSchema, Document.expandSchema]
  refine Traced.follows_bind (h.resolve hrel) ?_
  intro resolved merged hresolved
  have hlike := h.alike hresolved
  rw [← hlike.required]
  refine Traced.follows_bind (h.follows_expandFields hlike.properties _ _ _) ?_
  intro fields more hfields
  refine Traced.follows_bind (R := fun declaration other =>
    declaration.redescribe told = other.redescribe told) ?_ fun _ _ hmade => .ok hmade
  rw [← hvalues]
  cases fields with
  | cons field rest =>
    obtain ⟨other, others, rfl⟩ : ∃ other others, more = other :: others := by
      cases more with
      | nil => cases hfields
      | cons other others => exact ⟨other, others, rfl⟩
    refine .ok ?_
    have hdefault := congrArg (fun fields => fields.all fun field => field.type.isOptional) hfields
    simp only [List.all_map, Function.comp_def, Field.redescribe] at hdefault
    simp only [Declaration.redescribe, hfields, hdefault]
  | nil =>
    obtain rfl : more = [] := List.map_eq_nil_iff.mp hfields.symm
    cases Document.enumerated a with
    | cons value values =>
      refine Traced.follows_bind (.same _) ?_
      rintro variants _ rfl
      exact .ok rfl
    | nil =>
      refine Traced.follows_bind (h.follows_infer hrel) ?_
      rintro inferred _ rfl
      exact .ok rfl

end Simulation

/-- The schemas of two documents are paired so that no look at them tells them apart: not keyword by
keyword, not by following a reference, not by merging them, and not by asking whether two
alternatives make the one-or-many pattern. Descriptions are compared after `told` only. -/
structure Comparison (first second : Document) (told : Option String → Option String)
    (R : Schema → Schema → Prop) : Prop where
  rootName : first.rootName = second.rootName
  alike : ∀ {a b}, R a b → Alike R a b
  description : ∀ {a b}, R a b → told a.description = told b.description
  target : ∀ reference, Agree R (Reference.resolve first.root reference)
    (Reference.resolve second.root reference)
  merge : ∀ {a b a' b'}, R a b → R a' b' → R (a.merge a') (b.merge b')
  pair : ∀ {a b single several single' several'}, R a b → a.anyOf = [single, several] →
    b.anyOf = [single', several'] →
    Agree (· = ·) (Document.isOneOrMany first.root single several)
      (Document.isOneOrMany second.root single' several')

namespace Comparison

variable {first second : Document} {told : Option String → Option String}
  {R : Schema → Schema → Prop}

/-! ## Resolution -/

section

variable {root other : Schema} (hlike : ∀ {a b}, R a b → Alike R a b)
  (htarget : ∀ reference, Agree R (Reference.resolve root reference)
    (Reference.resolve other reference))

include hlike htarget

theorem agree_standsFor {a b : Schema} (h : R a b) :
    Agree R (standsFor root a) (standsFor other b) := by
  rw [standsFor, standsFor, ← (hlike h).reference]
  cases a.reference with
  | none => exact .ok h
  | some reference => exact htarget reference

omit hlike htarget in
/-- Once each component has paired leaves, so have all of them together. -/
theorem exists_parts {components others : List Schema} {parts : List (List Schema)}
    (hparts : List.Forall₂ (fun component leaves => ∀ paired, R component paired →
      ∃ more, Leaves other paired more ∧ List.Forall₂ R leaves more) components parts)
    (h : List.Forall₂ R components others) :
    ∃ more, List.Forall₂ (Leaves other) others more
      ∧ List.Forall₂ R parts.flatten more.flatten := by
  induction hparts generalizing others with
  | nil =>
    cases h
    exact ⟨[], List.Forall₂.nil, List.Forall₂.nil⟩
  | cons hfirst _ ih =>
    cases h with
    | cons hpaired hrest =>
      obtain ⟨leaves, hleaves, hrel⟩ := hfirst _ hpaired
      obtain ⟨more, hmore, hrels⟩ := ih hrest
      exact ⟨leaves :: more, List.Forall₂.cons hleaves hmore, List.rel_append hrel hrels⟩

/-- Paired schemas have paired leaves. -/
theorem exists_leaves {a b : Schema} {leaves : List Schema} (hleaves : Leaves root a leaves)
    (h : R a b) : ∃ others, Leaves other b others ∧ List.Forall₂ R leaves others := by
  induction hleaves using Leaves.recOn_parts generalizing b with
  | leaf hbody hplain =>
    obtain ⟨body, hother, hrel⟩ := (agree_standsFor hlike htarget h).exists_ok hbody
    have hallOf := (hlike hrel).allOf
    rw [hplain] at hallOf
    refine ⟨[body], .leaf hother (List.forall₂_nil_left_iff.mp hallOf), ?_⟩
    exact List.Forall₂.cons hrel List.Forall₂.nil
  | components hbody hsome _ ih =>
    obtain ⟨body, hother, hrel⟩ := (agree_standsFor hlike htarget h).exists_ok hbody
    have hallOf := (hlike hrel).allOf
    obtain ⟨more, hmore, hrels⟩ :=
      exists_parts (ih.imp fun _ _ ⟨_, hpart⟩ _ hpaired => hpart hpaired) hallOf
    refine ⟨more.flatten, .components hother ?_ hmore, hrels⟩
    intro hnil
    rw [hnil] at hallOf
    exact hsome (List.forall₂_nil_right_iff.mp hallOf)

end

/-- Folds of merges over paired schemas are paired. -/
theorem exists_mergeAll (hmerge : ∀ {a b a' b'}, R a b → R a' b' → R (a.merge a') (b.merge b'))
    {leaves others : List Schema} (h : List.Forall₂ R leaves others) {result : Schema}
    (hresult : mergeAll leaves = some result) :
    ∃ merged, mergeAll others = some merged ∧ R result merged := by
  cases h with
  | nil => cases hresult
  | @cons a b rest more hfirst hrest =>
    cases hresult
    refine ⟨more.foldl Schema.merge b, rfl, ?_⟩
    -- the fold starts from paired schemas, and each merge keeps them paired
    induction hrest generalizing a b with
    | nil => exact hfirst
    | cons hnext _ ih => exact ih (hmerge hfirst hnext)

theorem exists_resolve {root other a b result : Schema} (hlike : ∀ {a b}, R a b → Alike R a b)
    (htarget : ∀ reference, Agree R (Reference.resolve root reference)
      (Reference.resolve other reference))
    (hmerge : ∀ {a b a' b'}, R a b → R a' b' → R (a.merge a') (b.merge b')) (h : R a b)
    (hresult : Schema.resolve root a = .ok result) :
    ∃ merged, Schema.resolve other b = .ok merged ∧ R result merged := by
  obtain ⟨leaves, hleaves, hfold⟩ := resolve_eq_ok_iff.mp hresult
  obtain ⟨others, hothers, hrel⟩ := exists_leaves hlike htarget hleaves h
  obtain ⟨merged, hmerged, hpaired⟩ := exists_mergeAll hmerge hrel hfold
  exact ⟨merged, resolve_eq_ok_iff.mpr ⟨others, hothers, hmerged⟩, hpaired⟩

/-- Paired schemas resolve to paired schemas, or neither of them resolves. -/
theorem agree_resolve {root other : Schema} (hlike : ∀ {a b}, R a b → Alike R a b)
    (htarget : ∀ reference, Agree R (Reference.resolve root reference)
      (Reference.resolve other reference))
    (hmerge : ∀ {a b a' b'}, R a b → R a' b' → R (a.merge a') (b.merge b')) {a b : Schema}
    (h : R a b) : Agree R (Schema.resolve root a) (Schema.resolve other b) := by
  refine .of_forall_ok (fun result hresult => exists_resolve hlike htarget hmerge h hresult) ?_
  intro merged hmerged
  -- the pairing is read the other way
  obtain ⟨result, hresult, -⟩ := exists_resolve (R := flip R) (fun h => (hlike h).flip)
    (fun reference => (htarget reference).flip) (fun h h' => hmerge h h') h hmerged
  exact ⟨result, hresult⟩

/-- Seen from the second document, the schemas are paired as well. -/
theorem flip (h : Comparison first second told R) : Comparison second first told (flip R) where
  rootName := h.rootName.symm
  alike hrel := (h.alike hrel).flip
  description hrel := (h.description hrel).symm
  target reference := (h.target reference).flip
  merge := h.merge
  pair hrel hfirst hsecond := (h.pair hrel hsecond hfirst).flip.mono fun _ _ => Eq.symm

theorem simulation (h : Comparison first second told R) : Simulation first second told R where
  rootName := h.rootName
  alike := h.alike
  description := h.description
  resolve hrel := (agree_resolve h.alike h.target h.merge hrel).follows
  pair hrel hfirst hsecond := (h.pair hrel hfirst hsecond).follows

/-! ## Expansion -/

variable (h : Comparison first second told R)

include h

/-- The same type is inferred for paired schemas, or none for either. -/
theorem agree_infer {a b : Schema} (hrel : R a b) :
    Agree (· = ·) (Document.infer first a).outcome (Document.infer second b).outcome :=
  .of_follows (h.simulation.follows_infer hrel)
    ((h.flip.simulation.follows_infer hrel).mono fun _ _ => Eq.symm)

/-- Paired schemas of one name become the same declaration, apart from what the descriptions of
its fields tell. -/
theorem agree_expandSchema (sourceName : String) {a b : Schema} (hrel : R a b) :
    Agree (fun declaration other => declaration.redescribe told = other.redescribe told)
      (Document.expandSchema first sourceName a).outcome
      (Document.expandSchema second sourceName b).outcome :=
  .of_follows (h.simulation.follows_expandSchema sourceName hrel)
    ((h.flip.simulation.follows_expandSchema sourceName hrel).mono fun _ _ => Eq.symm)

/-- Paired definitions become the same declarations, apart from what their descriptions tell. -/
theorem agree_expandDefinitions {definitions others : Entries Schema}
    (hpaired : List.Forall₂ (fun definition other =>
      definition.1 = other.1 ∧ R definition.2 other.2) definitions others) :
    Agree (fun declarations more =>
        declarations.map (Declaration.redescribe told) = more.map (Declaration.redescribe told))
      (Document.expandDefinitions first definitions).outcome
      (Document.expandDefinitions second others).outcome := by
  induction hpaired with
  | nil => exact .ok rfl
  | @cons definition other _ _ hdefinition _ ih =>
    obtain ⟨name, schema⟩ := definition
    obtain ⟨otherName, otherSchema⟩ := other
    obtain ⟨rfl, hrel⟩ := hdefinition
    rw [Document.expandDefinitions, Document.expandDefinitions]
    refine Traced.agree_bind (h.agree_expandSchema _ hrel) fun made another hmade => ?_
    refine Traced.agree_bind ih fun declarations more hmore => .ok ?_
    rw [List.map_cons, List.map_cons, Declaration.redescribe_describe,
      Declaration.redescribe_describe, hmade, h.description hrel, hmore]

/-- Documents become the same declarations when their roots and their definitions are paired. -/
theorem agree_expandAll (hroot : R first.root second.root)
    (hdefinitions : List.Forall₂ (fun definition other =>
      definition.1 = other.1 ∧ R definition.2 other.2)
      first.root.definitions second.root.definitions) :
    Agree (fun declarations more =>
        declarations.map (Declaration.redescribe told) = more.map (Declaration.redescribe told))
      (Document.expandAll first).outcome (Document.expandAll second).outcome := by
  rw [Document.expandAll, Document.expandAll, ← h.rootName]
  refine Traced.agree_bind (h.agree_expandDefinitions hdefinitions) fun declarations more hmore => ?_
  cases first.rootName with
  | none => exact .ok hmore
  | some name =>
    refine Traced.agree_bind (h.agree_expandSchema name hroot) fun made another hmade => .ok ?_
    rw [List.map_append, List.map_append, hmore, List.map_singleton, List.map_singleton, hmade]

end Comparison

end SchemaForge
