import SchemaForge.Expansion
import SchemaForge.Proofs.Basic

/-! # Rules of inference

Type inference as a set of rules, one for each form of schema that it tells apart. Facts about
inferred types are proved along the rules: which layers a type has, when it comes with a default,
and which references name the types that it mentions.
-/

namespace SchemaForge

open Rust

namespace Traced

variable {α β : Type}

@[simp] theorem outcome_quietly (outcome : Except Error α) :
    (quietly outcome).outcome = outcome := rfl

@[simp] theorem outcome_report (event : Event) : (report event).outcome = .ok () := rfl

@[simp] theorem outcome_reportIf (condition : Bool) (event : Event) :
    (reportIf condition event).outcome = .ok () := rfl

/-- A sequence has a value when both of its parts have one. -/
theorem outcome_bind_eq_ok {first : Traced α} {next : α → Traced β} {value : β} :
    (first >>= next).outcome = .ok value
      ↔ ∃ middle, first.outcome = .ok middle ∧ (next middle).outcome = .ok value := by
  rw [outcome_bind]
  exact bind_eq_ok

end Traced

namespace Schema

/-- The alternatives of a schema are not exactly two. -/
def NoPair (schema : Schema) : Prop :=
  ∀ single several, schema.anyOf ≠ [single, several]

/-- A schema holds the ones that stand directly under its keywords. -/
inductive Holds (schema : Schema) : Schema → Prop
  | property {key : String} {held : Schema} (h : (key, held) ∈ schema.properties) :
      Holds schema held
  | item {held : Schema} (h : held ∈ schema.items) : Holds schema held
  | additional {held : Schema} (h : schema.additional = .constrained held) : Holds schema held
  | component {held : Schema} (h : held ∈ schema.allOf) : Holds schema held
  | alternative {held : Schema} (h : held ∈ schema.anyOf) : Holds schema held
  | definition {key : String} {held : Schema} (h : (key, held) ∈ schema.definitions) :
      Holds schema held

theorem Holds.sizeOf_lt {schema held : Schema} (h : schema.Holds held) :
    sizeOf held < sizeOf schema := by
  obtain ⟨reference, types, properties, required, items, additional, allOf, anyOf, enumeration,
    defaultValue, description, definitions, location⟩ := schema
  rw [mk.sizeOf_spec]
  cases h with
  | property hmem | definition hmem =>
    have hentry := List.sizeOf_lt_of_mem hmem
    simp only [Prod.mk.sizeOf_spec] at hentry
    omega
  | item hmem | component hmem | alternative hmem =>
    have hitem := List.sizeOf_lt_of_mem hmem
    simp only at hitem
    omega
  | additional hvalue =>
    obtain rfl : additional = .constrained held := hvalue
    rw [Additional.constrained.sizeOf_spec]
    omega

/-- No schema is held by itself at any depth, so properties of schemas may be proved from those
they hold. -/
theorem wellFounded_holds : WellFounded fun held schema => Holds schema held :=
  Subrelation.wf Holds.sizeOf_lt (measure sizeOf).wf

end Schema

namespace Document

/-! ## Inference form by form -/

/-- What the keyword `type` says about the type of a schema. -/
def inferByType (document : Document) (schema : Schema) : Traced Inferred :=
  match schema.types with
  | [.string] =>
    return match schema.enumeration with
      | some [] => ⟨.any, false⟩
      | _ => ⟨.primitive "String", false⟩
  | [.integer] => return ⟨.primitive "i64", false⟩
  | [.number] => return ⟨.primitive "f64", false⟩
  | [.boolean] => return ⟨.primitive "bool", false⟩
  | [.object] =>
    match schema.additional with
    | .unspecified | .permitted false => return ⟨.any, false⟩
    | .permitted true => return ⟨.map .any, defaultsToEmpty schema.defaultValue⟩
    | .constrained value => do
      let value ← infer document value
      return ⟨.map value.type, defaultsToEmpty schema.defaultValue⟩
  | [.array] =>
    match schema.items with
    | [] => return ⟨.array .any, false⟩
    | item :: _ => do
      let item ← infer document item
      return ⟨.array item.type, false⟩
  | _ => return ⟨.any, false⟩

section

variable {document : Document} {schema : Schema}

theorem infer_of_reference {reference : String} (href : schema.reference = some reference) :
    infer document schema = (do
      let name ← Traced.quietly (Reference.typeName document.rootName reference)
      return ⟨.named name, false⟩) := by
  obtain ⟨own⟩ := schema
  obtain rfl : own = some reference := href
  rw [infer.eq_def]

theorem infer_of_pair {single several : Schema} (href : schema.reference = none)
    (hpair : schema.anyOf = [single, several]) :
    infer document schema = (do
      if ← Traced.quietly (isOneOrMany document.root single several) then
        let item ← infer document single
        Traced.report (.oneOrManyDetected schema.location)
        return ⟨.oneOrMany item.type, true⟩
      else
        return ⟨.any, false⟩) := by
  obtain ⟨own, _, _, _, _, _, _, anyOf⟩ := schema
  obtain rfl : own = none := href
  obtain rfl : anyOf = [single, several] := hpair
  rw [infer.eq_def]

/-- Without alternatives that make a pair, the keyword `type` decides. -/
theorem infer_of_noPair (href : schema.reference = none) (hpair : schema.NoPair) :
    infer document schema = inferByType document schema := by
  obtain ⟨own⟩ := schema
  obtain rfl : own = none := href
  rw [infer.eq_def]
  dsimp only
  split
  · exact absurd rfl (hpair _ _)
  · rfl

end

/-! ## The rules -/

/-- The names of the types for texts, numbers and truth values. -/
def primitiveNames : List String := ["String", "i64", "f64", "bool"]

/-- What may be inferred for a schema. -/
inductive Inference (document : Document) : Schema → Inferred → Prop
  | reference {schema : Schema} {reference name : String}
      (href : schema.reference = some reference)
      (hname : Reference.typeName document.rootName reference = .ok name) :
      Inference document schema ⟨.named name, false⟩
  | oneOrMany {schema single several : Schema} {item : Inferred}
      (href : schema.reference = none) (hpair : schema.anyOf = [single, several])
      (hsame : isOneOrMany document.root single several = .ok true)
      (hitem : Inference document single item) :
      Inference document schema ⟨.oneOrMany item.type, true⟩
  | otherPair {schema single several : Schema}
      (href : schema.reference = none) (hpair : schema.anyOf = [single, several])
      (hsame : isOneOrMany document.root single several = .ok false) :
      Inference document schema ⟨.any, false⟩
  | primitive {schema : Schema} {type : SimpleType} {name : String}
      (hname : name ∈ primitiveNames)
      (href : schema.reference = none) (hpair : schema.NoPair)
      (htypes : schema.types = [type]) (hobject : type ≠ .object) (harray : type ≠ .array) :
      Inference document schema ⟨.primitive name, false⟩
  | map {schema value : Schema} {item : Inferred}
      (href : schema.reference = none) (hpair : schema.NoPair)
      (htypes : schema.types = [.object]) (hvalue : schema.additional = .constrained value)
      (hitem : Inference document value item) :
      Inference document schema ⟨.map item.type, defaultsToEmpty schema.defaultValue⟩
  | mapOfAny {schema : Schema}
      (href : schema.reference = none) (hpair : schema.NoPair)
      (htypes : schema.types = [.object]) (hvalue : schema.additional = .permitted true) :
      Inference document schema ⟨.map .any, defaultsToEmpty schema.defaultValue⟩
  | array {schema first : Schema} {rest : List Schema} {item : Inferred}
      (href : schema.reference = none) (hpair : schema.NoPair)
      (htypes : schema.types = [.array]) (hitems : schema.items = first :: rest)
      (hitem : Inference document first item) :
      Inference document schema ⟨.array item.type, false⟩
  | arrayOfAny {schema : Schema}
      (href : schema.reference = none) (hpair : schema.NoPair)
      (htypes : schema.types = [.array]) (hitems : schema.items = []) :
      Inference document schema ⟨.array .any, false⟩
  | any {schema : Schema}
      (href : schema.reference = none) (hpair : schema.NoPair)
      (hobject : ∀ value, schema.types = [.object] → schema.additional ≠ .constrained value)
      (harray : schema.types ≠ [.array]) :
      Inference document schema ⟨.any, false⟩

theorem inference_of_noPair {document : Document} {schema : Schema} {inferred : Inferred}
    (href : schema.reference = none) (hpair : schema.NoPair)
    (ih : ∀ held, schema.Holds held → ∀ {inferred : Inferred},
      (infer document held).outcome = .ok inferred → Inference document held inferred)
    (h : (infer document schema).outcome = .ok inferred) :
    Inference document schema inferred := by
  rw [infer_of_noPair href hpair, inferByType] at h
  -- a single type has its own rules; none, or several of them, may be any value
  split at h
  case h_1 htypes =>
    cases h
    split
    · exact .any href hpair (by simp [htypes]) (by simp [htypes])
    · exact .primitive (by decide) href hpair htypes (by simp) (by simp)
  case h_2 htypes | h_3 htypes | h_4 htypes =>
    cases h
    exact .primitive (by decide) href hpair htypes (by simp) (by simp)
  case h_5 htypes =>
    cases hvalue : schema.additional with
    | unspecified =>
      rw [hvalue] at h
      cases h
      exact .any href hpair (by simp [hvalue]) (by simp [htypes])
    | permitted allowed =>
      rw [hvalue] at h
      cases allowed with
      | false =>
        cases h
        exact .any href hpair (by simp [hvalue]) (by simp [htypes])
      | true =>
        cases h
        exact .mapOfAny href hpair htypes hvalue
    | constrained value =>
      rw [hvalue] at h
      obtain ⟨item, hitem, h⟩ := Traced.outcome_bind_eq_ok.mp h
      cases h
      exact .map href hpair htypes hvalue (ih value (.additional hvalue) hitem)
  case h_6 htypes =>
    cases hitems : schema.items with
    | nil =>
      rw [hitems] at h
      cases h
      exact .arrayOfAny href hpair htypes hitems
    | cons first rest =>
      rw [hitems] at h
      have hheld : schema.Holds first := .item (by simp [hitems])
      obtain ⟨item, hitem, h⟩ := Traced.outcome_bind_eq_ok.mp h
      cases h
      exact .array href hpair htypes hitems (ih first hheld hitem)
  case h_7 _ _ _ _ hobject harray =>
    cases h
    exact .any href hpair (fun _ htypes => absurd htypes hobject) harray

/-- Whatever is inferred follows from the rules. -/
theorem inference_of_infer (document : Document) (schema : Schema) {inferred : Inferred}
    (h : (infer document schema).outcome = .ok inferred) :
    Inference document schema inferred := by
  induction schema using Schema.wellFounded_holds.induction generalizing inferred with
  | _ schema ih =>
    cases href : schema.reference with
    | some reference =>
      rw [infer_of_reference href, Traced.outcome_bind_eq_ok] at h
      obtain ⟨name, hname, h⟩ := h
      cases h
      exact .reference href hname
    | none =>
      by_cases hpair : ∃ single several, schema.anyOf = [single, several]
      · obtain ⟨single, several, hpair⟩ := hpair
        have hheld : schema.Holds single := .alternative (by simp [hpair])
        rw [infer_of_pair href hpair, Traced.outcome_bind_eq_ok] at h
        obtain ⟨same, hsame, h⟩ := h
        cases same with
        | true =>
          simp only [if_true, Traced.outcome_bind_eq_ok] at h
          obtain ⟨item, hitem, -, -, h⟩ := h
          cases h
          exact .oneOrMany href hpair hsame (ih single hheld hitem)
        | false =>
          cases h
          exact .otherPair href hpair hsame
      · have hno : schema.NoPair := fun single several h => hpair ⟨single, several, h⟩
        exact inference_of_noPair href hno ih h

/-! ## References that name types -/

/-- The type of the schema is named by the reference: the schema's own one, or that of the schema
in a container's place. -/
inductive TypedBy (document : Document) : Schema → String → Prop
  | reference {schema : Schema} {reference : String} (href : schema.reference = some reference) :
      TypedBy document schema reference
  | single {schema single several : Schema} {reference : String}
      (href : schema.reference = none) (hpair : schema.anyOf = [single, several])
      (hsame : isOneOrMany document.root single several = .ok true)
      (h : TypedBy document single reference) : TypedBy document schema reference
  | value {schema value : Schema} {reference : String}
      (href : schema.reference = none) (hpair : schema.NoPair)
      (htypes : schema.types = [.object]) (hvalue : schema.additional = .constrained value)
      (h : TypedBy document value reference) : TypedBy document schema reference
  | item {schema first : Schema} {rest : List Schema} {reference : String}
      (href : schema.reference = none) (hpair : schema.NoPair)
      (htypes : schema.types = [.array]) (hitems : schema.items = first :: rest)
      (h : TypedBy document first reference) : TypedBy document schema reference

section

variable {document : Document} {schema : Schema} {reference : String}

theorem typedBy_iff_of_reference {own : String} (href : schema.reference = some own) :
    TypedBy document schema reference ↔ reference = own := by
  constructor
  · intro h
    cases h with
    | reference hother => exact Option.some.inj (hother.symm.trans href)
    | single hnone => simp [href] at hnone
    | value hnone => simp [href] at hnone
    | item hnone => simp [href] at hnone
  · rintro rfl
    exact .reference href

theorem typedBy_iff_of_pair {single several : Schema} (href : schema.reference = none)
    (hpair : schema.anyOf = [single, several]) :
    TypedBy document schema reference
      ↔ isOneOrMany document.root single several = .ok true
        ∧ TypedBy document single reference := by
  constructor
  · intro h
    cases h with
    | reference hsome => simp [href] at hsome
    | single _ hother hsame h =>
      rw [hpair, List.cons.injEq, List.cons.injEq] at hother
      obtain ⟨rfl, rfl, -⟩ := hother
      exact ⟨hsame, h⟩
    | value _ hno => exact absurd hpair (hno single several)
    | item _ hno => exact absurd hpair (hno single several)
  · rintro ⟨hsame, h⟩
    exact .single href hpair hsame h

theorem typedBy_iff_of_noPair (href : schema.reference = none) (hpair : schema.NoPair) :
    TypedBy document schema reference
      ↔ (∃ value, schema.types = [.object] ∧ schema.additional = .constrained value
          ∧ TypedBy document value reference)
        ∨ ∃ first rest, schema.types = [.array] ∧ schema.items = first :: rest
          ∧ TypedBy document first reference := by
  constructor
  · intro h
    cases h with
    | reference hsome => simp [href] at hsome
    | single _ hother => exact absurd hother (hpair _ _)
    | value _ _ htypes hvalue h => exact Or.inl ⟨_, htypes, hvalue, h⟩
    | item _ _ htypes hitems h => exact Or.inr ⟨_, _, htypes, hitems, h⟩
  · rintro (⟨value, htypes, hvalue, h⟩ | ⟨first, rest, htypes, hitems, h⟩)
    · exact .value href hpair htypes hvalue h
    · exact .item href hpair htypes hitems h

end

/-- The names that an inferred type mentions are those that its references stand for. -/
theorem Inference.mem_mentions_iff {document : Document} {schema : Schema} {inferred : Inferred}
    (h : Inference document schema inferred) (name : String) :
    name ∈ inferred.type.mentions
      ↔ ∃ reference, TypedBy document schema reference
        ∧ Reference.typeName document.rootName reference = .ok name := by
  induction h with
  | reference href hname =>
    simp only [typedBy_iff_of_reference href, exists_eq_left, hname, Ty.mentions,
      List.mem_singleton, Except.ok.injEq]
    exact eq_comm
  | oneOrMany href hpair hsame _ ih =>
    simp only [typedBy_iff_of_pair href hpair, hsame, true_and]
    exact ih
  | otherPair href hpair hsame => simp [typedBy_iff_of_pair href hpair, hsame, Ty.mentions]
  | primitive _ href hpair htypes hobject harray =>
    simp [typedBy_iff_of_noPair href hpair, htypes, hobject, harray, Ty.mentions]
  | map href hpair htypes hvalue _ ih =>
    simp only [typedBy_iff_of_noPair href hpair, htypes, hvalue]
    simpa [Ty.mentions] using ih
  | mapOfAny href hpair htypes hvalue =>
    simp [typedBy_iff_of_noPair href hpair, htypes, hvalue, Ty.mentions]
  | array href hpair htypes hitems _ ih =>
    simp only [typedBy_iff_of_noPair href hpair, htypes, hitems]
    simpa [Ty.mentions] using ih
  | arrayOfAny href hpair htypes hitems =>
    simp [typedBy_iff_of_noPair href hpair, htypes, hitems, Ty.mentions]
  | any href hpair hobject harray =>
    simp only [typedBy_iff_of_noPair href hpair, Ty.mentions, List.not_mem_nil, false_iff]
    rintro ⟨reference, ⟨value, htypes, hvalue, -⟩ | ⟨first, rest, htypes, -⟩, -⟩
    · exact hobject value htypes hvalue
    · exact harray htypes

end Document

end SchemaForge
