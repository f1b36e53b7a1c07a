import SchemaForge.Proofs.DeclarationShape

/-! # Where the one-or-many container is used

The one-or-many pattern is detected while types are inferred, before it is known what becomes of
them. No inferred type is dropped on the way into a declaration, and neither optional layers nor
boxes add a container or take one away, so what was detected tells what the declarations use.
-/

namespace SchemaForge

open Rust

namespace Rust.Ty

/-- The part stands in the type, at any depth. -/
inductive Part (part : Ty) : Ty → Prop
  | self : Part part part
  | array {item : Ty} (h : Part part item) : Part part (.array item)
  | map {value : Ty} (h : Part part value) : Part part (.map value)
  | optional {content : Ty} (h : Part part content) : Part part (.optional content)
  | boxed {content : Ty} (h : Part part content) : Part part (.boxed content)
  | oneOrMany {item : Ty} (h : Part part item) : Part part (.oneOrMany item)

/-- A type uses the one-or-many container when one stands in it. -/
theorem usesOneOrMany_iff (type : Ty) :
    type.usesOneOrMany = true ↔ ∃ item, Part (.oneOrMany item) type := by
  constructor
  · intro h
    induction type with
    | primitive | named | any => simp [usesOneOrMany] at h
    | array item ih => exact (ih h).imp fun _ => .array
    | map value ih => exact (ih h).imp fun _ => .map
    | optional content ih => exact (ih h).imp fun _ => .optional
    | boxed content ih => exact (ih h).imp fun _ => .boxed
    | oneOrMany item => exact ⟨item, .self⟩
  · rintro ⟨item, h⟩
    induction h with
    | self | oneOrMany => rfl
    | array _ ih | map _ ih | optional _ ih | boxed _ ih => exact ih

theorem usesOneOrMany_boxAlong (edges : List Edge) (holder : String) (type : Ty) :
    (boxAlong edges holder type).usesOneOrMany = type.usesOneOrMany := by
  rcases boxAlong_cases edges holder type with ⟨h, -⟩ | ⟨target, -, ⟨rfl, h⟩ | ⟨rfl, h⟩⟩
  · rw [h]
  · rw [h]
    rfl
  · rw [h]
    rfl

end Rust.Ty

namespace Rust.Declaration

/-- Tells whether a declaration uses the one-or-many container in one of its slots. -/
def usesOneOrMany (declaration : Declaration) : Bool := declaration.slots.any Ty.usesOneOrMany

theorem usesOneOrMany_describe (declaration : Declaration) (description : Option String) :
    (declaration.describe description).usesOneOrMany = declaration.usesOneOrMany := by
  cases declaration <;> rfl

theorem usesOneOrMany_mapSlots_boxAlong (declaration : Declaration) (edges : List Edge)
    (holder : String) :
    (declaration.mapSlots (boxAlong edges holder)).usesOneOrMany = declaration.usesOneOrMany := by
  rw [usesOneOrMany, slots_mapSlots, List.any_map]
  exact congrArg _ (funext fun type => Ty.usesOneOrMany_boxAlong edges holder type)

end Rust.Declaration

namespace Rust

/-- Boxing along any edges keeps which declarations use the container. -/
theorem any_usesOneOrMany_boxFirst (edges : List Edge) (seen : List String)
    (declarations : List Declaration) :
    (boxFirst edges seen declarations).any Declaration.usesOneOrMany
      = declarations.any Declaration.usesOneOrMany := by
  induction declarations generalizing seen with
  | nil => rfl
  | cons declaration rest ih =>
    rw [boxFirst, List.any_cons, List.any_cons, ih]
    split
    · rfl
    · rw [Declaration.usesOneOrMany_mapSlots_boxAlong]

end Rust

namespace Traced

variable {α β : Type}

/-- Tells whether a computation has detected the one-or-many pattern. -/
def detects (traced : Traced α) : Bool := traced.events.any Event.isOneOrMany

@[simp] theorem detects_pure (value : α) : (pure value : Traced α).detects = false := rfl

@[simp] theorem detects_quietly (outcome : Except Error α) :
    (quietly outcome).detects = false := rfl

@[simp] theorem detects_report (event : Event) :
    (report event).detects = event.isOneOrMany := by
  simp [detects, report]

theorem detects_reportIf {condition : Bool} {event : Event} (h : event.isOneOrMany = false) :
    (reportIf condition event).detects = false := by
  cases condition <;> simp [detects, reportIf, h]

/-- A sequence detects the pattern when one of its parts does. -/
theorem detects_bind {first : Traced α} {next : α → Traced β} {middle : α}
    (h : first.outcome = .ok middle) :
    (first >>= next).detects = (first.detects || (next middle).detects) := by
  have hbind : first >>= next
      = ⟨first.events ++ (next middle).events, (next middle).outcome⟩ := by
    show andThen first next = _
    rw [andThen, h]
  rw [hbind, detects, List.any_append]
  rfl

end Traced

namespace Document

/-- Under the keyword `type` the pattern is detected only in the schema that a container holds. -/
theorem detects_inferByType {document : Document} {schema : Schema} {inferred : Inferred}
    (ih : ∀ held, schema.Holds held → ∀ {inferred : Inferred},
      (infer document held).outcome = .ok inferred →
        (infer document held).detects = inferred.type.usesOneOrMany)
    (h : (inferByType document schema).outcome = .ok inferred) :
    (inferByType document schema).detects = inferred.type.usesOneOrMany := by
  revert h
  rw [inferByType]
  split
  case h_5 =>
    cases hvalue : schema.additional with
    | unspecified =>
      rintro ⟨⟩
      rfl
    | permitted allowed => cases allowed <;> (rintro ⟨⟩; rfl)
    | constrained value =>
      intro h
      obtain ⟨type, htype, h⟩ := Traced.outcome_bind_eq_ok.mp h
      cases h
      rw [Traced.detects_bind htype, ih value (.additional hvalue) htype]
      exact Bool.or_false _
  case h_6 =>
    cases hitems : schema.items with
    | nil =>
      rintro ⟨⟩
      rfl
    | cons first rest =>
      intro h
      have hheld : schema.Holds first := .item (by simp [hitems])
      obtain ⟨item, hitem, h⟩ := Traced.outcome_bind_eq_ok.mp h
      cases h
      rw [Traced.detects_bind hitem, ih first hheld hitem]
      exact Bool.or_false _
  case h_1 =>
    rintro ⟨⟩
    split <;> rfl
  case h_2 | h_3 | h_4 | h_7 =>
    rintro ⟨⟩
    rfl

/-- The pattern is detected just when the inferred type uses the container. -/
theorem detects_infer {document : Document} {schema : Schema} {inferred : Inferred}
    (h : (infer document schema).outcome = .ok inferred) :
    (infer document schema).detects = inferred.type.usesOneOrMany := by
  induction schema using Schema.wellFounded_holds.induction generalizing inferred with
  | _ schema ih =>
    cases href : schema.reference with
    | some reference =>
      rw [infer_of_reference href] at h ⊢
      obtain ⟨name, hname, h⟩ := Traced.outcome_bind_eq_ok.mp h
      cases h
      rw [Traced.detects_bind hname]
      rfl
    | none =>
      by_cases hpair : ∃ single several, schema.anyOf = [single, several]
      · obtain ⟨single, several, hpair⟩ := hpair
        rw [infer_of_pair href hpair] at h ⊢
        obtain ⟨same, hsame, h⟩ := Traced.outcome_bind_eq_ok.mp h
        rw [Traced.detects_bind hsame]
        cases same with
        | true =>
          simp only [if_true] at h ⊢
          obtain ⟨item, hitem, h⟩ := Traced.outcome_bind_eq_ok.mp h
          cases h
          -- the item may or may not use the container, the pair around it does
          rw [Traced.detects_bind hitem, Traced.detects_bind rfl]
          simp [Event.isOneOrMany, Ty.usesOneOrMany]
        | false =>
          cases h
          rfl
      · have hno : schema.NoPair := fun single several h => hpair ⟨single, several, h⟩
        rw [infer_of_noPair href hno] at h ⊢
        exact detects_inferByType ih h

theorem usesOneOrMany_fieldType (holder : String) (required : Bool) (inferred : Inferred) :
    (fieldType holder required inferred).usesOneOrMany = inferred.type.usesOneOrMany := by
  have hself : (boxSelf holder inferred.type).usesOneOrMany = inferred.type.usesOneOrMany := by
    unfold boxSelf
    split <;> rfl
  cases hkept : required || inferred.hasDefault with
  | true => rw [fieldType_of_kept hkept, hself]
  | false =>
    rw [fieldType_of_left_out hkept]
    exact hself

theorem detects_expandFields {document : Document} {holder : String}
    {required used : List String} {properties : Entries Schema} {fields : List Field}
    (h : (expandFields document holder required used properties).outcome = .ok fields) :
    (expandFields document holder required used properties).detects
      = fields.any fun field => field.type.usesOneOrMany := by
  induction properties generalizing used fields with
  | nil =>
    rw [expandFields] at h ⊢
    cases h
    rfl
  | cons property rest ih =>
    obtain ⟨key, schema⟩ := property
    obtain ⟨inferred, more, hinfer, hmore, rfl⟩ := expandFields_cons h
    rw [expandFields, Traced.detects_bind rfl, Traced.detects_reportIf rfl,
      Traced.detects_bind hinfer, Traced.detects_bind hmore, ih hmore, detects_infer hinfer,
      List.any_cons, usesOneOrMany_fieldType]
    simp

theorem detects_expandVariants {enum : String} {used : List String} {values : List Json}
    {variants : List Variant} (h : (expandVariants enum used values).outcome = .ok variants) :
    (expandVariants enum used values).detects = false := by
  induction values generalizing used variants with
  | nil => rfl
  | cons value rest ih =>
    cases value with
    | str text =>
      rw [expandVariants] at h ⊢
      obtain ⟨-, -, h⟩ := Traced.outcome_bind_eq_ok.mp h
      obtain ⟨more, hmore, h⟩ := Traced.outcome_bind_eq_ok.mp h
      rw [Traced.detects_bind rfl, Traced.detects_reportIf rfl, Traced.detects_bind hmore, ih hmore]
      rfl
    | _ => cases h

theorem detects_expandSchema {document : Document} {sourceName : String} {schema : Schema}
    {declaration : Declaration}
    (h : (expandSchema document sourceName schema).outcome = .ok declaration) :
    (expandSchema document sourceName schema).detects = declaration.usesOneOrMany := by
  rw [expandSchema] at h ⊢
  obtain ⟨resolved, hresolve, h⟩ := Traced.outcome_bind_eq_ok.mp h
  obtain ⟨fields, hfields, h⟩ := Traced.outcome_bind_eq_ok.mp h
  obtain ⟨made, hmade, h⟩ := Traced.outcome_bind_eq_ok.mp h
  rw [Traced.detects_bind hresolve, Traced.detects_bind hfields, Traced.detects_bind hmade,
    detects_expandFields hfields]
  cases h
  cases fields with
  | cons field more =>
    cases hmade
    simp [Traced.detects_bind, Event.isOneOrMany, Declaration.usesOneOrMany, Declaration.slots,
      Function.comp_def]
  | nil =>
    -- no field, so nothing was detected before the values or the type are looked at
    cases hvalues : enumerated schema with
    | cons value values =>
      rw [hvalues] at hmade
      obtain ⟨variants, hvariants, hmade⟩ := Traced.outcome_bind_eq_ok.mp hmade
      cases hmade
      simp [Traced.detects_bind, hvariants, detects_expandVariants hvariants, Event.isOneOrMany,
        Declaration.usesOneOrMany, Declaration.slots]
    | nil =>
      rw [hvalues] at hmade
      obtain ⟨inferred, hinfer, hmade⟩ := Traced.outcome_bind_eq_ok.mp hmade
      cases hmade
      simp [Traced.detects_bind, hinfer, detects_infer hinfer, Event.isOneOrMany,
        Declaration.usesOneOrMany, Declaration.slots]

theorem detects_expandDefinitions {document : Document} {definitions : Entries Schema}
    {declarations : List Declaration}
    (h : (expandDefinitions document definitions).outcome = .ok declarations) :
    (expandDefinitions document definitions).detects
      = declarations.any Declaration.usesOneOrMany := by
  induction definitions generalizing declarations with
  | nil =>
    rw [expandDefinitions] at h ⊢
    cases h
    rfl
  | cons definition rest ih =>
    rw [expandDefinitions] at h ⊢
    obtain ⟨declaration, hdeclaration, h⟩ := Traced.outcome_bind_eq_ok.mp h
    obtain ⟨more, hmore, h⟩ := Traced.outcome_bind_eq_ok.mp h
    cases h
    rw [Traced.detects_bind hdeclaration, Traced.detects_bind hmore, ih hmore,
      detects_expandSchema hdeclaration, List.any_cons, Declaration.usesOneOrMany_describe]
    simp

theorem detects_expandAll {document : Document} {declarations : List Declaration}
    (h : (expandAll document).outcome = .ok declarations) :
    (expandAll document).detects = declarations.any Declaration.usesOneOrMany := by
  rw [expandAll] at h ⊢
  obtain ⟨definitions, hdefinitions, h⟩ := Traced.outcome_bind_eq_ok.mp h
  rw [Traced.detects_bind hdefinitions, detects_expandDefinitions hdefinitions]
  cases hname : document.rootName with
  | none =>
    rw [hname] at h
    cases h
    exact Bool.or_false _
  | some name =>
    rw [hname] at h
    obtain ⟨declaration, hdeclaration, h⟩ := Traced.outcome_bind_eq_ok.mp h
    cases h
    rw [Traced.detects_bind hdeclaration, detects_expandSchema hdeclaration]
    simp

/-- A program needs the helper just when one of its declarations uses the container. -/
theorem needsOneOrMany_of_expand {document : Document} {breaking : Bool} {program : Program}
    (h : (expand document breaking).outcome = .ok program) :
    program.needsOneOrMany = program.declarations.any Declaration.usesOneOrMany := by
  obtain ⟨declarations, hall, -, rfl⟩ := expand_eq_ok_iff.mp h
  have hdetects := detects_expandAll hall
  cases breaking with
  | false => exact hdetects
  | true => exact hdetects.trans (any_usesOneOrMany_boxFirst _ _ _).symm

end Document

end SchemaForge
