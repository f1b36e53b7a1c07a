import SchemaForge.Proofs.Inference

/-! # Layers of types

Where optional layers and boxes stand in a type. Inference makes plain types, which have neither;
a field adds at most one box, around a name, and at most one optional layer around that. Boxing a
reference to break a cycle keeps both forms.
-/

namespace SchemaForge

namespace Rust

namespace Ty

/-- No layer of the type is optional and none is a box. -/
def Plain : Ty → Prop
  | primitive _ | named _ | any => True
  | array inner | map inner | oneOrMany inner => Plain inner
  | optional _ | boxed _ => False

/-- A plain type, or a box around a declared name. -/
def AtMostBoxed : Ty → Prop
  | boxed (named _) => True
  | type => Plain type

/-- A type with at most a box, or one optional layer around such a type. -/
def AtMostOptional : Ty → Prop
  | optional content => AtMostBoxed content
  | type => AtMostBoxed type

theorem Plain.atMostBoxed {type : Ty} (h : type.Plain) : type.AtMostBoxed := by
  cases type with
  | boxed content => exact h.elim
  | _ => exact h

theorem AtMostBoxed.atMostOptional {type : Ty} (h : type.AtMostBoxed) : type.AtMostOptional := by
  cases type with
  | optional content => exact (show False from h).elim
  | _ => exact h

/-- A type with at most a box is not optional. -/
theorem AtMostBoxed.not_isOptional {type : Ty} (h : type.AtMostBoxed) :
    type.isOptional = false := by
  cases type with
  | optional content => exact (show False from h).elim
  | _ => rfl

/-- What is left of a type without its outer optional layers, however many they are. -/
def unwrapped : Ty → Ty
  | optional content => unwrapped content
  | type => type

/-- With no optional layer inside another, a name stands under the optional layers of a type just
when the type holds it inline. -/
theorem AtMostOptional.heldInline?_eq_some_iff {type : Ty} (h : type.AtMostOptional)
    (name : String) : type.heldInline? = some name ↔ type.unwrapped = .named name := by
  cases type with
  | optional content =>
    cases content with
    | optional inner => exact (show False from h).elim
    | named other => simp [heldInline?, unwrapped]
    | _ => simp [heldInline?, unwrapped]
  | named other => simp [heldInline?, unwrapped]
  | _ => simp [heldInline?, unwrapped]

/-- A type that holds a name inline is that name, optional or not. -/
theorem heldInline?_eq_some_iff {type : Ty} {name : String} :
    type.heldInline? = some name ↔ type = .named name ∨ type = .optional (.named name) := by
  cases type with
  | optional content => cases content <;> simp [heldInline?]
  | _ => simp [heldInline?]

end Ty

/-! ## Boxing along edges -/

/-- Boxing along edges changes a type at most in one way: a name it holds inline gets a box. -/
theorem boxAlong_cases (edges : List Edge) (holder : String) (type : Ty) :
    boxAlong edges holder type = type ∧
        (∀ target, type.heldInline? = some target → (holder, target) ∉ edges)
      ∨ ∃ target, (holder, target) ∈ edges ∧
        (type = .named target ∧ boxAlong edges holder type = .boxed (.named target)
          ∨ type = .optional (.named target)
            ∧ boxAlong edges holder type = .optional (.boxed (.named target))) := by
  unfold boxAlong
  cases hheld : type.heldInline? with
  | none => exact Or.inl ⟨rfl, by simp⟩
  | some target =>
    by_cases hedge : (holder, target) ∈ edges
    · refine Or.inr ⟨target, hedge, ?_⟩
      rcases Ty.heldInline?_eq_some_iff.mp hheld with rfl | rfl
      · exact Or.inl ⟨rfl, if_pos hedge⟩
      · exact Or.inr ⟨rfl, if_pos hedge⟩
    · refine Or.inl ⟨if_neg hedge, ?_⟩
      rintro other hother
      rw [Option.some.injEq] at hother
      exact hother ▸ hedge

theorem isOptional_boxAlong (edges : List Edge) (holder : String) (type : Ty) :
    (boxAlong edges holder type).isOptional = type.isOptional := by
  rcases boxAlong_cases edges holder type with ⟨h, -⟩ | ⟨target, -, ⟨rfl, h⟩ | ⟨rfl, h⟩⟩
  · rw [h]
  · rw [h]
    rfl
  · rw [h]
    rfl

theorem mentions_boxAlong (edges : List Edge) (holder : String) (type : Ty) :
    (boxAlong edges holder type).mentions = type.mentions := by
  rcases boxAlong_cases edges holder type with ⟨h, -⟩ | ⟨target, -, ⟨rfl, h⟩ | ⟨rfl, h⟩⟩
  · rw [h]
  · rw [h]
    rfl
  · rw [h]
    rfl

theorem Ty.AtMostBoxed.boxAlong {type : Ty} (h : type.AtMostBoxed) (edges : List Edge)
    (holder : String) : (boxAlong edges holder type).AtMostBoxed := by
  rcases boxAlong_cases edges holder type with ⟨heq, -⟩ | ⟨target, -, ⟨rfl, heq⟩ | ⟨rfl, heq⟩⟩
  · rwa [heq]
  · rw [heq]
    trivial
  · exact (show False from h).elim

theorem Ty.AtMostOptional.boxAlong {type : Ty} (h : type.AtMostOptional) (edges : List Edge)
    (holder : String) : (boxAlong edges holder type).AtMostOptional := by
  rcases boxAlong_cases edges holder type with ⟨heq, -⟩ | ⟨target, -, ⟨rfl, heq⟩ | ⟨rfl, heq⟩⟩
  · rwa [heq]
  · rw [heq]
    trivial
  · rw [heq]
    trivial

end Rust

namespace Document

open Rust

/-! ## Inferred types -/

/-- Inferred types are plain. -/
theorem Inference.plain {document : Document} {schema : Schema} {inferred : Inferred}
    (h : Inference document schema inferred) : inferred.type.Plain := by
  induction h with
  | oneOrMany _ _ _ _ ih => exact ih
  | map _ _ _ _ _ ih => exact ih
  | array _ _ _ _ _ ih => exact ih
  | _ => trivial

/-- Only maps and one-or-many types come with a default. -/
theorem Inference.of_hasDefault {document : Document} {schema : Schema} {inferred : Inferred}
    (h : Inference document schema inferred) (hdefault : inferred.hasDefault = true) :
    (∃ value, inferred.type = .map value) ∨ ∃ item, inferred.type = .oneOrMany item := by
  cases h with
  | oneOrMany => exact Or.inr ⟨_, rfl⟩
  | map => exact Or.inl ⟨_, rfl⟩
  | mapOfAny => exact Or.inl ⟨_, rfl⟩
  | reference => cases hdefault
  | otherPair => cases hdefault
  | primitive => cases hdefault
  | array => cases hdefault
  | arrayOfAny => cases hdefault
  | any => cases hdefault

/-! ## Field types -/

theorem atMostBoxed_boxSelf {type : Ty} (h : type.Plain) (holder : String) :
    (boxSelf holder type).AtMostBoxed := by
  unfold boxSelf
  split
  · rename_i hself
    rw [hself]
    trivial
  · exact h.atMostBoxed

/-- A self reference is boxed. -/
theorem boxSelf_ne_named (holder : String) (type : Ty) : boxSelf holder type ≠ .named holder := by
  unfold boxSelf
  split
  · simp
  · assumption

theorem fieldType_of_kept {required : Bool} {inferred : Inferred}
    (h : (required || inferred.hasDefault) = true) (holder : String) :
    fieldType holder required inferred = boxSelf holder inferred.type :=
  if_pos h

theorem fieldType_of_left_out {required : Bool} {inferred : Inferred}
    (h : (required || inferred.hasDefault) = false) (holder : String) :
    fieldType holder required inferred = .optional (boxSelf holder inferred.type) :=
  if_neg (Bool.not_eq_true _ ▸ h)

theorem atMostOptional_fieldType {inferred : Inferred} (h : inferred.type.Plain)
    (holder : String) (required : Bool) :
    (fieldType holder required inferred).AtMostOptional := by
  have hboxed := atMostBoxed_boxSelf h holder
  cases hkept : required || inferred.hasDefault with
  | true =>
    rw [fieldType_of_kept hkept]
    exact hboxed.atMostOptional
  | false =>
    rw [fieldType_of_left_out hkept]
    exact hboxed

/-- A field is optional just when it is neither required nor has a default. -/
theorem isOptional_fieldType {inferred : Inferred} (h : inferred.type.Plain) (holder : String)
    (required : Bool) :
    (fieldType holder required inferred).isOptional = !(required || inferred.hasDefault) := by
  cases hkept : required || inferred.hasDefault with
  | true =>
    rw [fieldType_of_kept hkept]
    exact (atMostBoxed_boxSelf h holder).not_isOptional
  | false =>
    rw [fieldType_of_left_out hkept]
    rfl

/-- No field holds its own struct inline. -/
theorem fieldType_ne_holder {inferred : Inferred} (h : inferred.type.Plain) (holder : String)
    (required : Bool) :
    fieldType holder required inferred ≠ .named holder
      ∧ fieldType holder required inferred ≠ .optional (.named holder) := by
  have hself := boxSelf_ne_named holder inferred.type
  cases hkept : required || inferred.hasDefault with
  | true =>
    rw [fieldType_of_kept hkept]
    refine ⟨hself, fun hwrapped => ?_⟩
    have hboxed := atMostBoxed_boxSelf h holder
    rw [hwrapped] at hboxed
    exact hboxed
  | false =>
    rw [fieldType_of_left_out hkept]
    exact ⟨by simp, fun hwrapped => hself (Ty.optional.inj hwrapped)⟩

/-- The type of a field with a default is the inferred one, as it is. -/
theorem fieldType_of_hasDefault {document : Document} {schema : Schema} {inferred : Inferred}
    (h : Inference document schema inferred) (hdefault : inferred.hasDefault = true)
    (holder : String) (required : Bool) :
    fieldType holder required inferred = inferred.type := by
  have hkept : (required || inferred.hasDefault) = true := by rw [hdefault, Bool.or_true]
  rw [fieldType_of_kept hkept, boxSelf, if_neg]
  rintro hnamed
  rcases h.of_hasDefault hdefault with ⟨value, htype⟩ | ⟨item, htype⟩
  · rw [hnamed] at htype
    cases htype
  · rw [hnamed] at htype
    cases htype

theorem mentions_fieldType (holder : String) (required : Bool) (inferred : Inferred) :
    (fieldType holder required inferred).mentions = inferred.type.mentions := by
  have hself : (boxSelf holder inferred.type).mentions = inferred.type.mentions := by
    unfold boxSelf
    split <;> rfl
  cases hkept : required || inferred.hasDefault with
  | true => rw [fieldType_of_kept hkept, hself]
  | false =>
    rw [fieldType_of_left_out hkept]
    exact hself

end Document

end SchemaForge
