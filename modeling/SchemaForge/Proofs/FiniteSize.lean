import Mathlib.Order.WellFounded
import SchemaForge.Proofs.DeclarationShape
import SchemaForge.Proofs.FinishingOrder

/-! # Finite size

A declaration that contains itself by value, directly or through others, would have infinite size.
Boxing the closing edges of the containment walk leaves no such declaration: what remains are the
open edges, which always end. So each type of a program has a finite layout.
-/

namespace SchemaForge

namespace Rust

/-- The first declaration of the holder's name has, under optional layers alone, a slot of the
held name, which is declared as well. -/
def Contains (declarations : List Declaration) (holder held : String) : Prop :=
  ∃ declaration, declared? declarations holder = some declaration ∧
    (∃ type ∈ declaration.slots, type.unwrapped = .named held) ∧
    (declared? declarations held).isSome

/-- A type whose layout ends: containers keep their items behind a pointer, an optional layer
holds its content inline, and a name stands for all slots of its declaration. A name that is not
declared here is laid out elsewhere. -/
inductive FiniteSize (declarations : List Declaration) : Ty → Prop
  | primitive (name : String) : FiniteSize declarations (.primitive name)
  | any : FiniteSize declarations .any
  | array (item : Ty) : FiniteSize declarations (.array item)
  | map (value : Ty) : FiniteSize declarations (.map value)
  | boxed (content : Ty) : FiniteSize declarations (.boxed content)
  | oneOrMany (item : Ty) : FiniteSize declarations (.oneOrMany item)
  | optional {content : Ty} (h : FiniteSize declarations content) :
      FiniteSize declarations (.optional content)
  | named {name : String} (h : ∀ declaration, declared? declarations name = some declaration →
      ∀ type ∈ declaration.slots, FiniteSize declarations type) :
      FiniteSize declarations (.named name)

/-- Optional layers add nothing to the layout of what they hold, so only a name can be endless. -/
theorem finiteSize_of_unwrapped {declarations : List Declaration} {type : Ty}
    (h : ∀ name, type.unwrapped = .named name → FiniteSize declarations (.named name)) :
    FiniteSize declarations type := by
  induction type with
  | primitive name => exact .primitive name
  | any => exact .any
  | array item => exact .array item
  | map value => exact .map value
  | boxed content => exact .boxed content
  | oneOrMany item => exact .oneOrMany item
  | named name => exact h name rfl
  | optional content ih => exact .optional (ih h)

/-- Where containment ends, every layout ends. -/
theorem finiteSize_of_wellFounded {declarations : List Declaration}
    (h : WellFounded fun held holder => Contains declarations holder held) (type : Ty) :
    FiniteSize declarations type := by
  have hnamed : ∀ name, FiniteSize declarations (.named name) := by
    intro name
    induction name using h.induction with
    | _ name ih =>
      refine .named fun declaration hdeclared slot hslot => finiteSize_of_unwrapped ?_
      intro held hheld
      cases hsome : (declared? declarations held).isSome with
      | true => exact ih held ⟨declaration, hdeclared, ⟨slot, hslot, hheld⟩, hsome⟩
      | false =>
        -- nothing is known about a name that is not declared, and nothing is asked of it
        refine .named fun other hother => ?_
        rw [hother] at hsome
        cases hsome
  exact finiteSize_of_unwrapped fun name _ => hnamed name

/-! ## Boxing the closing edges -/

/-- Boxing changes the first declaration of each name that was not seen before, and no other. -/
theorem declared?_boxFirst (edges : List Edge) (seen : List String)
    (declarations : List Declaration) (name : String) :
    declared? (boxFirst edges seen declarations) name
      = (declared? declarations name).map fun declaration =>
        if name ∈ seen then declaration else declaration.mapSlots (boxAlong edges name) := by
  induction declarations generalizing seen with
  | nil => rfl
  | cons declaration rest ih =>
    rw [boxFirst]
    by_cases hname : declaration.name = name
    · subst hname
      by_cases hseen : declaration.name ∈ seen <;> simp [declared?, hseen]
    · have htail := ih (declaration.name :: seen)
      simp only [declared?, List.mem_cons, Ne.symm hname, false_or] at htail
      by_cases hseen : declaration.name ∈ seen <;> simp [declared?, hseen, hname, htail]

/-- The nodes of the containment graph are the declared names. -/
theorem mem_nodes_containment (declarations : List Declaration) (name : String) :
    name ∈ (containment declarations).nodes ↔ (declared? declarations name).isSome := by
  simp [containment, declared?, List.mem_eraseDups]

theorem successors_containment {declarations : List Declaration} {name : String}
    {declaration : Declaration} (h : declared? declarations name = some declaration) :
    (containment declarations).successors name = declaration.slots.filterMap Ty.heldInline? := by
  simp only [containment, h]

theorem mem_closingEdges (declarations : List Declaration) (source target : String) :
    (source, target) ∈ closingEdges declarations
      ↔ Graph.Closes (containment declarations).closings source target := by
  simp [closingEdges, Graph.Closes]

/-- What a declaration contains after boxing, it holds along an open edge of the walk. -/
theorem open_of_contains_boxCycles {declarations : List Declaration}
    (hlayers : ∀ declaration ∈ declarations, ∀ type ∈ declaration.slots, type.AtMostOptional)
    {holder held : String} (h : Contains (boxCycles declarations) holder held) :
    (containment declarations).Open holder held := by
  obtain ⟨boxed, hboxed, ⟨slot, hslot, hheld⟩, hdeclared⟩ := h
  simp only [boxCycles, declared?_boxFirst, List.not_mem_nil, if_false, Option.map_eq_some_iff,
    Option.isSome_map] at hboxed hdeclared
  obtain ⟨declaration, hfirst, rfl⟩ := hboxed
  rw [Declaration.slots_mapSlots] at hslot
  obtain ⟨type, htype, rfl⟩ := List.mem_map.mp hslot
  have hmember : declaration ∈ declarations := List.mem_of_find?_eq_some hfirst
  have hlayered := hlayers declaration hmember type htype
  rcases boxAlong_cases (closingEdges declarations) holder type with
    ⟨heq, hopen⟩ | ⟨target, -, ⟨-, heq⟩ | ⟨-, heq⟩⟩
  · rw [heq] at hheld
    have hinline := (hlayered.heldInline?_eq_some_iff held).mpr hheld
    refine ⟨⟨?_, ?_, ?_⟩, ?_⟩
    · rw [mem_nodes_containment, hfirst]
      rfl
    · rwa [mem_nodes_containment]
    · rw [successors_containment hfirst]
      exact List.mem_filterMap.mpr ⟨type, htype, hinline⟩
    · rw [← mem_closingEdges]
      exact hopen held hinline
  · -- a box stands between the holder and the target
    rw [heq] at hheld
    cases hheld
  · rw [heq] at hheld
    cases hheld

/-- After boxing the closing edges, containment ends. -/
theorem wellFounded_contains_boxCycles {declarations : List Declaration}
    (hlayers : ∀ declaration ∈ declarations, ∀ type ∈ declaration.slots, type.AtMostOptional) :
    WellFounded fun held holder => Contains (boxCycles declarations) holder held :=
  Subrelation.wf (open_of_contains_boxCycles hlayers)
    (Graph.wellFounded_open (containment declarations))

end Rust

namespace Document

open Rust

/-- A program whose cycles are broken contains no declaration by value in itself, at any distance,
and each type that is built over it has a finite size. -/
theorem finiteSize_of_expand {document : Document} {program : Program}
    (h : (document.expand true).outcome = .ok program) :
    (∀ name, ¬ Relation.TransGen (Contains program.declarations) name name) ∧
      ∀ type, FiniteSize program.declarations type := by
  obtain ⟨declarations, hall, -, hprogram⟩ := expand_eq_ok h
  have hforall := forall₂_declarationOf_of_expandAll hall
  have hlayers : ∀ declaration ∈ declarations, ∀ type ∈ declaration.slots,
      type.AtMostOptional := by
    intro declaration hmember
    obtain ⟨source, -, hof⟩ := exists_mem_left_of_forall₂ hforall hmember
    exact hof.wellFormed.atMostOptional
  have hends := wellFounded_contains_boxCycles hlayers
  rw [hprogram, if_pos rfl]
  refine ⟨fun name hcycle => ?_, finiteSize_of_wellFounded hends⟩
  exact hends.transGen.irrefl.irrefl name (Relation.transGen_swap.mpr hcycle)

/-- Two definitions that refer to each other. -/
def parentAndChild : Document where
  root := {
    definitions := [
      ("parent", {
        properties := [("child", { reference := some "#/definitions/child" })] }),
      ("child", {
        properties := [("parent", { reference := some "#/definitions/parent" })]
        required := ["parent"] })] }

/-- The program for both, with a box where the second leads back to the first. -/
def parentAndChildProgram : Program where
  rootName := none
  declarations := [
    .struct {
      name := "Parent"
      sourceName := "parent"
      fields := [
        { name := "child", sourceName := "child", type := .optional (.named "Child") }]
      isDefault := true
      rename := some "parent" },
    .struct {
      name := "Child"
      sourceName := "child"
      fields := [
        { name := "parent", sourceName := "parent", type := .boxed (.named "Parent") }]
      rename := some "child" }]
  needsOneOrMany := false

theorem finiteSize_parentAndChild :
    (parentAndChild.expand true).outcome = .ok parentAndChildProgram ∧
      (∀ name, ¬ Relation.TransGen (Contains parentAndChildProgram.declarations) name name) ∧
      ∀ type, FiniteSize parentAndChildProgram.declarations type := by
  have hexpand : (parentAndChild.expand true).outcome = .ok parentAndChildProgram := by cbv
  exact ⟨hexpand, finiteSize_of_expand hexpand⟩

end Document

end SchemaForge
