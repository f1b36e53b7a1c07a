import SchemaForge.Proofs.FiniteSize
import SchemaForge.Proofs.Visits

/-! # Boxed references

Breaking cycles boxes a reference only where inline references that stay lead back from its target
to its holder. It changes one slot for each closing edge and nothing else, so declarations without
a cycle stay as they are, and once broken they stay as they are too.
-/

namespace SchemaForge.Rust

/-- The first declaration of the holder's name has a slot that holds the held name inline, and that
name is declared as well. -/
def HoldsInline (declarations : List Declaration) (holder held : String) : Prop :=
  ∃ declaration, declared? declarations holder = some declaration ∧
    (∃ type ∈ declaration.slots, type.heldInline? = some held) ∧
    (declared? declarations held).isSome

/-- The edges of the containment graph are inline references. -/
theorem adjacent_containment (declarations : List Declaration) :
    (containment declarations).Adjacent = HoldsInline declarations := by
  funext holder held
  rw [Graph.Adjacent, mem_nodes_containment, mem_nodes_containment, HoldsInline, eq_iff_iff]
  cases hfirst : declared? declarations holder with
  | none => simp
  | some declaration =>
    simp only [Option.isSome_some, true_and, successors_containment hfirst, List.mem_filterMap,
      Option.some.injEq, exists_eq_left']
    exact and_comm

/-- The inline references that stay are the open edges of the walk. -/
theorem holdsInline_boxCycles (declarations : List Declaration) :
    HoldsInline (boxCycles declarations) = (containment declarations).Open := by
  funext holder held
  rw [Graph.Open, adjacent_containment, ← mem_closingEdges, HoldsInline, HoldsInline, boxCycles,
    declared?_boxFirst, declared?_boxFirst, Option.isSome_map, eq_iff_iff]
  simp only [List.not_mem_nil, if_false, Option.map_eq_some_iff]
  constructor
  · rintro ⟨_, ⟨declaration, hfirst, rfl⟩, ⟨changed, hchanged, hheld⟩, hdeclared⟩
    rw [Declaration.slots_mapSlots] at hchanged
    obtain ⟨type, htype, rfl⟩ := List.mem_map.mp hchanged
    rcases boxAlong_cases (closingEdges declarations) holder type with
      ⟨heq, hopen⟩ | ⟨target, -, ⟨-, heq⟩ | ⟨-, heq⟩⟩
    · rw [heq] at hheld
      exact ⟨⟨declaration, hfirst, ⟨type, htype, hheld⟩, hdeclared⟩, hopen held hheld⟩
    · rw [heq] at hheld
      cases hheld
    · rw [heq] at hheld
      cases hheld
  · rintro ⟨⟨declaration, hfirst, ⟨type, htype, hheld⟩, hdeclared⟩, hopen⟩
    refine ⟨_, ⟨declaration, hfirst, rfl⟩, ⟨type, ?_, hheld⟩, hdeclared⟩
    rw [Declaration.slots_mapSlots, List.mem_map]
    refine ⟨type, htype, ?_⟩
    rw [boxAlong, hheld]
    exact if_neg hopen

/-- Declarations have a closing edge just when one of them contains itself by inline references. -/
theorem closingEdges_eq_nil_iff (declarations : List Declaration) :
    closingEdges declarations = []
      ↔ ∀ name, ¬ Relation.TransGen (HoldsInline declarations) name name := by
  rw [← adjacent_containment, ← Graph.closings_eq_nil_iff, closingEdges, List.map_eq_nil_iff]

/-- Once cycles are broken, no closing edge is left. -/
theorem closingEdges_boxCycles (declarations : List Declaration) :
    closingEdges (boxCycles declarations) = [] := by
  rw [closingEdges_eq_nil_iff, holdsInline_boxCycles]
  intro name hcycle
  exact (Graph.wellFounded_open _).transGen.irrefl.irrefl name
    (Relation.transGen_swap.mpr hcycle)

/-! ## What boxing leaves alone -/

theorem boxAlong_nil (holder : String) (type : Ty) : boxAlong [] holder type = type := by
  unfold boxAlong
  cases type.heldInline? <;> simp

/-- Without edges nothing is boxed. -/
theorem boxFirst_nil (seen : List String) (declarations : List Declaration) :
    boxFirst [] seen declarations = declarations := by
  induction declarations generalizing seen with
  | nil => rfl
  | cons declaration rest ih =>
    have hslots : declaration.mapSlots (boxAlong [] declaration.name) = declaration := by
      cases declaration <;> simp [Declaration.mapSlots, boxAlong_nil]
    rw [boxFirst, ih, hslots, ite_self]

/-- A declaration apart from the types in its slots. -/
def Declaration.frame (declaration : Declaration) : Declaration :=
  declaration.mapSlots fun _ => .any

@[simp] theorem Declaration.frame_mapSlots (declaration : Declaration) (change : Ty → Ty) :
    (declaration.mapSlots change).frame = declaration.frame := by
  cases declaration <;> simp [frame, mapSlots]

/-- Boxing changes nothing but types in slots. -/
theorem map_frame_boxFirst (edges : List Edge) (seen : List String)
    (declarations : List Declaration) :
    (boxFirst edges seen declarations).map Declaration.frame
      = declarations.map Declaration.frame := by
  induction declarations generalizing seen with
  | nil => rfl
  | cons declaration rest ih =>
    rw [boxFirst, List.map_cons, List.map_cons, ih]
    congr 1
    split
    · rfl
    · exact declaration.frame_mapSlots _

/-- A declaration whose name was seen before stays as it is. -/
theorem getElem?_boxFirst_of_seen (edges : List Edge) {seen : List String}
    {declarations : List Declaration} {i : Nat} {declaration : Declaration}
    (h : declarations[i]? = some declaration)
    (hseen : declaration.name ∈ seen ∨
      declaration.name ∈ (declarations.take i).map Declaration.name) :
    (boxFirst edges seen declarations)[i]? = some declaration := by
  induction declarations generalizing seen i with
  | nil => simp at h
  | cons first rest ih =>
    rw [boxFirst]
    cases i with
    | zero =>
      obtain rfl : first = declaration := by simpa using h
      have hname : first.name ∈ seen := by simpa using hseen
      simp [hname]
    | succ i =>
      rw [List.getElem?_cons_succ] at h ⊢
      refine ih h ?_
      simp only [List.take_succ_cons, List.map_cons, List.mem_cons] at hseen ⊢
      tauto

section

variable {change : Declaration → Declaration}
  (hname : ∀ declaration, (change declaration).name = declaration.name)
  (hslots : ∀ declaration, (change declaration).slots = declaration.slots)

include hname hslots

theorem containment_map (declarations : List Declaration) :
    containment (declarations.map change) = containment declarations := by
  simp only [containment, declared?, List.map_map, List.find?_map, Function.comp_def, hname]
  congr 1
  funext name
  cases declarations.find? fun declaration => declaration.name = name with
  | none => rfl
  | some declaration => simp [hslots]

/-- Breaking cycles looks at names and slots alone, so it commutes with changes of anything else. -/
theorem boxCycles_map
    (hmapSlots : ∀ along declaration,
      change (declaration.mapSlots along) = (change declaration).mapSlots along)
    (declarations : List Declaration) :
    boxCycles (declarations.map change) = (boxCycles declarations).map change := by
  have hbox : ∀ edges seen, boxFirst edges seen (declarations.map change)
      = (boxFirst edges seen declarations).map change := by
    intro edges
    induction declarations with
    | nil => exact fun _ => rfl
    | cons declaration rest ih =>
      intro seen
      rw [List.map_cons, boxFirst, boxFirst, List.map_cons, ih, hname]
      congr 1
      split
      · rfl
      · exact (hmapSlots _ declaration).symm
  rw [boxCycles, boxCycles, closingEdges, containment_map hname hslots, ← closingEdges, hbox]

end

/-! ## What boxing changes -/

/-- A slot of a declaration of the holder's name with its type in two versions. -/
structure SlotChange where
  holder : String
  before : Ty
  after : Ty

/-- The slots that are filled differently in two versions of a declaration. -/
def Declaration.changes (before after : Declaration) : List SlotChange :=
  ((before.slots.zip after.slots).filter fun types => types.1 ≠ types.2).map fun types =>
    ⟨before.name, types.1, types.2⟩

theorem Declaration.changes_self (declaration : Declaration) :
    declaration.changes declaration = [] := by
  rw [changes, List.map_eq_nil_iff, List.filter_eq_nil_iff]
  generalize declaration.slots = types
  induction types with
  | nil => simp
  | cons type rest ih => simpa using ih

/-- The slots that are filled differently in two versions of declarations, in order. -/
def changes (before after : List Declaration) : List SlotChange :=
  (before.zip after).flatMap fun versions => versions.1.changes versions.2

/-- The change puts a box around the name to which the edge leads. -/
inductive SlotChange.Boxes : SlotChange → Edge → Prop
  | named (holder target : String) :
      Boxes ⟨holder, .named target, .boxed (.named target)⟩ (holder, target)
  | optional (holder target : String) :
      Boxes ⟨holder, .optional (.named target), .optional (.boxed (.named target))⟩
        (holder, target)

/-- The references to the names that a declaration holds inline, slot by slot. -/
def Declaration.inlineEdges (declaration : Declaration) : List Edge :=
  (declaration.slots.filterMap Ty.heldInline?).map (declaration.name, ·)

/-- The inline references of the first declaration of each name that was not seen before. -/
def firstInlineEdges (seen : List String) : List Declaration → List Edge
  | [] => []
  | declaration :: rest =>
    (if declaration.name ∈ seen then [] else declaration.inlineEdges)
      ++ firstInlineEdges (declaration.name :: seen) rest

/-- Boxing changes the slots that hold the target of an edge, and puts the box around it. -/
theorem forall₂_boxes_mapSlots (edges : List Edge) (declaration : Declaration) :
    List.Forall₂ SlotChange.Boxes
      (declaration.changes (declaration.mapSlots (boxAlong edges declaration.name)))
      (declaration.inlineEdges.filter (· ∈ edges)) := by
  rw [Declaration.changes, Declaration.inlineEdges, Declaration.slots_mapSlots]
  generalize declaration.slots = types
  induction types with
  | nil => exact List.Forall₂.nil
  | cons type rest ih =>
    rcases boxAlong_cases edges declaration.name type with
      ⟨heq, hopen⟩ | ⟨target, hedge, ⟨rfl, heq⟩ | ⟨rfl, heq⟩⟩
    · cases hheld : type.heldInline? with
      | none => simpa [heq, hheld] using ih
      | some target => simpa [heq, hheld, hopen target hheld] using ih
    · simpa [heq, Ty.heldInline?, hedge] using And.intro (.named _ _) ih
    · simpa [heq, Ty.heldInline?, hedge] using And.intro (.optional _ _) ih

theorem forall₂_boxes_boxFirst (edges : List Edge) (seen : List String)
    (declarations : List Declaration) :
    List.Forall₂ SlotChange.Boxes (changes declarations (boxFirst edges seen declarations))
      ((firstInlineEdges seen declarations).filter (· ∈ edges)) := by
  induction declarations generalizing seen with
  | nil => exact List.Forall₂.nil
  | cons declaration rest ih =>
    rw [boxFirst, changes, List.zip_cons_cons, List.flatMap_cons, firstInlineEdges,
      List.filter_append]
    refine List.rel_append ?_ (ih _)
    by_cases hseen : declaration.name ∈ seen
    · simp [hseen, Declaration.changes_self]
    · simpa [hseen] using forall₂_boxes_mapSlots edges declaration

/-- The inline references of a declaration all leave its name. -/
theorem Declaration.count_inlineEdges_of_ne {declaration : Declaration} {source : String}
    (h : declaration.name ≠ source) (target : String) :
    declaration.inlineEdges.count (source, target) = 0 := by
  simp [inlineEdges, List.count_eq_zero, h]

theorem count_firstInlineEdges_of_seen {seen : List String} (declarations : List Declaration)
    {source : String} (h : source ∈ seen) (target : String) :
    (firstInlineEdges seen declarations).count (source, target) = 0 := by
  induction declarations generalizing seen with
  | nil => rfl
  | cons declaration rest ih =>
    rw [firstInlineEdges, List.count_append, ih (List.mem_cons_of_mem _ h), Nat.add_zero]
    split
    · rfl
    · rename_i hseen
      exact Declaration.count_inlineEdges_of_ne (fun hname => hseen (hname ▸ h)) target

/-- The first declaration of a name makes up all the inline references from the name. -/
theorem count_firstInlineEdges {seen : List String} (declarations : List Declaration)
    {source : String} (h : source ∉ seen) (target : String) :
    (firstInlineEdges seen declarations).count (source, target)
      = ((containment declarations).successors source).count target := by
  induction declarations generalizing seen with
  | nil => rfl
  | cons declaration rest ih =>
    rw [firstInlineEdges, List.count_append]
    by_cases hname : declaration.name = source
    · subst hname
      have hfirst : declared? (declaration :: rest) declaration.name = some declaration := by
        simp [declared?]
      rw [successors_containment hfirst, if_neg h, Declaration.inlineEdges,
        List.count_map_of_injective _ _ (Prod.mk_right_injective _),
        count_firstInlineEdges_of_seen rest List.mem_cons_self, Nat.add_zero]
    · have hrest : (containment (declaration :: rest)).successors source
          = (containment rest).successors source := by
        simp [containment, declared?, hname]
      have hunseen : source ∉ declaration.name :: seen := by simp [h, Ne.symm hname]
      rw [hrest, ih hunseen, Nat.add_eq_right]
      split
      · rfl
      · exact Declaration.count_inlineEdges_of_ne hname target

/-- Each closing edge is an inline reference of the first declaration of its source, and as often
as it is one it is met by the walk. -/
theorem perm_closingEdges (declarations : List Declaration) :
    List.Perm ((firstInlineEdges [] declarations).filter (· ∈ closingEdges declarations))
      (closingEdges declarations) := by
  rw [List.perm_iff_count]
  rintro ⟨source, target⟩
  by_cases hedge : (source, target) ∈ closingEdges declarations
  · rw [List.count_filter (by simpa using hedge), count_firstInlineEdges _ List.not_mem_nil]
    exact (Graph.count_edge_closings ((mem_closingEdges _ _ _).mp hedge)).symm
  · rw [List.count_eq_zero.mpr hedge, List.count_eq_zero]
    simp [hedge]

/-! ## Breaking cycles -/

/-- The second version of declarations differs from the first by boxes along the edges alone. Each
edge is needed: inline references that are there in both versions lead back from its target to its
holder. The edges, in some order, are those of the slots that changed, and of several declarations
of one name only the first has such slots. -/
structure BoxedAlong (edges : List Edge) (before after : List Declaration) : Prop where
  detour : ∀ edge ∈ edges, Relation.ReflTransGen
    (fun holder held => HoldsInline before holder held ∧ HoldsInline after holder held)
    edge.2 edge.1
  boxes : ∃ order, List.Perm order edges ∧ List.Forall₂ SlotChange.Boxes (changes before after) order
  frame : after.map Declaration.frame = before.map Declaration.frame
  later : ∀ (i : Nat) (declaration : Declaration), before[i]? = some declaration →
    declaration.name ∈ (before.take i).map Declaration.name → after[i]? = some declaration

/-- Breaking cycles boxes nothing but its closing edges, one slot for each of them. It leaves
declarations without a cycle as they are, and so does breaking cycles a second time. -/
theorem boxedAlong_boxCycles (declarations : List Declaration) :
    BoxedAlong (closingEdges declarations) declarations (boxCycles declarations) ∧
      (changes declarations (boxCycles declarations)).length
        = (closingEdges declarations).length ∧
      ((∀ name, ¬ Relation.TransGen (HoldsInline declarations) name name) →
        closingEdges declarations = [] ∧ boxCycles declarations = declarations) ∧
      closingEdges (boxCycles declarations) = [] ∧
      boxCycles (boxCycles declarations) = boxCycles declarations := by
  have hboxes := forall₂_boxes_boxFirst (closingEdges declarations) [] declarations
  have horder := perm_closingEdges declarations
  refine ⟨⟨?_, ⟨_, horder, hboxes⟩, map_frame_boxFirst _ _ _, ?_⟩, ?_, ?_, ?_, ?_⟩
  · rintro ⟨holder, held⟩ hedge
    have hstays : (containment declarations).Open ≤ fun holder held =>
        HoldsInline declarations holder held ∧ HoldsInline (boxCycles declarations) holder held := by
      rw [holdsInline_boxCycles, ← adjacent_containment]
      exact fun _ _ hopen => ⟨hopen.1, hopen⟩
    exact Relation.ReflTransGen.mono hstays _ _
      (Graph.reflTransGen_open_of_closes ((mem_closingEdges _ _ _).mp hedge))
  · intro i declaration hget hname
    exact getElem?_boxFirst_of_seen _ hget (Or.inr hname)
  · exact hboxes.length_eq.trans horder.length_eq
  · intro hacyclic
    have hnone := (closingEdges_eq_nil_iff declarations).mpr hacyclic
    exact ⟨hnone, by rw [boxCycles, hnone, boxFirst_nil]⟩
  · exact closingEdges_boxCycles declarations
  · rw [boxCycles, closingEdges_boxCycles, boxFirst_nil]

end SchemaForge.Rust
