import SchemaForge.Rust.Declaration
import SchemaForge.Walk

/-! # Containment

A declaration that holds itself inline, directly or through others, would have infinite size. The
walk along inline references meets every such cycle at an edge that leads back onto its path;
boxing exactly those edges leaves no cycle.
-/

namespace SchemaForge.Rust

/-- The graph of inline references between declarations. Of several declarations of one name the
first counts. -/
def containment (declarations : List Declaration) : Graph where
  nodes := (declarations.map Declaration.name).eraseDups
  successors name :=
    match declared? declarations name with
    | some declaration => declaration.slots.filterMap Ty.heldInline?
    | none => []

/-- A reference from one declaration to another, by their names. -/
abbrev Edge := String × String

/-- The inline references that close a cycle, in the order in which a walk meets them. -/
def closingEdges (declarations : List Declaration) : List Edge :=
  (containment declarations).closings.map fun closing => (closing.source, closing.target)

/-- Boxes a type of the named declaration when it holds inline the target of one of the edges. -/
def boxAlong (edges : List Edge) (holder : String) (type : Ty) : Ty :=
  match type.heldInline? with
  | some target => if (holder, target) ∈ edges then type.box else type
  | none => type

/-- Boxes along the edges in the first declaration of each name. -/
def boxFirst (edges : List Edge) (seen : List String) : List Declaration → List Declaration
  | [] => []
  | declaration :: rest =>
    (if declaration.name ∈ seen then declaration
      else declaration.mapSlots (boxAlong edges declaration.name))
      :: boxFirst edges (declaration.name :: seen) rest

/-- Declarations with every inline reference boxed that closes a cycle. -/
def boxCycles (declarations : List Declaration) : List Declaration :=
  boxFirst (closingEdges declarations) [] declarations

end SchemaForge.Rust
