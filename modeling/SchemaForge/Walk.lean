/-! # Depth-first walks

Walks a finite graph depth-first and collects the edges that lead back onto the path of the walk.
A node enters the path at most once, so the nodes off the path bound the depth of the walk.
-/

namespace SchemaForge

/-- A graph of named nodes. Successors that are no nodes count for nothing. -/
structure Graph where
  nodes : List String
  successors : String → List String

namespace Graph

/-- An edge that closes a cycle: it leads from the last node of a path back to a node on it. -/
structure Closing where
  path : List String
  target : String
deriving DecidableEq

/-- The node that a closing edge leaves. -/
def Closing.source (closing : Closing) : String := closing.path.getLastD ""

/-- The cycle that a closing edge completes, from its target around to its target. -/
def Closing.cycle (closing : Closing) : List String :=
  closing.path.dropWhile (· ≠ closing.target) ++ [closing.target]

/-- What a walk has found: the nodes it is done with, and the closing edges in the order in which
they were met. -/
structure Progress where
  finished : List String := []
  closings : List Closing := []

/-- Follows the given targets from the end of a path. The nodes in `off` are not on the path. -/
def follow (graph : Graph) (off path : List String) : List String → Progress → Progress
  | [], progress => progress
  | target :: rest, progress =>
    if target ∈ path then
      follow graph off path rest
        { progress with closings := progress.closings ++ [⟨path, target⟩] }
    else if _member : target ∈ off ∧ target ∉ progress.finished then
      let inner := follow graph (off.erase target) (path ++ [target])
        (graph.successors target) progress
      follow graph off path rest { inner with finished := target :: inner.finished }
    else follow graph off path rest progress
  termination_by targets => (off.length, targets.length)
  decreasing_by
    · exact Prod.Lex.right _ (by simp)
    · refine Prod.Lex.left _ _ ?_
      have positive := List.length_pos_of_mem _member.1
      rw [List.length_erase_of_mem _member.1]
      omega
    · exact Prod.Lex.right _ (by simp)
    · exact Prod.Lex.right _ (by simp)

/-- The closing edges that a walk from each node in turn meets. -/
def closings (graph : Graph) : List Closing :=
  (follow graph graph.nodes [] graph.nodes {}).closings

end Graph

end SchemaForge
