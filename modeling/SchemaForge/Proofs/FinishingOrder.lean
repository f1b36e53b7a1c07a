import Mathlib.Logic.Relation
import SchemaForge.Walk

/-! # The finishing order of a walk

A walk finishes a node only after each of its targets was either met on the path, which gives a
closing edge, or finished before. So every edge of the graph that is not a closing one leads to a
node finished earlier, and without the closing edges the graph has no cycle.
-/

namespace SchemaForge.Graph

/-- An edge of the graph, from a node to a node. -/
def Adjacent (graph : Graph) (source target : String) : Prop :=
  source ∈ graph.nodes ∧ target ∈ graph.nodes ∧ target ∈ graph.successors source

/-- One of the closing edges leads from the source to the target. -/
def Closes (closings : List Closing) (source target : String) : Prop :=
  ∃ closing ∈ closings, closing.source = source ∧ closing.target = target

/-- An edge that no closing edge of a whole walk runs along. -/
def Open (graph : Graph) (source target : String) : Prop :=
  graph.Adjacent source target ∧ ¬ Closes graph.closings source target

/-- Nodes in the order of their finishing, the last one first: the targets of each were finished
before it or met by a closing edge. -/
inductive Settled (graph : Graph) (closings : List Closing) : List String → Prop
  | nil : Settled graph closings []
  | cons {node : String} {earlier : List String}
      (targets : ∀ target ∈ graph.successors node, target ∈ graph.nodes →
        target ∈ earlier ∨ Closes closings node target)
      (rest : Settled graph closings earlier) : Settled graph closings (node :: earlier)

theorem Closes.mono {before after : List Closing} (h : before ⊆ after) {source target : String}
    (closes : Closes before source target) : Closes after source target := by
  obtain ⟨closing, hmem, hends⟩ := closes
  exact ⟨closing, h hmem, hends⟩

theorem Settled.mono {graph : Graph} {before after : List Closing} (h : before ⊆ after)
    {finished : List String} (settled : Settled graph before finished) :
    Settled graph after finished := by
  induction settled with
  | nil => exact Settled.nil
  | cons targets _ ih =>
    exact Settled.cons (fun target hsucc hnode => (targets target hsucc hnode).imp_right
      (Closes.mono h)) ih

/-- What following targets from the end of a path leaves behind: nothing is forgotten, what is
finished is settled, and every target is finished or lies on the path, in which case the edge to
it was recorded. -/
structure Followed (graph : Graph) (path targets : List String) (before after : Progress) :
    Prop where
  finished_subset : before.finished ⊆ after.finished
  closings_subset : before.closings ⊆ after.closings
  settled : Settled graph before.closings before.finished →
    Settled graph after.closings after.finished
  reached : ∀ target ∈ targets, target ∈ graph.nodes →
    target ∈ after.finished ∨ (target ∈ path ∧ ⟨path, target⟩ ∈ after.closings)

theorem Followed.refl (graph : Graph) (path : List String) (progress : Progress) :
    Followed graph path [] progress progress :=
  ⟨List.Subset.refl _, List.Subset.refl _, id, by simp⟩

/-- Following one more target first. -/
theorem Followed.cons {graph : Graph} {path rest : List String} {target : String}
    {before middle after : Progress} (first : Followed graph path [target] before middle)
    (others : Followed graph path rest middle after) :
    Followed graph path (target :: rest) before after where
  finished_subset := List.Subset.trans first.finished_subset others.finished_subset
  closings_subset := List.Subset.trans first.closings_subset others.closings_subset
  settled := others.settled ∘ first.settled
  reached := by
    intro asked hasked hnode
    rcases List.mem_cons.mp hasked with rfl | hrest
    · rcases first.reached asked (List.mem_singleton_self asked) hnode with h | ⟨hpath, h⟩
      · exact Or.inl (others.finished_subset h)
      · exact Or.inr ⟨hpath, others.closings_subset h⟩
    · exact others.reached asked hrest hnode

/-- A target on the path is recorded as the target of a closing edge. -/
theorem Followed.close (graph : Graph) {path : List String} {target : String}
    (h : target ∈ path) (progress : Progress) :
    Followed graph path [target] progress
      { progress with closings := progress.closings ++ [⟨path, target⟩] } where
  finished_subset := List.Subset.refl _
  closings_subset := List.subset_append_left _ _
  settled := Settled.mono (List.subset_append_left _ _)
  reached := by
    intro asked hasked _
    rw [List.mem_singleton] at hasked
    subst hasked
    exact Or.inr ⟨h, List.mem_append_right _ (List.mem_singleton_self _)⟩

/-- A node is finished once its own targets have been followed. -/
theorem Followed.finish {graph : Graph} {path : List String} {target : String}
    {before inner : Progress}
    (h : Followed graph (path ++ [target]) (graph.successors target) before inner) :
    Followed graph path [target] before
      { inner with finished := target :: inner.finished } where
  finished_subset := List.subset_cons_of_subset target h.finished_subset
  closings_subset := h.closings_subset
  settled := by
    intro hbefore
    refine Settled.cons ?_ (h.settled hbefore)
    intro next hnext hnode
    refine (h.reached next hnext hnode).imp_right ?_
    rintro ⟨-, hclosing⟩
    exact ⟨_, hclosing, List.getLastD_concat, rfl⟩
  reached := by
    intro asked hasked _
    rw [List.mem_singleton] at hasked
    subst hasked
    exact Or.inl List.mem_cons_self

/-- A target that is finished already needs no following. -/
theorem Followed.skip {graph : Graph} {path : List String} {target : String}
    {progress : Progress} (h : target ∈ graph.nodes → target ∈ progress.finished) :
    Followed graph path [target] progress progress where
  finished_subset := List.Subset.refl _
  closings_subset := List.Subset.refl _
  settled := id
  reached := by
    intro asked hasked hnode
    rw [List.mem_singleton] at hasked
    subst hasked
    exact Or.inl (h hnode)

/-- Every walk that accounts for each node, as on its path or off it, follows its targets. -/
theorem followed_follow (graph : Graph) (off path targets : List String) (progress : Progress)
    (hnodes : ∀ node ∈ graph.nodes, node ∈ path ∨ node ∈ off) :
    Followed graph path targets progress (follow graph off path targets progress) := by
  -- the induction is on the walk itself: a visit goes deeper first and then on to the next target
  induction off, path, targets, progress using follow.induct graph with
  | case1 off path progress =>
    rw [follow]
    exact Followed.refl graph path progress
  | case2 off path target rest progress hpath ih =>
    rw [follow, if_pos hpath]
    exact (Followed.close graph hpath progress).cons (ih hnodes)
  | case3 off path target rest progress hpath hvisit inner ihinner ihrest =>
    rw [follow, if_neg hpath, dif_pos hvisit]
    have hdeeper : ∀ node ∈ graph.nodes, node ∈ path ++ [target] ∨ node ∈ off.erase target := by
      intro node hnode
      by_cases htarget : node = target
      · exact Or.inl (List.mem_append_right _ (List.mem_singleton.mpr htarget))
      · exact (hnodes node hnode).imp (List.mem_append_left _)
          (List.mem_erase_of_ne htarget).mpr
    exact (Followed.finish (ihinner hdeeper)).cons (ihrest hnodes)
  | case4 off path target rest progress hpath hskip ih =>
    rw [follow, if_neg hpath, dif_neg hskip]
    refine (Followed.skip fun hnode => ?_).cons (ih hnodes)
    have hoff := (hnodes target hnode).resolve_left hpath
    exact Decidable.not_not.mp fun hunfinished => hskip ⟨hoff, hunfinished⟩

/-- A whole walk finishes every node, in a settled order. -/
theorem exists_settled (graph : Graph) :
    ∃ finished, Settled graph graph.closings finished ∧ ∀ node ∈ graph.nodes, node ∈ finished := by
  have hwalk := followed_follow graph graph.nodes [] graph.nodes {} fun _ hnode => Or.inr hnode
  refine ⟨_, hwalk.settled Settled.nil, ?_⟩
  intro node hnode
  rcases hwalk.reached node hnode hnode with h | ⟨hpath, -⟩
  · exact h
  · exact absurd hpath List.not_mem_nil

/-- No endless path of open edges starts at a node that is settled. -/
theorem acc_of_settled {graph : Graph} {finished : List String}
    (settled : Settled graph graph.closings finished) :
    ∀ node ∈ finished, Acc (fun target source => graph.Open source target) node := by
  -- along the finishing order: an open edge leads to a node that was finished earlier
  induction settled with
  | nil => exact fun node h => absurd h List.not_mem_nil
  | cons targets _ ih =>
    intro node hnode
    rcases List.mem_cons.mp hnode with rfl | hearlier
    · refine Acc.intro _ ?_
      rintro target ⟨⟨-, htarget, hsucc⟩, hopen⟩
      exact ih target ((targets target hsucc htarget).resolve_right hopen)
    · exact ih node hearlier

/-- Following open edges ends, so the closing edges of a walk break every cycle. -/
theorem wellFounded_open (graph : Graph) :
    WellFounded fun target source => graph.Open source target := by
  obtain ⟨finished, hsettled, hall⟩ := exists_settled graph
  refine ⟨fun node => Acc.intro _ ?_⟩
  rintro target ⟨⟨-, htarget, -⟩, -⟩
  exact acc_of_settled hsettled target (hall target htarget)

end SchemaForge.Graph
