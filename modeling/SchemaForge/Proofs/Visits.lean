import Mathlib.Data.List.Chain
import Mathlib.Data.List.Count
import Mathlib.Data.List.Nodup
import Mathlib.Data.Prod.Basic
import Mathlib.Order.WellFounded
import SchemaForge.Proofs.FinishingOrder

/-! # The visits of a walk

A walk enters every node at most once, at the end of one path. The closing edges are those that
lead from a visited node back onto its path; all other edges of that path stay open, so every
closing edge completes a cycle whose other edges are open.
-/

namespace SchemaForge.Graph

/-- A visit of a walk: the node it enters, and the path that it enters the node from. -/
structure Visit where
  path : List String
  node : String

/-- The path of a visit with the node at its end. -/
def Visit.trail (visit : Visit) : List String := visit.path ++ [visit.node]

/-- The closing edges from the end of a path to those of the targets that lie on it. -/
def closingsFrom (path targets : List String) : List Closing :=
  (targets.filter fun target => target ∈ path).map fun target => ⟨path, target⟩

/-- The closing edges that a visit meets. -/
def Visit.closings (graph : Graph) (visit : Visit) : List Closing :=
  closingsFrom visit.trail (graph.successors visit.node)

/-- What following targets from the end of a path does, visit by visit: it enters nodes that are
neither on the path nor finished, each of them once and from the end of the path or of an earlier
trail, finishes them, and records the closing edges that it meets. -/
structure Visits (graph : Graph) (off path targets : List String) (before after : Progress)
    (visits : List Visit) : Prop where
  finished : after.finished = visits.map Visit.node ++ before.finished
  closings : List.Perm after.closings
    (before.closings ++ closingsFrom path targets ++ visits.flatMap (Visit.closings graph))
  entered : ∀ visit ∈ visits, visit.path = path ∧ visit.node ∈ targets ∨
    ∃ previous ∈ visits, previous.trail = visit.path ∧
      visit.node ∈ graph.successors previous.node
  off_path : ∀ visit ∈ visits, visit.node ∈ off ∧ visit.node ∉ visit.path
  fresh : ∀ visit ∈ visits, visit.node ∉ path ∧ visit.node ∉ before.finished
  once : (visits.map Visit.node).Nodup

theorem Visits.refl (graph : Graph) (off path : List String) (progress : Progress) :
    Visits graph off path [] progress progress [] where
  finished := rfl
  closings := by simp [closingsFrom]
  entered := by simp
  off_path := by simp
  fresh := by simp
  once := List.nodup_nil

/-- Following one more target first. -/
theorem Visits.cons {graph : Graph} {off path rest : List String} {target : String}
    {before middle after : Progress} {earlier later : List Visit}
    (first : Visits graph off path [target] before middle earlier)
    (others : Visits graph off path rest middle after later) :
    Visits graph off path (target :: rest) before after (later ++ earlier) where
  finished := by
    rw [others.finished, first.finished, List.map_append, List.append_assoc]
  closings := by
    rw [List.perm_iff_count]
    intro closing
    have hlater := others.closings.count_eq closing
    have hearlier := first.closings.count_eq closing
    have htargets : closingsFrom path (target :: rest)
        = closingsFrom path [target] ++ closingsFrom path rest := by
      simp [closingsFrom, List.filter_cons]
      split <;> simp
    simp only [List.count_append, List.flatMap_append, htargets] at hlater hearlier ⊢
    omega
  entered := by
    intro visit hvisit
    rcases List.mem_append.mp hvisit with h | h
    · rcases others.entered visit h with ⟨hpath, hnode⟩ | ⟨previous, hprevious, htrail, hnode⟩
      · exact Or.inl ⟨hpath, List.mem_cons_of_mem _ hnode⟩
      · exact Or.inr ⟨previous, List.mem_append_left _ hprevious, htrail, hnode⟩
    · rcases first.entered visit h with ⟨hpath, hnode⟩ | ⟨previous, hprevious, htrail, hnode⟩
      · exact Or.inl ⟨hpath, List.mem_cons.mpr (Or.inl (List.mem_singleton.mp hnode))⟩
      · exact Or.inr ⟨previous, List.mem_append_right _ hprevious, htrail, hnode⟩
  off_path := by
    intro visit hvisit
    rcases List.mem_append.mp hvisit with h | h
    · exact others.off_path visit h
    · exact first.off_path visit h
  fresh := by
    intro visit hvisit
    rcases List.mem_append.mp hvisit with h | h
    · obtain ⟨hpath, hfinished⟩ := others.fresh visit h
      rw [first.finished] at hfinished
      exact ⟨hpath, fun hbefore => hfinished (List.mem_append_right _ hbefore)⟩
    · exact first.fresh visit h
  once := by
    rw [List.map_append]
    refine List.Nodup.append others.once first.once ?_
    -- what is entered later was not finished before
    intro node hlater hearlier
    obtain ⟨visit, hvisit, rfl⟩ := List.mem_map.mp hlater
    apply (others.fresh visit hvisit).2
    rw [first.finished]
    exact List.mem_append_left _ hearlier

/-- A target on the path is not entered; the edge to it closes a cycle. -/
theorem Visits.close (graph : Graph) (off : List String) {path : List String} {target : String}
    (h : target ∈ path) (progress : Progress) :
    Visits graph off path [target] progress
      { progress with closings := progress.closings ++ [⟨path, target⟩] } [] where
  finished := rfl
  closings := by simp [closingsFrom, h]
  entered := by simp
  off_path := by simp
  fresh := by simp
  once := List.nodup_nil

/-- A target that is finished, or that is no node, is not entered. -/
theorem Visits.skip (graph : Graph) (off : List String) {path : List String} {target : String}
    (h : target ∉ path) (progress : Progress) :
    Visits graph off path [target] progress progress [] where
  finished := rfl
  closings := by simp [closingsFrom, h]
  entered := by simp
  off_path := by simp
  fresh := by simp
  once := List.nodup_nil

/-- A target off the path is entered, and its own targets are followed from there. -/
theorem Visits.enter {graph : Graph} {off path : List String} {target : String}
    {before inner : Progress} {visits : List Visit} (hpath : target ∉ path)
    (hoff : target ∈ off) (hfresh : target ∉ before.finished)
    (h : Visits graph (off.erase target) (path ++ [target]) (graph.successors target) before
      inner visits) :
    Visits graph off path [target] before { inner with finished := target :: inner.finished }
      (⟨path, target⟩ :: visits) where
  finished := by
    rw [h.finished, List.map_cons, List.cons_append]
  closings := by
    rw [List.perm_iff_count]
    intro closing
    have hinner := h.closings.count_eq closing
    have hnone : closingsFrom path [target] = [] := by simp [closingsFrom, hpath]
    have hown : Visit.closings graph ⟨path, target⟩
        = closingsFrom (path ++ [target]) (graph.successors target) := rfl
    simp only [List.count_append, List.flatMap_cons, hnone, hown, List.count_nil] at hinner ⊢
    omega
  entered := by
    intro visit hvisit
    rcases List.mem_cons.mp hvisit with rfl | hrest
    · exact Or.inl ⟨rfl, List.mem_singleton_self _⟩
    · refine Or.inr ?_
      rcases h.entered visit hrest with ⟨htrail, hnode⟩ | ⟨previous, hprevious, htrail, hnode⟩
      · exact ⟨⟨path, target⟩, List.mem_cons_self, htrail.symm, hnode⟩
      · exact ⟨previous, List.mem_cons_of_mem _ hprevious, htrail, hnode⟩
  off_path := by
    intro visit hvisit
    rcases List.mem_cons.mp hvisit with rfl | hrest
    · exact ⟨hoff, hpath⟩
    · exact (h.off_path visit hrest).imp_left List.mem_of_mem_erase
  fresh := by
    intro visit hvisit
    rcases List.mem_cons.mp hvisit with rfl | hrest
    · exact ⟨hpath, hfresh⟩
    · exact (h.fresh visit hrest).imp_left fun hnode hmem =>
        hnode (List.mem_append_left _ hmem)
  once := by
    rw [List.map_cons, List.nodup_cons]
    refine ⟨?_, h.once⟩
    intro hmem
    obtain ⟨visit, hvisit, hnode⟩ := List.mem_map.mp hmem
    apply (h.fresh visit hvisit).1
    rw [hnode]
    exact List.mem_append_right _ (List.mem_singleton_self _)

/-- Following targets is a sequence of visits. -/
theorem exists_visits_follow (graph : Graph) (off path targets : List String)
    (progress : Progress) :
    ∃ visits, Visits graph off path targets progress (follow graph off path targets progress)
      visits := by
  -- on the walk itself, as for what it finishes: one rule for each branch
  induction off, path, targets, progress using follow.induct graph with
  | case1 off path progress =>
    rw [follow]
    exact ⟨[], Visits.refl graph off path progress⟩
  | case2 off path target rest progress hpath ih =>
    rw [follow, if_pos hpath]
    obtain ⟨visits, hvisits⟩ := ih
    exact ⟨_, (Visits.close graph off hpath progress).cons hvisits⟩
  | case3 off path target rest progress hpath hvisit inner ihinner ihrest =>
    rw [follow, if_neg hpath, dif_pos hvisit]
    obtain ⟨visits, hvisits⟩ := ihinner
    obtain ⟨others, hothers⟩ := ihrest
    exact ⟨_, (Visits.enter hpath hvisit.1 hvisit.2 hvisits).cons hothers⟩
  | case4 off path target rest progress hpath hskip ih =>
    rw [follow, if_neg hpath, dif_neg hskip]
    obtain ⟨visits, hvisits⟩ := ih
    exact ⟨_, (Visits.skip graph off hpath progress).cons hvisits⟩

/-! ## The visits of a whole walk -/

/-- The visits of a whole walk, which starts with no path and with nothing finished. -/
structure Tour (graph : Graph) (visits : List Visit) : Prop where
  closings : List.Perm graph.closings (visits.flatMap (Visit.closings graph))
  entered : ∀ visit ∈ visits, visit.path = [] ∨
    ∃ previous ∈ visits, previous.trail = visit.path ∧
      visit.node ∈ graph.successors previous.node
  off_path : ∀ visit ∈ visits, visit.node ∈ graph.nodes ∧ visit.node ∉ visit.path
  once : (visits.map Visit.node).Nodup

theorem exists_tour (graph : Graph) : ∃ visits, Tour graph visits := by
  obtain ⟨visits, h⟩ := exists_visits_follow graph graph.nodes [] graph.nodes {}
  refine ⟨visits, ?_, fun visit hvisit => ?_, h.off_path, h.once⟩
  · simpa [Graph.closings, closingsFrom] using h.closings
  · exact (h.entered visit hvisit).imp_left And.left

section

variable {graph : Graph} {visits : List Visit}

/-- The closing edges of a walk lead from visited nodes back onto their trails. -/
theorem Tour.mem_closings_iff (tour : Tour graph visits) {closing : Closing} :
    closing ∈ graph.closings ↔ ∃ visit ∈ visits, closing.path = visit.trail ∧
      closing.target ∈ graph.successors visit.node ∧ closing.target ∈ visit.trail := by
  rw [tour.closings.mem_iff, List.mem_flatMap]
  refine exists_congr fun visit => and_congr_right fun _ => ?_
  obtain ⟨path, target⟩ := closing
  simp only [Visit.closings, closingsFrom, List.mem_map, List.mem_filter, decide_eq_true_eq,
    Closing.mk.injEq]
  constructor
  · rintro ⟨other, ⟨hsuccessor, htrail⟩, rfl, rfl⟩
    exact ⟨rfl, hsuccessor, htrail⟩
  · rintro ⟨rfl, hsuccessor, htrail⟩
    exact ⟨target, ⟨hsuccessor, htrail⟩, rfl, rfl⟩

/-- A node is visited once. -/
theorem Tour.eq_of_node_eq (tour : Tour graph visits) {first second : Visit}
    (hfirst : first ∈ visits) (hsecond : second ∈ visits) (h : first.node = second.node) :
    first = second :=
  List.inj_on_of_nodup_map tour.once hfirst hsecond h

/-- An edge from a visited node closes a cycle just when it leads back onto the trail. -/
theorem Tour.closes_iff (tour : Tour graph visits) {visit : Visit} (hvisit : visit ∈ visits)
    (target : String) :
    Closes graph.closings visit.node target
      ↔ target ∈ graph.successors visit.node ∧ target ∈ visit.trail := by
  constructor
  · rintro ⟨closing, hclosing, hsource, rfl⟩
    obtain ⟨other, hother, hpath, hsuccessor, htrail⟩ := tour.mem_closings_iff.mp hclosing
    have hnode : other.node = visit.node := by
      rw [← hsource, Closing.source, hpath, Visit.trail, List.getLastD_concat]
    obtain rfl := tour.eq_of_node_eq hother hvisit hnode
    exact ⟨hsuccessor, htrail⟩
  · rintro ⟨hsuccessor, htrail⟩
    refine ⟨⟨visit.trail, target⟩, ?_, List.getLastD_concat, rfl⟩
    exact tour.mem_closings_iff.mpr ⟨visit, hvisit, rfl, hsuccessor, htrail⟩

/-- A trail holds nodes, none twice, each of which leads to the next by an open edge. -/
theorem Tour.trail (tour : Tour graph visits) {visit : Visit} (hvisit : visit ∈ visits) :
    (∀ node ∈ visit.trail, node ∈ graph.nodes) ∧ visit.trail.Nodup ∧
      visit.trail.IsChain graph.Open := by
  -- on the length of the path, which is the trail of an earlier visit
  induction hlength : visit.path.length generalizing visit with
  | zero =>
    have hpath : visit.path = [] := List.length_eq_zero_iff.mp hlength
    have hnode := (tour.off_path visit hvisit).1
    simp [Visit.trail, hpath, hnode]
  | succ length ih =>
    obtain ⟨hnode, hoff⟩ := tour.off_path visit hvisit
    rcases tour.entered visit hvisit with hnil | ⟨previous, hprevious, htrail, hsuccessor⟩
    · rw [hnil] at hlength
      cases hlength
    · have hshorter : previous.path.length = length := by
        rw [← htrail, Visit.trail, List.length_append] at hlength
        exact Nat.succ.inj hlength
      obtain ⟨hnodes, hnodup, hchain⟩ := ih hprevious hshorter
      have hopen : graph.Open previous.node visit.node := by
        refine ⟨⟨(tour.off_path previous hprevious).1, hnode, hsuccessor⟩, ?_⟩
        rw [tour.closes_iff hprevious, htrail]
        exact fun hcloses => hoff hcloses.2
      rw [Visit.trail, ← htrail]
      rw [← htrail] at hoff
      refine ⟨?_, ?_, ?_⟩
      · simpa [or_imp, forall_and, hnode] using hnodes
      · rw [← List.concat_eq_append]
        exact hnodup.concat hoff
      · refine hchain.append (List.isChain_singleton _) ?_
        intro last hlast next hnext
        simp only [Visit.trail, List.getLast?_concat, Option.mem_def, Option.some.injEq,
          List.head?_cons] at hlast hnext
        rw [← hlast, ← hnext]
        exact hopen

end

/-! ## Closing edges -/

/-- The path of a closing edge, from its target on: open edges, through nodes that are all
different, to the node that the edge leaves. -/
theorem exists_path_of_mem_closings {graph : Graph} {closing : Closing}
    (h : closing ∈ graph.closings) :
    ∃ before after, closing.path = before ++ closing.target :: after ∧ closing.path.Nodup ∧
      closing.path.IsChain graph.Open ∧ graph.Adjacent closing.source closing.target := by
  obtain ⟨visits, tour⟩ := exists_tour graph
  obtain ⟨visit, hvisit, hpath, hsuccessor, htrail⟩ := tour.mem_closings_iff.mp h
  obtain ⟨hnodes, hnodup, hchain⟩ := tour.trail hvisit
  obtain ⟨before, after, hsplit⟩ := List.append_of_mem htrail
  refine ⟨before, after, hpath.trans hsplit, hpath ▸ hnodup, hpath ▸ hchain, ?_⟩
  rw [Closing.source, hpath, Visit.trail, List.getLastD_concat]
  exact ⟨(tour.off_path visit hvisit).1, hnodes _ htrail, hsuccessor⟩

/-- A closing edge leaves the last node after its target. -/
theorem Closing.source_eq_getLast {closing : Closing} {before after : List String}
    (h : closing.path = before ++ closing.target :: after) :
    closing.source = (closing.target :: after).getLast (List.cons_ne_nil _ _) := by
  rw [Closing.source, h, List.getLastD_eq_getLast?,
    List.getLast?_append_of_ne_nil _ (List.cons_ne_nil _ _),
    List.getLast?_eq_some_getLast (List.cons_ne_nil _ _), Option.getD_some]

/-- From the target of a closing edge, open edges lead back to its source. -/
theorem reflTransGen_open_of_closes {graph : Graph} {source target : String}
    (h : Closes graph.closings source target) :
    Relation.ReflTransGen graph.Open target source := by
  obtain ⟨closing, hclosing, rfl, rfl⟩ := h
  obtain ⟨before, after, hpath, -, hchain, -⟩ := exists_path_of_mem_closings hclosing
  rw [hpath] at hchain
  exact List.relationReflTransGen_of_exists_isChain_cons after hchain.right_of_append
    (Closing.source_eq_getLast hpath).symm

/-- A closing edge is an edge of the graph. -/
theorem adjacent_of_closes {graph : Graph} {source target : String}
    (h : Closes graph.closings source target) : graph.Adjacent source target := by
  obtain ⟨closing, hclosing, rfl, rfl⟩ := h
  obtain ⟨-, -, -, -, -, hadjacent⟩ := exists_path_of_mem_closings hclosing
  exact hadjacent

theorem open_le_adjacent (graph : Graph) : graph.Open ≤ graph.Adjacent := fun _ _ h => h.1

/-- A closing edge completes a cycle. -/
theorem transGen_adjacent_of_closes {graph : Graph} {source target : String}
    (h : Closes graph.closings source target) :
    Relation.TransGen graph.Adjacent target target := by
  have hback : Relation.ReflTransGen graph.Adjacent target source :=
    Relation.ReflTransGen.mono (open_le_adjacent graph) _ _ (reflTransGen_open_of_closes h)
  exact Relation.TransGen.tail' hback (adjacent_of_closes h)

/-- A walk meets a closing edge just when the graph has a cycle. -/
theorem closings_eq_nil_iff (graph : Graph) :
    graph.closings = [] ↔ ∀ node, ¬ Relation.TransGen graph.Adjacent node node := by
  constructor
  · intro hnone node hcycle
    have hall : graph.Adjacent ≤ graph.Open :=
      fun _ _ hadjacent => ⟨hadjacent, by simp [Closes, hnone]⟩
    have hopen := Relation.TransGen.mono hall _ _ hcycle
    exact (wellFounded_open graph).transGen.irrefl.irrefl node (Relation.transGen_swap.mpr hopen)
  · intro hacyclic
    rw [List.eq_nil_iff_forall_not_mem]
    intro closing hclosing
    exact hacyclic _ (transGen_adjacent_of_closes ⟨closing, hclosing, rfl, rfl⟩)

/-- The cycle that a closing edge completes starts at its target, goes on through further nodes,
all of them different, and comes back to the target. -/
theorem cycle_of_mem_closings {graph : Graph} {closing : Closing} (h : closing ∈ graph.closings) :
    ∃ others, closing.cycle = closing.target :: others ++ [closing.target] ∧
      (closing.target :: others).Nodup ∧ closing.cycle.IsChain graph.Adjacent := by
  obtain ⟨before, after, hpath, hnodup, hchain, hadjacent⟩ := exists_path_of_mem_closings h
  have hnotin : ∀ node ∈ before, node ≠ closing.target := by
    rintro node hnode rfl
    rw [hpath] at hnodup
    exact (List.nodup_append.mp hnodup).2.2 _ hnode _ List.mem_cons_self rfl
  have hcycle : closing.cycle = closing.target :: after ++ [closing.target] := by
    rw [Closing.cycle, hpath, List.dropWhile_append_of_pos (by simpa using hnotin),
      List.dropWhile_cons_of_neg (by simp)]
  rw [hpath] at hnodup hchain
  refine ⟨after, hcycle, hnodup.of_append_right, ?_⟩
  rw [hcycle]
  refine (hchain.right_of_append.imp (open_le_adjacent graph)).append (List.isChain_singleton _) ?_
  intro last hlast next hnext
  rw [List.getLast?_eq_some_getLast (List.cons_ne_nil _ _), Option.mem_some_iff] at hlast
  rw [List.head?_cons, Option.mem_some_iff] at hnext
  rwa [← hlast, ← hnext, ← Closing.source_eq_getLast hpath]

/-! ## How many edges close a cycle -/

/-- The edge that a closing edge is. -/
def Closing.edge (closing : Closing) : String × String := (closing.source, closing.target)

theorem Visit.map_edge_closings (graph : Graph) (visit : Visit) :
    (visit.closings graph).map Closing.edge
      = ((graph.successors visit.node).filter (· ∈ visit.trail)).map (visit.node, ·) := by
  simp [Visit.closings, closingsFrom, Closing.edge, Closing.source, Visit.trail,
    Function.comp_def]

/-- Visits to other nodes meet no closing edge that leaves the node. -/
theorem count_edge_eq_zero (graph : Graph) {visits : List Visit} {source : String}
    (h : source ∉ visits.map Visit.node) (target : String) :
    ((visits.flatMap (Visit.closings graph)).map Closing.edge).count (source, target) = 0 := by
  rw [List.count_eq_zero, List.map_flatMap, List.mem_flatMap]
  rintro ⟨visit, hvisit, hedge⟩
  rw [Visit.map_edge_closings, List.mem_map] at hedge
  obtain ⟨_, -, hpair⟩ := hedge
  exact h (List.mem_map.mpr ⟨visit, hvisit, (Prod.mk.inj hpair).1⟩)

/-- As often as a target is among the successors of a node, so often does a closing edge lead from
the node to it, if any does. -/
theorem count_edge_closings {graph : Graph} {source target : String}
    (h : Closes graph.closings source target) :
    (graph.closings.map Closing.edge).count (source, target)
      = (graph.successors source).count target := by
  obtain ⟨visits, tour⟩ := exists_tour graph
  obtain ⟨visit, hvisit, rfl, htrail⟩ : ∃ visit ∈ visits, visit.node = source ∧
      target ∈ visit.trail := by
    obtain ⟨closing, hclosing, rfl, rfl⟩ := h
    obtain ⟨visit, hvisit, hpath, -, htrail⟩ := tour.mem_closings_iff.mp hclosing
    refine ⟨visit, hvisit, ?_, htrail⟩
    rw [Closing.source, hpath, Visit.trail, List.getLastD_concat]
  obtain ⟨before, after, rfl⟩ := List.append_of_mem hvisit
  -- the node is visited once, and that visit meets all of its edges to the target
  have honce := tour.once
  rw [List.map_append, List.map_cons, List.nodup_middle, List.nodup_cons, List.mem_append,
    not_or] at honce
  obtain ⟨⟨hbefore, hafter⟩, -⟩ := honce
  have hvisited : ((visit.closings graph).map Closing.edge).count (visit.node, target)
      = (graph.successors visit.node).count target := by
    rw [Visit.map_edge_closings, List.count_map_of_injective _ _ (Prod.mk_right_injective _),
      List.count_filter (by simpa using htrail)]
  rw [(tour.closings.map _).count_eq, List.flatMap_append, List.flatMap_cons, List.map_append,
    List.map_append, List.count_append, List.count_append, count_edge_eq_zero graph hbefore,
    count_edge_eq_zero graph hafter, hvisited, Nat.zero_add, Nat.add_zero]

end SchemaForge.Graph
