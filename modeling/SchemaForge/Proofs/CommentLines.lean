import Mathlib.Data.List.SplitBy
import SchemaForge.Rust.Source

/-! # Comment lines

Filling a paragraph brings in no character but the space, so the lines of a comment hold nothing
that ends a line. Each of them starts with the mark of a comment.
-/

namespace SchemaForge

namespace Text

theorem eq_space_or_mem_of_mem_expandTabs {column : Nat} {text : List Char} {c : Char}
    (h : c ∈ expandTabs column text) : c = ' ' ∨ c ∈ text := by
  induction text generalizing column with
  | nil => exact absurd h List.not_mem_nil
  | cons d rest ih =>
    rw [expandTabs] at h
    split at h
    · rcases List.mem_append.mp h with hspace | hrest
      · exact Or.inl (List.eq_of_mem_replicate hspace)
      · exact (ih hrest).imp_right (List.mem_cons_of_mem d)
    · rcases List.mem_cons.mp h with rfl | hrest
      · exact Or.inr List.mem_cons_self
      · exact (ih hrest).imp_right (List.mem_cons_of_mem d)

theorem eq_space_or_mem_of_mem_spaceOut {paragraph : List Char} {c : Char}
    (h : c ∈ spaceOut paragraph) : c = ' ' ∨ c ∈ paragraph := by
  obtain ⟨d, hd, rfl⟩ := List.mem_map.mp h
  split
  · exact Or.inl rfl
  · exact eq_space_or_mem_of_mem_expandTabs hd

theorem takeFitting_append (room : Nat) (pieces : List (List Char)) :
    (takeFitting room pieces).1 ++ (takeFitting room pieces).2 = pieces := by
  induction pieces generalizing room with
  | nil => rfl
  | cons run rest ih =>
    rw [takeFitting]
    split
    · rw [List.cons_append, ih]
    · rfl

theorem openLine_subset (started : Bool) (pieces : List (List Char)) :
    openLine started pieces ⊆ pieces := by
  cases pieces with
  | nil => exact List.Subset.refl _
  | cons run rest =>
    rw [openLine]
    split
    · exact List.subset_cons_self run rest
    · exact List.Subset.refl _

theorem dropTrailingBlank_subset (line : List (List Char)) : dropTrailingBlank line ⊆ line := by
  unfold dropTrailingBlank
  split
  · split
    · exact List.dropLast_subset line
    · exact List.Subset.refl _
  · exact List.Subset.refl _

/-- The characters of the lines are those of the runs that are laid out. -/
theorem exists_run_of_mem_fillFrom {width : Nat} {started : Bool} {pieces : List (List Char)}
    {line : List Char} (hline : line ∈ fillFrom width started pieces) {c : Char} (hc : c ∈ line) :
    ∃ run ∈ pieces, c ∈ run := by
  fun_induction fillFrom width started pieces with
  | case1 => exact absurd hline List.not_mem_nil
  | case2 started pieces run rest hopen taken filled hempty ih =>
    have hparts : taken.1 ++ taken.2 = rest := takeFitting_append _ rest
    obtain ⟨piece, hpiece, hmem⟩ := ih hline
    have hrest : piece ∈ rest := hparts ▸ List.mem_append_right taken.1 hpiece
    refine ⟨piece, openLine_subset started pieces ?_, hmem⟩
    rw [hopen]
    exact List.mem_cons_of_mem run hrest
  | case3 started pieces run rest hopen taken filled hsome ih =>
    have hparts : taken.1 ++ taken.2 = rest := takeFitting_append _ rest
    have hpieces : run :: rest ⊆ pieces := hopen ▸ openLine_subset started pieces
    rcases List.mem_cons.mp hline with rfl | hmore
    · obtain ⟨piece, hpiece, hmem⟩ := List.mem_flatten.mp hc
      have hfilled : piece ∈ run :: taken.1 := dropTrailingBlank_subset _ hpiece
      have hrest : run :: taken.1 ⊆ run :: rest :=
        List.cons_subset_cons run (hparts ▸ List.subset_append_left taken.1 taken.2)
      exact ⟨piece, hpieces (hrest hfilled), hmem⟩
    · obtain ⟨piece, hpiece, hmem⟩ := ih hmore
      have hrest : piece ∈ rest := hparts ▸ List.mem_append_right taken.1 hpiece
      exact ⟨piece, hpieces (List.mem_cons_of_mem run hrest), hmem⟩

/-- Filling a paragraph brings in no character but the space. -/
theorem eq_space_or_mem_of_mem_fill {width : Nat} {paragraph line : List Char}
    (hline : line ∈ fill width paragraph) {c : Char} (hc : c ∈ line) :
    c = ' ' ∨ c ∈ paragraph := by
  obtain ⟨run, hrun, hmem⟩ := exists_run_of_mem_fillFrom hline hc
  have hspaced : c ∈ (runs (spaceOut paragraph)).flatten := List.mem_flatten.mpr ⟨run, hrun, hmem⟩
  rw [runs, List.flatten_splitBy] at hspaced
  exact eq_space_or_mem_of_mem_spaceOut hspaced

end Text

namespace Rust

open Text

/-- The lines of a comment: the mark, and then no line end. -/
theorem exists_rest_of_mem_docComment_lines {width : Int} {description line : List Char}
    (h : line ∈ DocComment.lines width description) :
    ∃ rest, line = DocComment.mark ++ rest ∧ ∀ c ∈ rest, isLineEnd c = false := by
  obtain ⟨text, htext, hline⟩ := List.mem_flatMap.mp h
  have hends : ∀ c ∈ text, isLineEnd c = false := not_isLineEnd_of_mem_lines _ text htext
  rw [DocComment.paragraph] at hline
  split at hline
  · rw [List.mem_singleton] at hline
    exact ⟨[], hline, fun c hc => absurd hc List.not_mem_nil⟩
  · obtain ⟨filled, hfilled, rfl⟩ := List.mem_map.mp hline
    refine ⟨' ' :: filled, rfl, ?_⟩
    intro c hc
    have hspace : isLineEnd ' ' = false := by decide
    rcases List.mem_cons.mp hc with rfl | hmem
    · exact hspace
    · rcases eq_space_or_mem_of_mem_fill hfilled hmem with rfl | hfrom
      · exact hspace
      · exact hends c hfrom

/-- A comment on a line of its own: it starts with the mark, and holds nothing that ends it. -/
def CommentLine (indent line : String) : Prop :=
  ∃ rest, line.toList = indent.toList ++ DocComment.mark ++ rest ∧
    ∀ c ∈ rest, isLineEnd c = false

/-- A description is written as comment lines. -/
theorem commentLine_of_docLines {style : Style} {indent : String} {description : Option String}
    {lines : List String} (h : style.docLines indent description = .ok lines) :
    ∀ line ∈ lines, CommentLine indent line := by
  intro line hline
  unfold Style.docLines at h
  split at h
  · cases h
    exact absurd hline List.not_mem_nil
  · split at h
    · cases h
      exact absurd hline List.not_mem_nil
    · split at h
      · cases h
      · split at h
        · cases h
          exact absurd hline List.not_mem_nil
        · cases h
      · cases h
        obtain ⟨written, hwritten, rfl⟩ := List.mem_map.mp hline
        obtain ⟨rest, hrest, hends⟩ := exists_rest_of_mem_docComment_lines hwritten
        refine ⟨rest, ?_, hends⟩
        rw [String.toList_append, String.toList_ofList, hrest, List.append_assoc]

end Rust

end SchemaForge
