import Mathlib
import SchemaForge.Proofs.CommentLines

/-! # Filled comments

Filling a description into comment lines loses nothing but blanks, and keeps within the width that is
asked for except where a single word is wider. The lines stay lines of their own when they are written
together, so no part of a description stands outside of its comment.
-/

namespace SchemaForge

namespace Text

/-! ## What is lost -/

/-- The characters of a text that are no blanks, in order. -/
def withoutBlanks (text : List Char) : List Char := text.filter fun c => !isBlank c

@[simp] theorem withoutBlanks_nil : withoutBlanks [] = [] := rfl

@[simp] theorem withoutBlanks_append (text more : List Char) :
    withoutBlanks (text ++ more) = withoutBlanks text ++ withoutBlanks more :=
  List.filter_append ..

theorem withoutBlanks_cons (c : Char) (text : List Char) :
    withoutBlanks (c :: text) = withoutBlanks [c] ++ withoutBlanks text :=
  withoutBlanks_append [c] text

theorem withoutBlanks_eq_nil {text : List Char} (h : ∀ c ∈ text, isBlank c = true) :
    withoutBlanks text = [] := by
  rw [withoutBlanks, List.filter_eq_nil_iff]
  intro c hc
  simp [h c hc]

theorem withoutBlanks_dropWhile (text : List Char) :
    withoutBlanks (text.dropWhile isBlank) = withoutBlanks text := by
  conv => rhs; rw [← List.takeWhile_append_dropWhile (p := isBlank) (l := text)]
  rw [withoutBlanks_append, withoutBlanks_eq_nil fun c => List.mem_takeWhile_imp, List.nil_append]

theorem withoutBlanks_reverse (text : List Char) :
    withoutBlanks text.reverse = (withoutBlanks text).reverse :=
  List.filter_reverse ..

theorem withoutBlanks_trim (text : List Char) : withoutBlanks (trim text) = withoutBlanks text := by
  rw [trim, trimEnd, withoutBlanks_reverse, withoutBlanks_dropWhile, withoutBlanks_reverse,
    List.reverse_reverse, withoutBlanks_dropWhile]

/-- Line ends are blanks, so the lines of a text lack nothing else. -/
theorem withoutBlanks_lines (text : List Char) :
    withoutBlanks (lines text).flatten = withoutBlanks text := by
  fun_induction lines text with
  | case1 => rfl
  | case2 rest ih =>
    rw [withoutBlanks_cons, withoutBlanks_cons _ rest]
    exact ih
  | case3 c rest _ hc ih =>
    have hblank : withoutBlanks [c] = [] :=
      withoutBlanks_eq_nil (by simpa using isBlank_of_isLineEnd hc)
    rw [withoutBlanks_cons c rest, hblank]
    exact ih
  | case4 c rest _ hc h ih =>
    rw [h] at ih
    rw [withoutBlanks_cons c rest, ← ih]
    exact withoutBlanks_append [c] []
  | case5 c rest _ hc line more h ih =>
    rw [h] at ih
    rw [withoutBlanks_cons c rest, ← ih]
    exact withoutBlanks_cons c (line ++ more.flatten)

/-- Tabs and the spaces that they become are blanks. -/
theorem withoutBlanks_expandTabs (column : Nat) (text : List Char) :
    withoutBlanks (expandTabs column text) = withoutBlanks text := by
  induction text generalizing column with
  | nil => rfl
  | cons c rest ih =>
    rw [expandTabs]
    split
    · rename_i htab
      have hspaces : ∀ d ∈ List.replicate (8 - column % 8) ' ', isBlank d = true := by
        intro d hd
        rw [List.eq_of_mem_replicate hd]
        rfl
      rw [withoutBlanks_append, withoutBlanks_eq_nil hspaces, ih, htab]
      rfl
    · rw [withoutBlanks_cons, ih, ← withoutBlanks_cons]

theorem withoutBlanks_spaceOut (paragraph : List Char) :
    withoutBlanks (spaceOut paragraph) = withoutBlanks paragraph := by
  have hspaces : ∀ text : List Char,
      withoutBlanks (text.map fun c => if isAsciiBlank c then ' ' else c) = withoutBlanks text := by
    intro text
    induction text with
    | nil => rfl
    | cons c rest ih =>
      rw [List.map_cons, withoutBlanks_cons, ih, withoutBlanks_cons c rest]
      congr 1
      split
      · rename_i hascii
        have hblank : withoutBlanks [c] = [] :=
          withoutBlanks_eq_nil (by simpa using isBlank_of_isAsciiBlank hascii)
        rw [hblank]
        rfl
      · rfl
  rw [spaceOut, hspaces, withoutBlanks_expandTabs]

theorem withoutBlanks_of_isBlankRun {run : List Char} (h : isBlankRun run = true) :
    withoutBlanks run = [] :=
  withoutBlanks_eq_nil (List.all_eq_true.mp h)

theorem withoutBlanks_openLine (started : Bool) (pieces : List (List Char)) :
    withoutBlanks (openLine started pieces).flatten = withoutBlanks pieces.flatten := by
  cases pieces with
  | nil => rfl
  | cons run rest =>
    rw [openLine]
    split
    · rename_i hdropped
      have hblank : isBlankRun run = true := (Bool.and_eq_true_iff.mp hdropped).2
      rw [List.flatten_cons, withoutBlanks_append, withoutBlanks_of_isBlankRun hblank,
        List.nil_append]
    · rfl

theorem dropTrailingBlank_cases (line : List (List Char)) :
    dropTrailingBlank line = line ∨
      ∃ run, isBlankRun run = true ∧ line = dropTrailingBlank line ++ [run] := by
  unfold dropTrailingBlank
  split
  · rename_i run hlast
    split
    · rename_i hblank
      exact Or.inr ⟨run, hblank, (List.dropLast_append_getLast? run hlast).symm⟩
    · exact Or.inl rfl
  · exact Or.inl rfl

theorem withoutBlanks_dropTrailingBlank (line : List (List Char)) :
    withoutBlanks (dropTrailingBlank line).flatten = withoutBlanks line.flatten := by
  rcases dropTrailingBlank_cases line with hsame | ⟨run, hblank, hline⟩
  · rw [hsame]
  · conv => rhs; rw [hline]
    rw [List.flatten_append, withoutBlanks_append, List.flatten_singleton,
      withoutBlanks_of_isBlankRun hblank, List.append_nil]

/-- A line and the runs after it hold what the runs before held. -/
theorem withoutBlanks_nextLine (room : Nat) (run : List Char) (rest : List (List Char)) :
    withoutBlanks (dropTrailingBlank (run :: (takeFitting room rest).1)).flatten
      ++ withoutBlanks (takeFitting room rest).2.flatten = withoutBlanks (run :: rest).flatten := by
  rw [withoutBlanks_dropTrailingBlank, ← withoutBlanks_append, ← List.flatten_append,
    List.cons_append, takeFitting_append]

theorem withoutBlanks_fillFrom (width : Nat) (started : Bool) (pieces : List (List Char)) :
    withoutBlanks (fillFrom width started pieces).flatten = withoutBlanks pieces.flatten := by
  fun_induction fillFrom width started pieces with
  | case1 started pieces hopen =>
    rw [← withoutBlanks_openLine started pieces, hopen]
  | case2 started pieces run rest hopen taken line hempty ih =>
    rw [ih, ← withoutBlanks_openLine started pieces, hopen, ← withoutBlanks_nextLine]
    show _ = withoutBlanks line.flatten ++ _
    rw [List.isEmpty_iff.mp hempty]
    rfl
  | case3 started pieces run rest hopen taken line hsome ih =>
    rw [List.flatten_cons, withoutBlanks_append, ih, ← withoutBlanks_openLine started pieces, hopen]
    exact withoutBlanks_nextLine _ run rest

/-- Filling a paragraph loses nothing but blanks. -/
theorem withoutBlanks_fill (width : Nat) (paragraph : List Char) :
    withoutBlanks (fill width paragraph).flatten = withoutBlanks paragraph := by
  rw [fill, withoutBlanks_fillFrom, runs, List.flatten_splitBy, withoutBlanks_spaceOut]

/-! ## Widths -/

theorem length_flatten_takeFitting_le (room : Nat) (pieces : List (List Char)) :
    (takeFitting room pieces).1.flatten.length ≤ room := by
  induction pieces generalizing room with
  | nil => exact Nat.zero_le room
  | cons run rest ih =>
    rw [takeFitting]
    split
    · have hrest := ih (room - run.length)
      rw [List.flatten_cons, List.length_append]
      omega
    · exact Nat.zero_le room

/-- Without room, no run is taken. -/
theorem takeFitting_zero {pieces : List (List Char)} (h : ∀ run ∈ pieces, run ≠ []) :
    (takeFitting 0 pieces).1 = [] := by
  cases pieces with
  | nil => rfl
  | cons run rest =>
    have hrun : 0 < run.length := List.length_pos_iff.mpr (h run List.mem_cons_self)
    rw [takeFitting, if_neg (by omega)]

theorem length_flatten_dropTrailingBlank_le (line : List (List Char)) :
    (dropTrailingBlank line).flatten.length ≤ line.flatten.length := by
  rcases dropTrailingBlank_cases line with hsame | ⟨run, -, hline⟩
  · rw [hsame]
  · conv => rhs; rw [hline]
    rw [List.flatten_append, List.length_append]
    omega

theorem takeFitting_subset_of_openLine {started : Bool} {pieces rest : List (List Char)}
    {run : List Char} (h : openLine started pieces = run :: rest) {room : Nat} :
    (takeFitting room rest).2 ⊆ pieces := by
  intro other hother
  apply openLine_subset started pieces
  rw [h, ← takeFitting_append room rest]
  exact .tail _ (List.mem_append_right _ hother)

/-- A line is within the width, unless it is one of the runs that are not blank. -/
theorem length_le_or_mem_of_mem_fillFrom {width : Nat} {started : Bool}
    {pieces : List (List Char)} (hpieces : ∀ run ∈ pieces, run ≠ []) {line : List Char}
    (h : line ∈ fillFrom width started pieces) :
    line.length ≤ width ∨ line ∈ pieces ∧ isBlankRun line = false := by
  fun_induction fillFrom width started pieces with
  | case1 => exact absurd h List.not_mem_nil
  | case2 started pieces run rest hopen taken filled hempty ih =>
    have hleft : taken.2 ⊆ pieces := takeFitting_subset_of_openLine hopen
    refine (ih (fun other hother => hpieces other (hleft hother)) h).imp_right fun hrun => ?_
    exact ⟨hleft hrun.1, hrun.2⟩
  | case3 started pieces run rest hopen taken filled hsome ih =>
    have hleft : taken.2 ⊆ pieces := takeFitting_subset_of_openLine hopen
    rcases List.mem_cons.mp h with rfl | hmore
    · have hrun : run :: rest ⊆ pieces := hopen ▸ openLine_subset started pieces
      by_cases hwide : run.length ≤ width
      · left
        have hfilled : filled.flatten.length ≤ (run :: taken.1).flatten.length :=
          length_flatten_dropTrailingBlank_le (run :: taken.1)
        have htaken : taken.1.flatten.length ≤ width - run.length :=
          length_flatten_takeFitting_le _ rest
        rw [List.flatten_cons, List.length_append] at hfilled
        omega
      · -- the run leaves no room, so it is the whole line
        right
        have hroom : width - run.length = 0 := by omega
        have hnone : taken.1 = [] := by
          show (takeFitting (width - run.length) rest).1 = []
          rw [hroom]
          exact takeFitting_zero fun other hother => hpieces other (hrun (.tail _ hother))
        have hfilled : filled = dropTrailingBlank [run] := by
          show dropTrailingBlank (run :: taken.1) = _
          rw [hnone]
        have hblank : isBlankRun run = false := by
          by_contra hblank
          rw [Bool.not_eq_false] at hblank
          rw [hfilled] at hsome
          exact hsome (by simp [dropTrailingBlank, hblank])
        have hline : filled.flatten = run := by
          rw [hfilled]
          simp [dropTrailingBlank, hblank]
        rw [hline]
        exact ⟨hrun List.mem_cons_self, hblank⟩
    · refine (ih (fun other hother => hpieces other (hleft hother)) hmore).imp_right fun hrun => ?_
      exact ⟨hleft hrun.1, hrun.2⟩

/-- A run holds blanks that separate words, or it holds none. -/
theorem isAsciiBlank_eq_of_mem_runs {paragraph run : List Char} (h : run ∈ runs paragraph)
    {c d : Char} (hc : c ∈ run) (hd : d ∈ run) : isAsciiBlank c = isAsciiBlank d := by
  have hchain : (run.map isAsciiBlank).IsChain Eq := by
    rw [List.isChain_map]
    exact (List.isChain_of_mem_splitBy h).imp fun a b hsame => by simpa using hsame
  have hpairs : (run.map isAsciiBlank).Pairwise Eq := List.isChain_iff_pairwise.mp hchain
  exact List.Pairwise.forall_of_forall (fun _ _ => rfl) hpairs (List.mem_map_of_mem hc)
    (List.mem_map_of_mem hd)

/-- A filled line is within the width, or it is a single word. -/
theorem length_le_or_word_of_mem_fill {width : Nat} {paragraph line : List Char}
    (h : line ∈ fill width paragraph) :
    line.length ≤ width ∨ line ≠ [] ∧ ∀ c ∈ line, isAsciiBlank c = false := by
  have hruns : ∀ run ∈ runs (spaceOut paragraph), run ≠ [] := fun _ => List.ne_nil_of_mem_splitBy
  refine (length_le_or_mem_of_mem_fillFrom hruns h).imp_right ?_
  rintro ⟨hline, hblank⟩
  refine ⟨hruns line hline, fun c hc => ?_⟩
  obtain ⟨d, hd, hink⟩ : ∃ d ∈ line, isBlank d = false := by simpa [isBlankRun] using hblank
  rw [isAsciiBlank_eq_of_mem_runs hline hc hd]
  by_contra hascii
  rw [isBlank_of_isAsciiBlank (by simpa using hascii)] at hink
  cases hink

/-! ## Lines written together -/

theorem lines_cons {c : Char} (h : isLineEnd c = false) (rest : List Char) :
    lines (c :: rest) = ((lines rest).head?.getD []).cons c :: (lines rest).tail := by
  rw [lines]
  · rw [if_neg (by simp [h])]
    cases lines rest <;> rfl
  · rintro _ rfl _
    revert h
    decide

theorem lines_append_lineFeed {line : List Char} (h : ∀ c ∈ line, isLineEnd c = false)
    (rest : List Char) : lines (line ++ '\n' :: rest) = line :: lines rest := by
  induction line with
  | nil =>
    rw [List.nil_append, lines, if_pos (by decide)]
    exact fun _ hreturn _ => absurd hreturn (by decide)
  | cons c more ih =>
    rw [List.forall_mem_cons] at h
    rw [List.cons_append, lines_cons h.1, ih h.2]
    rfl

theorem lines_of_not_isLineEnd {line : List Char} (hsome : line ≠ [])
    (h : ∀ c ∈ line, isLineEnd c = false) : lines line = [line] := by
  induction line with
  | nil => exact absurd rfl hsome
  | cons c more ih =>
    rw [List.forall_mem_cons] at h
    rw [lines_cons h.1]
    cases more with
    | nil => rfl
    | cons d rest =>
      rw [ih (List.cons_ne_nil d rest) h.2]
      rfl

/-- Lines that are written one below the other are the lines of what is written. -/
theorem lines_join {pieces : List (List Char)} (hsome : ∀ line ∈ pieces, line ≠ [])
    (h : ∀ line ∈ pieces, ∀ c ∈ line, isLineEnd c = false) : lines (join ['\n'] pieces) = pieces := by
  induction pieces with
  | nil => rfl
  | cons line rest ih =>
    rw [List.forall_mem_cons] at hsome h
    cases rest with
    | nil => simpa [join] using lines_of_not_isLineEnd hsome.1 h.1
    | cons next more =>
      have hjoin : join ['\n'] (line :: next :: more)
          = line ++ '\n' :: join ['\n'] (next :: more) := by
        rw [join, List.intersperse_cons_cons]
        rfl
      rw [hjoin, lines_append_lineFeed h.1, ih hsome.2 h.2]

end Text

namespace Rust

open Text

namespace DocComment

/-- A comment line of a single word. -/
def LoneWord (line : List Char) : Prop :=
  ∃ word, word ≠ [] ∧ line = mark ++ ' ' :: word ∧ ∀ c ∈ word, isAsciiBlank c = false

/-- The text is written as a comment of the width: every line has the mark, behind the marks nothing
but blanks is lost, and a line is as narrow as that, or as twenty columns of text need, unless it is a
single word. -/
structure Wraps (width : Int) (text comment : List Char) : Prop where
  marked : ∀ line ∈ Text.lines comment, mark <+: line
  kept : withoutBlanks ((Text.lines comment).flatMap fun line => line.drop mark.length)
    = withoutBlanks text
  narrow : ∀ line ∈ Text.lines comment, (line.length : Int) ≤ max width 24 ∨ LoneWord line

/-- Each comment line is a line of the comment that is written. -/
theorem lines_write (width : Int) (description : String) :
    Text.lines (write width description).toList = lines width description.toList := by
  rw [write, String.toList_ofList]
  apply lines_join
  · intro line hline
    obtain ⟨rest, rfl, -⟩ := exists_rest_of_mem_docComment_lines hline
    exact List.cons_ne_nil _ _
  · intro line hline c hc
    obtain ⟨rest, rfl, hends⟩ := exists_rest_of_mem_docComment_lines hline
    have hslash : isLineEnd '/' = false := by decide
    have hmark : ∀ d ∈ mark, isLineEnd d = false := by simp [mark, hslash]
    exact (List.mem_append.mp hc).elim (hmark c) (hends c)

theorem withoutBlanks_paragraph (width : Int) (text : List Char) :
    withoutBlanks ((paragraph width text).flatMap fun line => line.drop mark.length)
      = withoutBlanks text := by
  have hfill := withoutBlanks_fill (textWidth width) text
  rw [paragraph]
  split
  · rename_i hnone
    rw [hnone] at hfill
    exact hfill
  · rw [← hfill, List.flatMap_map]
    generalize fill (textWidth width) text = filled
    induction filled with
    | nil => rfl
    | cons line rest ih =>
      rw [List.flatMap_cons, List.flatten_cons, withoutBlanks_append, withoutBlanks_append, ih]
      congr 1

theorem withoutBlanks_lines (width : Int) (text : List Char) :
    withoutBlanks ((lines width text).flatMap fun line => line.drop mark.length)
      = withoutBlanks text := by
  rw [lines, List.flatMap_assoc, ← withoutBlanks_trim text, ← Text.withoutBlanks_lines (trim text)]
  generalize Text.lines (trim text) = paragraphs
  induction paragraphs with
  | nil => rfl
  | cons first rest ih =>
    rw [List.flatMap_cons, List.flatten_cons, withoutBlanks_append, withoutBlanks_append, ih,
      withoutBlanks_paragraph]

theorem length_le_or_loneWord_of_mem_lines {width : Int} {text line : List Char}
    (h : line ∈ lines width text) : (line.length : Int) ≤ max width 24 ∨ LoneWord line := by
  obtain ⟨part, -, hline⟩ := List.mem_flatMap.mp h
  rw [paragraph] at hline
  split at hline
  · left
    rw [List.mem_singleton.mp hline, show mark.length = 3 from rfl]
    omega
  · obtain ⟨filled, hfilled, rfl⟩ := List.mem_map.mp hline
    rcases length_le_or_word_of_mem_fill hfilled with hnarrow | ⟨hsome, hword⟩
    · left
      rw [textWidth] at hnarrow
      rw [List.length_append, List.length_cons, show mark.length = 3 from rfl]
      omega
    · exact Or.inr ⟨filled, hsome, rfl, hword⟩

end DocComment

/-- A description that is there is written as the lines of its comment, each of them indented. -/
theorem docLines_eq {style : Style} {width : Int} (h : style.lineLength = .columns width)
    (indent description : String) :
    style.docLines indent (some description)
      = .ok ((Text.lines (DocComment.write (width - indent.length) description).toList).map
          fun line => indent ++ String.ofList line) := by
  rw [DocComment.lines_write]
  unfold Style.docLines
  dsimp only
  split
  · rename_i hempty
    rw [String.isEmpty_iff.mp hempty]
    rfl
  · rw [h]

/-- A description is written as a comment of the width that is asked for. Where a line leaves room for
the indentation and for twenty columns of text, the indented lines of the comment are within its length,
except for lines of a single word. -/
theorem DocComment.wraps_write (width : Int) (description : String) :
    DocComment.Wraps width description.toList (DocComment.write width description).toList ∧
      ∀ (style : Style) (indent : String) (lineLength : Int),
        style.lineLength = .columns lineLength → indent.length + 24 ≤ lineLength →
        ∃ comment : List (List Char),
          comment = Text.lines (write (lineLength - indent.length) description).toList ∧
          style.docLines indent (some description)
            = .ok (comment.map fun line => indent ++ String.ofList line) ∧
          ∀ line ∈ comment, ((indent ++ String.ofList line).length : Int) ≤ lineLength ∨
            LoneWord line := by
  refine ⟨⟨?_, ?_, ?_⟩, ?_⟩
  · intro line hline
    rw [lines_write] at hline
    obtain ⟨rest, rfl, -⟩ := exists_rest_of_mem_docComment_lines hline
    exact List.prefix_append mark rest
  · rw [lines_write]
    exact withoutBlanks_lines width description.toList
  · intro line hline
    rw [lines_write] at hline
    exact length_le_or_loneWord_of_mem_lines hline
  · intro style indent lineLength hlength hroom
    refine ⟨_, rfl, docLines_eq hlength indent description, fun line hline => ?_⟩
    rw [lines_write] at hline
    refine (length_le_or_loneWord_of_mem_lines hline).imp_left fun hnarrow => ?_
    rw [String.length_append, String.length_ofList]
    omega

/-- A word that is wider than the comment of a member stands on a line of its own. -/
theorem DocComment.wraps_write_wideWord :
    let description := "See\tpneumonoultramicroscopic\u2028 once"
    let style : Style := { derives := .ok [], mapType := "HashMap", lineLength := .columns 28 }
    Wraps 24 description.toList (write 24 description).toList ∧ style.lineLength = .columns 28 ∧
      (Style.indent.length : Int) + 24 ≤ 28 ∧
      ∃ comment : List (List Char),
        comment = ["/// See", "/// pneumonoultramicroscopic", "///  once"].map String.toList ∧
        style.docLines Style.indent (some description)
          = .ok (comment.map fun line => Style.indent ++ String.ofList line) ∧
        ∀ line ∈ comment, ((Style.indent ++ String.ofList line).length : Int) ≤ 28 ∨
          LoneWord line := by
  intro description style
  have hroom : (Style.indent.length : Int) + 24 ≤ 28 := by decide
  obtain ⟨hwraps, hmember⟩ := wraps_write 24 description
  obtain ⟨comment, hcomment, hlines, hnarrow⟩ := hmember style Style.indent 28 rfl hroom
  refine ⟨hwraps, rfl, hroom, comment, ?_, hlines, hnarrow⟩
  rw [hcomment]
  cbv

end Rust

end SchemaForge
