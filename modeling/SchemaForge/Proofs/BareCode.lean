import SchemaForge.Output.Validation
import SchemaForge.Proofs.CommentLines
import SchemaForge.Proofs.Literals

/-! # Bare code

How validation takes a source text apart. Literals are emptied before comments are known, so a part
of the text counts the same wherever it stands only if it closes the literals it opens and ends with
its line. Such parts are counted one by one.
-/

namespace SchemaForge.Output

open Rust

/-- Text that closes each string literal it opens. -/
inductive Closed : List Char → Prop
  | nil : Closed []
  | plain {c : Char} {rest : List Char} (hc : c ≠ '\x22') (h : Closed rest) : Closed (c :: rest)
  | literal {body after : List Char} (hclose : Literal.afterClosing? body = some after)
      (h : Closed after) : Closed ('\x22' :: body)

/-! ## Emptying literals -/

theorem emptyLiterals_cons {c : Char} (hc : c ≠ '\x22') (rest : List Char) :
    emptyLiterals (c :: rest) = c :: emptyLiterals rest := by
  rw [emptyLiterals, if_neg hc]

theorem emptyLiterals_literal {body after : List Char}
    (h : Literal.afterClosing? body = some after) :
    emptyLiterals ('\x22' :: body) = '\x22' :: '\x22' :: emptyLiterals after := by
  rw [emptyLiterals, if_pos rfl]
  split
  · rename_i other hother
    rw [h, Option.some.injEq] at hother
    rw [hother]
  · rename_i hnone
    rw [h] at hnone
    cases hnone

/-- Text that closes its literals is emptied of them whatever follows. -/
theorem Closed.emptyLiterals_append {text : List Char} (h : Closed text) (rest : List Char) :
    emptyLiterals (text ++ rest) = emptyLiterals text ++ emptyLiterals rest := by
  induction h with
  | nil => simp [emptyLiterals]
  | plain hc _ ih =>
    rw [List.cons_append, emptyLiterals_cons hc, emptyLiterals_cons hc, ih, List.cons_append]
  | literal hclose _ ih =>
    have hmore := Literal.afterClosing?_append_of_eq_some hclose rest
    rw [List.cons_append, emptyLiterals_literal hmore, emptyLiterals_literal hclose, ih,
      List.cons_append, List.cons_append]

theorem Closed.append {text more : List Char} (h : Closed text) (hmore : Closed more) :
    Closed (text ++ more) := by
  induction h with
  | nil => exact hmore
  | plain hc _ ih => exact .plain hc ih
  | literal hclose _ ih =>
    exact .literal (Literal.afterClosing?_append_of_eq_some hclose more) ih

theorem closed_of_not_mem {text : List Char} (h : '\x22' ∉ text) : Closed text := by
  induction text with
  | nil => exact .nil
  | cons c rest ih =>
    rw [List.mem_cons, not_or] at h
    exact .plain (Ne.symm h.1) (ih h.2)

theorem emptyLiterals_of_not_mem {text : List Char} (h : '\x22' ∉ text) :
    emptyLiterals text = text := by
  induction text with
  | nil => rw [emptyLiterals]
  | cons c rest ih =>
    rw [List.mem_cons, not_or] at h
    rw [emptyLiterals_cons (Ne.symm h.1), ih h.2]

theorem closed_encode (text : List Char) : Closed (Literal.encode text) :=
  .literal (Literal.afterClosing?_append text []) .nil

theorem emptyLiterals_encode (text : List Char) :
    emptyLiterals (Literal.encode text) = ['\x22', '\x22'] := by
  have hclose := Literal.afterClosing?_append text []
  rw [show Literal.encode text = '\x22' :: (text.flatMap Literal.escapeChar ++ ['\x22']) from rfl,
    emptyLiterals_literal hclose, emptyLiterals]

/-! ## Dropping comments -/

/-- Inside of a comment every character is dropped. -/
theorem dropComments_true_cons {c : Char} (hc : c ≠ '\n') (rest : List Char) :
    dropComments true (c :: rest) = dropComments true rest := by
  induction rest generalizing c with
  | nil => simp [dropComments]
  | cons d more ih =>
    by_cases hpair : c = '/' ∧ d = '/'
    · -- two slashes open a comment inside of the comment
      obtain ⟨rfl, rfl⟩ := hpair
      rw [dropComments, ih (by decide)]
    · rw [dropComments]
      · rfl
      · exact fun h => hc h
      · exact fun _ h hrest => hpair ⟨h, (List.cons.inj hrest).1⟩

theorem dropComments_true_append {text : List Char} (h : '\n' ∉ text) (rest : List Char) :
    dropComments true (text ++ rest) = dropComments true rest := by
  induction text with
  | nil => rfl
  | cons c more ih =>
    rw [List.mem_cons, not_or] at h
    rw [List.cons_append, dropComments_true_cons (Ne.symm h.1), ih h.2]

/-- A character that opens no comment stays. -/
theorem dropComments_false_cons {c : Char} (hc : c ≠ '/') (rest : List Char) :
    dropComments false (c :: rest) = c :: dropComments false rest := by
  by_cases hline : c = '\n'
  · rw [hline, dropComments]
  · rw [dropComments]
    · rfl
    · exact fun h => hline h
    · exact fun _ h _ => hc h

theorem dropComments_false_append {text : List Char} (h : '/' ∉ text) (rest : List Char) :
    dropComments false (text ++ rest) = text ++ dropComments false rest := by
  induction text with
  | nil => rfl
  | cons c more ih =>
    rw [List.mem_cons, not_or] at h
    rw [List.cons_append, dropComments_false_cons (Ne.symm h.1), ih h.2, List.cons_append]

theorem dropComments_false_of_not_mem {text : List Char} (h : '/' ∉ text) :
    dropComments false text = text := by
  have happend := dropComments_false_append h []
  rwa [List.append_nil, dropComments, List.append_nil] at happend

/-- A line feed ends a comment, so what follows it is read on its own. -/
theorem dropComments_append_line (inside : Bool) (text rest : List Char) :
    dropComments inside (text ++ '\n' :: rest)
      = dropComments inside text ++ '\n' :: dropComments false rest := by
  fun_induction dropComments inside text with
  | case1 inside => rw [List.nil_append, List.nil_append, dropComments]
  | case2 inside more ih => rw [List.cons_append, dropComments, ih, List.cons_append]
  | case3 inside more ih => rw [List.cons_append, List.cons_append, dropComments, ih]
  | case4 c more hline hpair ih =>
    rw [List.cons_append, dropComments_true_cons hline, ih]
  | case5 inside c more hline hpair hinside ih =>
    have hopen : ∀ after, c = '/' → more ++ '\n' :: rest = '/' :: after → False := by
      intro after hc hafter
      cases more with
      | nil => exact absurd (List.cons.inj hafter).1 (by decide)
      | cons d more => exact hpair more hc (by rw [(List.cons.inj hafter).1])
    rw [List.cons_append, dropComments, if_neg hinside, ih, List.cons_append]
    · exact hline
    · exact hopen

/-! ## Parts that are read on their own -/

/-- Text that is read without regard to what follows it, and lets that be read on its own. -/
def Separate (text : List Char) : Prop :=
  ∀ rest, bareCode (text ++ rest) = bareCode text ++ bareCode rest

theorem separate_nil : Separate [] := by
  intro rest
  simp [bareCode, emptyLiterals, dropComments]

theorem Separate.append {text more : List Char} (h : Separate text) (hmore : Separate more) :
    Separate (text ++ more) := by
  intro rest
  rw [List.append_assoc, h, hmore, h, List.append_assoc]

theorem Closed.bareCode_append_line {text : List Char} (h : Closed text) (rest : List Char) :
    bareCode (text ++ '\n' :: rest) = bareCode text ++ '\n' :: bareCode rest := by
  rw [bareCode, h.emptyLiterals_append, emptyLiterals_cons (by decide), dropComments_append_line]
  rfl

/-- Lines that close the literals they open are read on their own. -/
theorem Closed.separate {text : List Char} (h : Closed text) : Separate (text ++ ['\n']) := by
  intro rest
  rw [List.append_assoc, List.singleton_append, h.bareCode_append_line, h.bareCode_append_line]
  simp [bareCode, emptyLiterals, dropComments]

/-- Text without quotation marks and slashes is bare code. -/
theorem bareCode_of_not_mem {text : List Char} (hmark : '\x22' ∉ text) (hslash : '/' ∉ text) :
    bareCode text = text := by
  rw [bareCode, emptyLiterals_of_not_mem hmark, dropComments_false_of_not_mem hslash]

theorem closed_literal {front back : List Char} (hfront : '\x22' ∉ front) (hback : '\x22' ∉ back)
    (text : List Char) : Closed (front ++ (Literal.encode text ++ back)) :=
  (closed_of_not_mem hfront).append ((closed_encode text).append (closed_of_not_mem hback))

/-- Of a literal within bare code only its marks are left. -/
theorem bareCode_literal {front back : List Char} (hfront : '\x22' ∉ front ∧ '/' ∉ front)
    (hback : '\x22' ∉ back ∧ '/' ∉ back) (text : List Char) :
    bareCode (front ++ (Literal.encode text ++ back)) = front ++ (['\x22', '\x22'] ++ back) := by
  have hempty : emptyLiterals (front ++ (Literal.encode text ++ back))
      = front ++ (['\x22', '\x22'] ++ back) := by
    rw [(closed_of_not_mem hfront.1).emptyLiterals_append, (closed_encode text).emptyLiterals_append,
      emptyLiterals_of_not_mem hfront.1, emptyLiterals_encode, emptyLiterals_of_not_mem hback.1]
  have hslash : '/' ∉ front ++ (['\x22', '\x22'] ++ back) := by
    simp [hfront.2, hback.2]
  rw [bareCode, hempty, dropComments_false_of_not_mem hslash]

/-! ## Comments -/

/-- Text that starts within a comment, each further line of which is an indented comment. -/
inductive Commented (indent : List Char) : List Char → Prop
  | nil : Commented indent []
  | char {c : Char} {rest : List Char} (hc : c ≠ '\n') (h : Commented indent rest) :
      Commented indent (c :: rest)
  | last : Commented indent ['\n']
  | line {rest : List Char} (h : Commented indent rest) :
      Commented indent ('\n' :: (indent ++ DocComment.mark ++ rest))

theorem not_mem_of_not_isLineEnd {text : List Char}
    (h : ∀ c ∈ text, Text.isLineEnd c = false) : '\n' ∉ text :=
  fun hmem => absurd (h '\n' hmem) (by decide)

theorem commented_append {indent text rest : List Char} (htext : '\n' ∉ text)
    (h : Commented indent rest) : Commented indent (text ++ rest) := by
  induction text with
  | nil => exact h
  | cons c more ih =>
    rw [List.mem_cons, not_or] at htext
    exact .char (Ne.symm htext.1) (ih htext.2)

section Indented

variable {indent : List Char} (hindent : ∀ c ∈ indent, c = ' ')

include hindent

theorem not_mem_indent {c : Char} (hc : c ≠ ' ') : c ∉ indent :=
  fun hmem => hc (hindent c hmem)

/-- An indented mark holds nothing but blanks and slashes. -/
theorem not_mem_indent_mark {c : Char} (hspace : c ≠ ' ') (hslash : c ≠ '/') :
    c ∉ indent ++ DocComment.mark := by
  rw [List.mem_append, not_or]
  refine ⟨not_mem_indent hindent hspace, ?_⟩
  intro hmem
  have hall : ∀ d ∈ DocComment.mark, d = '/' := by simp [DocComment.mark]
  exact hslash (hall c hmem)

theorem Commented.of_cons {c : Char} {rest : List Char} (h : Commented indent (c :: rest)) :
    Commented indent rest := by
  cases h with
  | char _ h => exact h
  | last => exact .nil
  | line h => exact commented_append (not_mem_indent_mark hindent (by decide) (by decide)) h

theorem Commented.of_suffix {text rest : List Char} (h : Commented indent text)
    (hsuffix : rest <:+ text) : Commented indent rest := by
  obtain ⟨front, rfl⟩ := hsuffix
  induction front with
  | nil => exact h
  | cons c more ih => exact ih (h.of_cons hindent)

theorem emptyLiterals_mark_append (rest : List Char) :
    emptyLiterals (indent ++ DocComment.mark ++ rest)
      = indent ++ DocComment.mark ++ emptyLiterals rest := by
  have hmark : '\x22' ∉ indent ++ DocComment.mark :=
    not_mem_indent_mark hindent (by decide) (by decide)
  rw [(closed_of_not_mem hmark).emptyLiterals_append, emptyLiterals_of_not_mem hmark]

/-- A mark opens a comment. -/
theorem dropComments_mark_append (rest : List Char) :
    dropComments false (indent ++ DocComment.mark ++ rest)
      = indent ++ dropComments true rest := by
  rw [List.append_assoc, dropComments_false_append (not_mem_indent hindent (by decide))]
  show indent ++ dropComments false ('/' :: '/' :: '/' :: rest) = _
  rw [dropComments, dropComments_true_cons (by decide)]

/-- Of a comment nothing is left but its line feeds and the indentation of its lines. Literals that
are emptied first only take parts of the comment away. -/
theorem Commented.eq_of_mem_dropComments {text : List Char} (h : Commented indent text) :
    ∀ c ∈ dropComments true (emptyLiterals text), c = '\n' ∨ c = ' ' := by
  -- along the emptying of literals: one may take lines of the comment away, and what is left behind
  -- it starts within the comment again
  fun_induction emptyLiterals text with
  | case1 => simp [dropComments]
  | case2 rest after hclose ih =>
    rw [dropComments_true_cons (by decide), dropComments_true_cons (by decide)]
    exact ih ((h.of_cons hindent).of_suffix hindent (Literal.suffix_of_afterClosing? hclose))
  | case3 rest hclose ih =>
    rw [dropComments_true_cons (by decide)]
    exact ih (h.of_cons hindent)
  | case4 c rest hc ih =>
    have hrest := ih (h.of_cons hindent)
    by_cases hline : c = '\n'
    · subst hline
      rw [dropComments, List.forall_mem_cons]
      refine ⟨Or.inl rfl, ?_⟩
      cases h with
      | char hne => exact absurd rfl hne
      | last => simp [emptyLiterals, dropComments]
      | @line more h =>
        have hfeed : '\n' ∉ indent ++ DocComment.mark :=
          not_mem_indent_mark hindent (by decide) (by decide)
        rw [emptyLiterals_mark_append hindent] at hrest ⊢
        rw [dropComments_true_append hfeed] at hrest
        rw [dropComments_mark_append hindent]
        intro d hd
        rcases List.mem_append.mp hd with hspace | hmore
        · exact Or.inr (hindent d hspace)
        · exact hrest d hmore
    · rw [dropComments_true_cons hline]
      exact hrest

/-- The bare code of a comment that starts its line. -/
theorem Commented.eq_of_mem_bareCode {rest : List Char} (h : Commented indent rest) :
    ∀ c ∈ bareCode (indent ++ DocComment.mark ++ rest), c = '\n' ∨ c = ' ' := by
  intro c hc
  rw [bareCode, emptyLiterals_mark_append hindent, dropComments_mark_append hindent] at hc
  rcases List.mem_append.mp hc with hspace | hrest
  · exact Or.inr (hindent c hspace)
  · exact h.eq_of_mem_dropComments hindent c hrest

end Indented

/-! ## Lines -/

/-- Lines with a line feed after each of them. -/
def ended (lines : List String) : List Char :=
  lines.flatMap fun line => line.toList ++ ['\n']

theorem ended_nil : ended [] = [] := rfl

/-- Written out for a line that is known by its characters, as every literal is. -/
theorem ended_cons {text chars : List Char} {lines : List String} (h : ended lines = chars) :
    ended (String.ofList text :: lines) = text ++ '\n' :: chars := by
  rw [ended, List.flatMap_cons, ← ended, h, String.toList_ofList, List.append_assoc]
  rfl

theorem ended_append (lines more : List String) :
    ended (lines ++ more) = ended lines ++ ended more :=
  List.flatMap_append

theorem ended_eq_intercalate {lines : List String} (h : lines ≠ []) :
    ended lines = ("\n".intercalate lines).toList ++ ['\n'] := by
  rw [String.toList_intercalate]
  induction lines with
  | nil => exact absurd rfl h
  | cons line more ih =>
    cases more with
    | nil => simp [ended, List.intercalate]
    | cons next rest =>
      have hmore := ih (List.cons_ne_nil _ _)
      rw [ended, List.flatMap_cons, ← ended, hmore]
      simp [List.intercalate]

/-- Lines that are read on their own, with the numbers of opening and of closing braces in their
bare code. -/
structure Braces (lines : List String) (opened closed : Nat) : Prop where
  separate : Separate (ended lines)
  count_opened : (bareCode (ended lines)).count '\x7b' = opened
  count_closed : (bareCode (ended lines)).count '\x7d' = closed

theorem braces_nil : Braces [] 0 0 := by
  refine ⟨separate_nil, ?_, ?_⟩ <;> simp [ended, bareCode, emptyLiterals, dropComments]

theorem bareCode_ended_append {lines : List String} (h : Separate (ended lines))
    (more : List String) :
    bareCode (ended (lines ++ more)) = bareCode (ended lines) ++ bareCode (ended more) := by
  rw [ended_append, h]

theorem Braces.append {lines more : List String} {opened closed opened' closed' : Nat}
    (h : Braces lines opened closed) (hmore : Braces more opened' closed') :
    Braces (lines ++ more) (opened + opened') (closed + closed') where
  separate := by
    rw [ended_append]
    exact h.separate.append hmore.separate
  count_opened := by
    rw [bareCode_ended_append h.separate, List.count_append, h.count_opened, hmore.count_opened]
  count_closed := by
    rw [bareCode_ended_append h.separate, List.count_append, h.count_closed, hmore.count_closed]

/-- Lines that are read on their own, with as many closing as opening braces in their bare code. -/
def InBalance (lines : List String) : Prop := ∃ count, Braces lines count count

theorem Braces.inBalance {lines : List String} {count : Nat} (h : Braces lines count count) :
    InBalance lines := ⟨count, h⟩

theorem InBalance.separate {lines : List String} (h : InBalance lines) : Separate (ended lines) := by
  obtain ⟨count, hbraces⟩ := h
  exact hbraces.separate

theorem InBalance.append {lines more : List String} (h : InBalance lines) (hmore : InBalance more) :
    InBalance (lines ++ more) := by
  obtain ⟨count, hbraces⟩ := h
  obtain ⟨count', hbraces'⟩ := hmore
  exact ⟨count + count', hbraces.append hbraces'⟩

theorem braces_flatten {blocks : List (List String)} (h : ∀ lines ∈ blocks, Braces lines 0 0) :
    Braces blocks.flatten 0 0 := by
  induction blocks with
  | nil => exact braces_nil
  | cons lines more ih =>
    rw [List.forall_mem_cons] at h
    exact h.1.append (ih h.2)

/-- Lines without quotation marks are read on their own. -/
theorem balanced_of_not_mem {lines : List String} {text : List Char} (hended : ended lines = text)
    (hsome : lines ≠ [])
    (h : '\x22' ∉ text ∧ (dropComments false text).count '\x7b'
      = (dropComments false text).count '\x7d') : InBalance lines := by
  subst hended
  obtain ⟨hmark, hcount⟩ := h
  have hbare : bareCode (ended lines) = dropComments false (ended lines) := by
    rw [bareCode, emptyLiterals_of_not_mem hmark]
  refine ⟨_, ?_, by rw [hbare], by rw [hbare, hcount]⟩
  rw [ended_eq_intercalate hsome, List.mem_append, not_or] at hmark
  rw [ended_eq_intercalate hsome]
  exact (closed_of_not_mem hmark.1).separate

theorem Closed.bareCode_ended {line : String} (h : Closed line.toList) :
    bareCode (ended [line]) = bareCode line.toList ++ ['\n'] := by
  have hended : ended [line] = line.toList ++ ['\n'] := List.flatMap_singleton _ _
  rw [hended, h.bareCode_append_line]
  simp [bareCode, emptyLiterals, dropComments]

/-- A line that closes the literals it opens is read on its own. -/
theorem Closed.braces {line : String} (h : Closed line.toList) :
    Braces [line] ((bareCode line.toList).count '\x7b')
      ((bareCode line.toList).count '\x7d') where
  separate := by
    rw [ended_eq_intercalate (List.cons_ne_nil _ _)]
    exact h.separate
  count_opened := by
    rw [h.bareCode_ended, List.count_append, List.count_singleton]
    rfl
  count_closed := by
    rw [h.bareCode_ended, List.count_append, List.count_singleton]
    rfl

/-- Comment lines are a comment throughout. -/
theorem exists_commented {indent line : String} {more : List String}
    (h : ∀ other ∈ line :: more, CommentLine indent other) :
    ∃ rest, ended (line :: more) = indent.toList ++ DocComment.mark ++ rest ∧
      Commented indent.toList rest := by
  induction more generalizing line with
  | nil =>
    obtain ⟨rest, hline, hends⟩ := h line List.mem_cons_self
    refine ⟨rest ++ ['\n'], ?_, commented_append (not_mem_of_not_isLineEnd hends) .last⟩
    simp [ended, hline]
  | cons next more ih =>
    rw [List.forall_mem_cons] at h
    obtain ⟨⟨rest, hline, hends⟩, hmore⟩ := h
    obtain ⟨further, hended, hcommented⟩ := ih hmore
    refine ⟨rest ++ '\n' :: (indent.toList ++ DocComment.mark ++ further), ?_,
      commented_append (not_mem_of_not_isLineEnd hends) (.line hcommented)⟩
    rw [ended, List.flatMap_cons, ← ended, hended, hline]
    simp

/-- Comment lines that close the literals they open hold no braces. -/
theorem braces_of_commentLine {indent : String} (hindent : ∀ c ∈ indent.toList, c = ' ')
    {lines : List String} (hcomment : ∀ line ∈ lines, CommentLine indent line)
    (hclosed : Closed ("\n".intercalate lines).toList) : Braces lines 0 0 := by
  cases lines with
  | nil => exact braces_nil
  | cons line more =>
    obtain ⟨rest, hended, hcommented⟩ := exists_commented hcomment
    have hbare : ∀ c ∈ bareCode (ended (line :: more)), c = '\n' ∨ c = ' ' := by
      rw [hended]
      exact hcommented.eq_of_mem_bareCode hindent
    refine ⟨?_, ?_, ?_⟩
    · rw [ended_eq_intercalate (List.cons_ne_nil _ _)]
      exact hclosed.separate
    · rw [List.count_eq_zero]
      intro hmem
      exact absurd (hbare _ hmem) (by decide)
    · rw [List.count_eq_zero]
      intro hmem
      exact absurd (hbare _ hmem) (by decide)

/-! ## Declarations -/

/-- Lines with the beginning of a declaration in their bare code. -/
def Declares (lines : List String) : Prop :=
  ∃ head ∈ declarationHeads, head <:+: bareCode (ended lines)

theorem Declares.ne_nil {lines : List String} (h : Declares lines) : lines ≠ [] := by
  rintro rfl
  obtain ⟨head, hhead, hinfix⟩ := h
  have hempty : bareCode (ended []) = [] := by
    simp [ended, bareCode, emptyLiterals, dropComments]
  have hsome : ∀ head ∈ declarationHeads, head ≠ [] := by decide
  rw [hempty, List.infix_nil] at hinfix
  exact hsome head hhead hinfix

theorem Declares.append_left {lines : List String} (h : Declares lines) {front : List String}
    (hfront : Separate (ended front)) : Declares (front ++ lines) := by
  obtain ⟨head, hhead, hinfix⟩ := h
  refine ⟨head, hhead, ?_⟩
  rw [bareCode_ended_append hfront]
  exact hinfix.trans (List.suffix_append _ _).isInfix

theorem Declares.append_right {lines : List String} (h : Declares lines)
    (hseparate : Separate (ended lines)) (more : List String) : Declares (lines ++ more) := by
  obtain ⟨head, hhead, hinfix⟩ := h
  refine ⟨head, hhead, ?_⟩
  rw [bareCode_ended_append hseparate]
  exact hinfix.trans (List.prefix_append _ _).isInfix

/-- A line of bare code that starts as a declaration does. -/
theorem declares_line {head line : String} (hhead : head.toList ∈ declarationHeads)
    (hbegins : head.toList <+: line.toList) (hmark : '\x22' ∉ line.toList)
    (hslash : '/' ∉ line.toList) : Declares [line] := by
  refine ⟨head.toList, hhead, ?_⟩
  rw [(closed_of_not_mem hmark).bareCode_ended, bareCode_of_not_mem hmark hslash]
  exact (hbegins.trans (List.prefix_append _ _)).isInfix

theorem contains_eq_true_iff (pattern text : List Char) :
    Text.contains pattern text = true ↔ pattern <:+: text := by
  induction text with
  | nil => simp [Text.contains]
  | cons c rest ih =>
    rw [Text.contains, Bool.or_eq_true, List.isPrefixOf_iff_prefix, ih, List.infix_cons_iff]

/-- Lines that declare nothing are refused. -/
theorem validate_eq_noDeclarations {text : String} {lines : List String} {chars : List Char}
    (htext : text.toList = ended lines) (hended : ended lines = chars)
    (hnone : ∀ head ∈ declarationHeads, Text.contains head (bareCode chars) = false) :
    validate text = .error .noDeclarations := by
  have hall : (declarationHeads.all fun head => !Text.contains head (bareCode text.toList))
      = true := by
    rw [List.all_eq_true, htext, hended]
    intro head hhead
    rw [hnone head hhead]
    rfl
  simp [validate, hall]

/-- Lines are accepted when they declare something and their braces balance. -/
theorem validate_eq_ok {text : String} {lines : List String} (htext : text.toList = ended lines)
    (hdeclares : Declares lines) (hbalanced : InBalance lines) : validate text = .ok () := by
  obtain ⟨head, hhead, hinfix⟩ := hdeclares
  obtain ⟨count, hbraces⟩ := hbalanced
  have hcontained : (declarationHeads.all fun head => !Text.contains head (bareCode text.toList))
      = false := by
    rw [List.all_eq_false]
    refine ⟨head, hhead, ?_⟩
    rw [htext, (contains_eq_true_iff head _).mpr hinfix]
    decide
  have hbalance : (bareCode text.toList).count '\x7b' = (bareCode text.toList).count '\x7d' := by
    rw [htext, hbraces.count_opened, hbraces.count_closed]
  simp [validate, hcontained, hbalance]

end SchemaForge.Output
