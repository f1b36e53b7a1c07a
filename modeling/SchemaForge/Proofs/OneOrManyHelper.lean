import SchemaForge.Proofs.LineForms
import SchemaForge.Proofs.OneOrManyUse

/-! # The one-or-many helper in source text

How often a text stands in another one, and how often the definition of the one-or-many container
stands in generated source: once where a declaration uses the container, and else not at all. No
line of a declaration is the attribute in the middle of the helper, so no document can imitate it.
-/

namespace SchemaForge

namespace Text

/-! ## Occurrences -/

/-- The number of places at which one text stands in another one. -/
def occurrences (part text : List Char) : Nat :=
  text.tails.countP fun rest => part.isPrefixOf rest

theorem occurrences_nil {part : List Char} (h : part ≠ []) : occurrences part [] = 0 := by
  cases part with
  | nil => exact absurd rfl h
  | cons c rest => rfl

theorem occurrences_cons (part : List Char) (c : Char) (text : List Char) :
    occurrences part (c :: text)
      = occurrences part text + if part <+: c :: text then 1 else 0 := by
  rw [occurrences, List.tails_cons, List.countP_cons, ← occurrences]
  simp only [List.isPrefixOf_iff_prefix]

/-- A text occurs in every text that holds it. -/
theorem occurrences_pos {part text : List Char} (h : part <:+: text) :
    0 < occurrences part text := by
  obtain ⟨before, after, rfl⟩ := h
  rw [occurrences, List.countP_pos_iff]
  refine ⟨part ++ after, ?_, List.isPrefixOf_iff_prefix.mpr (List.prefix_append part after)⟩
  rw [List.mem_tails, List.append_assoc]
  exact List.suffix_append before _

/-- What is found within a larger text is found at least as often. -/
theorem occurrences_append_right_le (part after text : List Char) :
    occurrences (part ++ after) text ≤ occurrences part text := by
  apply List.countP_mono_left
  intro rest _ h
  rw [List.isPrefixOf_iff_prefix] at h ⊢
  exact (List.prefix_append part after).trans h

/-- A text behind one character: where the longer text stands, the shorter one stands one place
further, so the front of the whole is left over for it. -/
theorem occurrences_cons_left_le (c : Char) (part text : List Char) :
    occurrences (c :: part) text + (if part <+: text then 1 else 0) ≤ occurrences part text := by
  induction text with
  | nil =>
    rw [occurrences_nil (List.cons_ne_nil c part), Nat.zero_add]
    split
    · rename_i hprefix
      exact occurrences_pos hprefix.isInfix
    · exact Nat.zero_le _
  | cons d rest ih =>
    have hinner : (if c :: part <+: d :: rest then 1 else 0) ≤ if part <+: rest then 1 else 0 := by
      by_cases h : c :: part <+: d :: rest
      · rw [if_pos h, if_pos (List.cons_prefix_cons.mp h).2]
      · rw [if_neg h]
        exact Nat.zero_le _
    rw [occurrences_cons, occurrences_cons]
    omega

theorem occurrences_append_left_le (before part text : List Char) :
    occurrences (before ++ part) text ≤ occurrences part text := by
  induction before with
  | nil => exact Nat.le_refl _
  | cons c rest ih =>
    have hcons := occurrences_cons_left_le c (rest ++ part) text
    exact (Nat.le_of_add_right_le hcons).trans ih

/-- A text that starts with a line feed is not found in front of one. -/
theorem occurrences_skip {front : List Char} (h : '\n' ∉ front) (part text : List Char) :
    occurrences ('\n' :: part) (front ++ text) = occurrences ('\n' :: part) text := by
  induction front with
  | nil => rfl
  | cons c rest ih =>
    rw [List.mem_cons, not_or] at h
    have hfirst : ¬ '\n' :: part <+: c :: (rest ++ text) :=
      fun hprefix => h.1 (List.cons_prefix_cons.mp hprefix).1
    rw [List.cons_append, occurrences_cons, if_neg hfirst, ih h.2, Nat.add_zero]

/-- A line in front of a line feed is the one that stands there. -/
theorem prefix_line_iff {line other rest : List Char} (hline : '\n' ∉ line) (hother : '\n' ∉ other) :
    line ++ ['\n'] <+: other ++ '\n' :: rest ↔ line = other := by
  constructor
  · rintro ⟨after, hafter⟩
    -- split at line feeds, the two texts have these lines in front
    have hsplit := congrArg (List.splitOn '\n') hafter
    rw [List.append_assoc, List.singleton_append, List.splitOn_append_cons_self_of_not_mem hline,
      List.splitOn_append_cons_self_of_not_mem hother] at hsplit
    exact (List.cons.inj hsplit).1
  · rintro rfl
    exact ⟨rest, List.append_assoc _ _ _⟩

end Text

namespace Rust

open Text Output

/-- A whole line occurs behind a line feed as often as it is one of the lines. -/
theorem occurrences_line {line : String} (hline : OneLine line) {lines : List String}
    (hlines : ∀ other ∈ lines, OneLine other) :
    occurrences ('\n' :: (line.toList ++ ['\n'])) ('\n' :: ended lines) = lines.count line := by
  induction lines with
  | nil =>
    have hlong : ¬ '\n' :: (line.toList ++ ['\n']) <+: ['\n'] := by
      intro h
      have := h.length_le
      simp at this
    rw [ended_nil, occurrences_cons, if_neg hlong, occurrences_nil (List.cons_ne_nil _ _)]
    rfl
  | cons other rest ih =>
    rw [List.forall_mem_cons] at hlines
    obtain ⟨hother, hrest⟩ := hlines
    rw [ended_line, occurrences_cons, occurrences_skip hother, ih hrest, List.count_cons]
    simp only [List.cons_prefix_cons, true_and, prefix_line_iff hline hother, String.toList_inj,
      beq_iff_eq, eq_comm (a := line)]

/-! ## The helper among the sections -/

/-- The attribute in the middle of the helper. -/
def untagged : String := "#[serde(untagged)]"

/-- A line that starts in another way than the attribute is not the attribute. -/
theorem ne_untagged_of_prefix {front after : String} (h : ¬ front.toList <+: untagged.toList) :
    front ++ after ≠ untagged := by
  intro heq
  rw [← heq, String.toList_append] at h
  exact h (List.prefix_append _ _)

theorem LineForm.ne_untagged {style : Style} {line : String} (h : LineForm style line) :
    line ≠ untagged := by
  have hrenames : ∀ indent ∈ ["", Style.indent],
      ¬ (indent ++ "#[serde(rename = ").toList <+: untagged.toList := by decide
  have hheads : ∀ keyword ∈ ["pub struct ", "pub enum "],
      ¬ keyword.toList <+: untagged.toList := by decide
  cases h with
  | comment hindent h =>
    have hmarks : ∀ indent ∈ ["", Style.indent],
        ¬ (indent.toList ++ DocComment.mark) <+: untagged.toList := by decide
    obtain ⟨rest, hline, -⟩ := h
    rintro rfl
    exact hmarks _ hindent (hline ▸ List.prefix_append _ rest)
  | derived _ h =>
    obtain ⟨derives, -, h⟩ := bind_eq_ok.mp h
    cases h
    rw [String.append_assoc]
    exact ne_untagged_of_prefix (by decide)
  | renamed hindent name =>
    rw [String.append_assoc]
    exact ne_untagged_of_prefix (hrenames _ hindent)
  | default => decide
  | head hkeyword hname =>
    rw [String.append_assoc]
    exact ne_untagged_of_prefix (hheads _ hkeyword)
  | field hname htype | variant hname | synonym hname htarget =>
    simp only [String.append_assoc]
    exact ne_untagged_of_prefix (by decide)
  | closing => decide

/-- A line that is not empty stands among spaced sections as often as in the sections. -/
theorem count_spaced {line : String} (hline : line ≠ "") (sections : List (List String)) :
    (spaced sections).count line = (sections.map (List.count line)).sum := by
  have hempty : [""].count line = 0 :=
    List.count_eq_zero_of_not_mem fun hmem => hline (List.mem_singleton.mp hmem)
  induction sections with
  | nil => rfl
  | cons first rest ih =>
    cases rest with
    | nil => simp [spaced]
    | cons second rest =>
      rw [spaced_cons_cons, List.count_append, List.count_append, ih, hempty, Nat.zero_add]
      exact List.sum_cons.symm

/-- A line between others stands between line feeds in their text. -/
theorem toList_intercalate_inner {before after : List String} (hbefore : before ≠ [])
    (hafter : after ≠ []) (line : String) :
    ("\n".intercalate (before ++ line :: after)).toList
      = ("\n".intercalate before).toList ++ ('\n' :: (line.toList ++ ['\n']))
        ++ ("\n".intercalate after).toList := by
  have hsome : before ++ line :: after ≠ [] := by simp
  have hended := ended_eq_intercalate hsome
  rw [ended_append, ended_line, ended_eq_intercalate hbefore, ended_eq_intercalate hafter] at hended
  rw [← List.append_left_inj ['\n'], ← hended]
  simp

/-- The text of the helper. -/
def helperText : List Char := ("\n".intercalate Style.oneOrManyHelper).toList

/-- The helper is found at most as often as the line with the attribute in the middle of it. -/
theorem occurrences_helperText_le (text : List Char) :
    occurrences helperText text
      ≤ occurrences ('\n' :: (untagged.toList ++ ['\n'])) text := by
  have hlines : Style.oneOrManyHelper
      = Style.oneOrManyHelper.take 7 ++ untagged :: Style.oneOrManyHelper.drop 8 := rfl
  rw [helperText, hlines, toList_intercalate_inner (by decide) (by decide), List.append_assoc]
  exact (occurrences_append_left_le _ _ text).trans (occurrences_append_right_le _ _ text)

theorem infix_spaced {sections : List (List String)} {lines : List String}
    (h : lines ∈ sections) : lines <:+: spaced sections := by
  induction sections with
  | nil => exact absurd h List.not_mem_nil
  | cons first rest ih =>
    cases rest with
    | nil =>
      rw [List.mem_singleton.mp h]
      exact ⟨[], [], by simp [spaced]⟩
    | cons second rest =>
      rw [spaced_cons_cons]
      rcases List.mem_cons.mp h with rfl | hrest
      · exact (List.prefix_append lines _).isInfix
      · have hmore : lines <:+: [""] ++ spaced (second :: rest) :=
          (ih hrest).trans (List.suffix_append [""] _).isInfix
        exact hmore.trans (List.suffix_append first _).isInfix

/-- Each section stands in the text of all of them. -/
theorem infix_ended_spaced {sections : List (List String)} {lines : List String}
    (hlines : lines ≠ []) (h : lines ∈ sections) :
    ("\n".intercalate lines).toList <:+: ended (spaced sections) := by
  obtain ⟨before, after, hspaced⟩ := infix_spaced h
  rw [← hspaced, ended_append, ended_append, ended_eq_intercalate hlines]
  exact ⟨ended before, '\n' :: ended after, by simp⟩

/-- The attribute in the middle of the helper is none of the other lines of a source. -/
theorem count_untagged_spaced {style : Style} {blocks : List (List String)}
    (hblocks : ∀ lines ∈ blocks, ∀ line ∈ lines, LineForm style line) (oneOrMany : Bool) :
    (spaced (style.opening oneOrMany ++ blocks)).count untagged = if oneOrMany then 1 else 0 := by
  have hannouncement : Style.announcement.count untagged = 0 := by decide +kernel
  have himport : Style.serdeImport.count untagged = 0 := by decide +kernel
  have hhelper : Style.oneOrManyHelper.count untagged = 1 := by decide +kernel
  have hnone : (blocks.map (List.count untagged)).sum = 0 := by
    apply List.sum_eq_zero
    intro n hn
    obtain ⟨lines, hlines, rfl⟩ := List.mem_map.mp hn
    exact List.count_eq_zero_of_not_mem fun hmem => (hblocks lines hlines _ hmem).ne_untagged rfl
  rw [count_spaced (by decide), List.map_append, List.sum_append, hnone, Nat.add_zero,
    Style.opening, List.map_append, List.map_append, List.sum_append, List.sum_append]
  cases style.announced <;> cases style.imports <;> cases oneOrMany <;>
    simp [hannouncement, himport, hhelper]

/-- The text of declarations with legal names holds the helper once if it is asked for, and not
at all if it is not. -/
theorem exists_write_occurrences {style : Style} (hstyle : style.Tidy) (hannounced : style.announced)
    {declarations : List Declaration}
    (hlegal : ∀ declaration ∈ declarations, ∀ name ∈ declaration.identifiers, Legal name)
    (oneOrMany : Bool) :
    ∃ text, style.write declarations oneOrMany = .ok text ∧
      occurrences helperText text.toList = if oneOrMany then 1 else 0 := by
  obtain ⟨blocks, hblocks, hwrite⟩ := exists_blocks hstyle.complete declarations
  have hforms : ∀ lines ∈ blocks, ∀ line ∈ lines, LineForm style line := by
    intro lines hlines
    obtain ⟨declaration, hmem, hwritten⟩ := exists_mem_left_of_forall₂ (mapM_eq_ok.mp hblocks) hlines
    exact lineForm_of_declarationLines (hlegal declaration hmem) hwritten
  refine ⟨_, hwrite oneOrMany, ?_⟩
  obtain ⟨hlines, htext⟩ := toList_sourceText_blocks hstyle hannounced hlegal hblocks oneOrMany
  rw [htext]
  -- a helper has the attribute in the middle of it, and the lines have it as often as asked for
  have hmost : occurrences helperText (ended (spaced (style.opening oneOrMany ++ blocks)))
      ≤ if oneOrMany then 1 else 0 := by
    rw [← count_untagged_spaced hforms oneOrMany, ← occurrences_line (by decide) hlines,
      occurrences_cons]
    exact Nat.le_add_right_of_le (occurrences_helperText_le _)
  cases oneOrMany with
  | false => exact Nat.le_zero.mp hmost
  | true =>
    have hhelper : Style.oneOrManyHelper ∈ style.opening true ++ blocks :=
      List.mem_append_left _ (List.mem_append_right _ (List.mem_singleton_self _))
    exact Nat.le_antisymm hmost
      (occurrences_pos (infix_ended_spaced (List.cons_ne_nil _ _) hhelper))

end Rust

namespace Document

open Rust Text

/-- A program needs the helper just when the container stands, at any depth, in a field type or an
alias target, and in the default style its source holds the whole helper once in that case and not
at all otherwise. -/
theorem needsOneOrMany_iff_of_expand {document : Document} {breaking : Bool} {program : Program}
    (h : (expand document breaking).outcome = .ok program) :
    (program.needsOneOrMany = true ↔ ∃ declaration ∈ program.declarations,
        ∃ type ∈ declaration.slots, ∃ item, Ty.Part (.oneOrMany item) type) ∧
      ∃ text, ({} : Settings).style.write program.declarations program.needsOneOrMany = .ok text ∧
        occurrences helperText text.toList = if program.needsOneOrMany then 1 else 0 := by
  refine ⟨?_, exists_write_occurrences tidy_style rfl (legal_identifiers_of_expand h) _⟩
  rw [needsOneOrMany_of_expand h]
  simp only [List.any_eq_true, Declaration.usesOneOrMany, Ty.usesOneOrMany_iff]

/-- Routes: lists of stops, each of which is a name or a list of names. -/
def routes : Document where
  root := {
    definitions := [("route", {
      properties := [("stops", {
        types := [.array]
        items := [{
          anyOf := [
            { types := [.string] },
            { types := [.array], items := [{ types := [.string] }] }] }] })]
      required := ["stops"] })] }

/-- The program for routes. -/
def routesProgram : Program where
  rootName := none
  declarations := [.struct {
    name := "Route"
    sourceName := "route"
    fields := [{
      name := "stops"
      sourceName := "stops"
      type := .array (.oneOrMany (.primitive "String")) }]
    rename := some "route" }]
  needsOneOrMany := true

theorem needsOneOrMany_iff_routes :
    (routes.expand true).outcome = .ok routesProgram ∧
      (routesProgram.needsOneOrMany = true ↔ ∃ declaration ∈ routesProgram.declarations,
        ∃ type ∈ declaration.slots, ∃ item, Ty.Part (.oneOrMany item) type) ∧
      ∃ text, ({} : Settings).style.write routesProgram.declarations routesProgram.needsOneOrMany
          = .ok text ∧
        occurrences helperText text.toList = if routesProgram.needsOneOrMany then 1 else 0 := by
  have hexpand : (routes.expand true).outcome = .ok routesProgram := by cbv
  exact ⟨hexpand, needsOneOrMany_iff_of_expand hexpand⟩

end Document

end SchemaForge
