import SchemaForge.Proofs.WordBoundaries

/-! # What changes of case keep

Pascal case and snake case change nothing but the case of the letters and what stands between words. Words
in small letters are of the same kinds as before, so snake case finds them again in what it has written.
-/

namespace SchemaForge.Text

/-! ## Case -/

theorem toSmall_of_isSmall {c : Char} (h : isSmall c = true) : toSmall c = c := by
  rw [toSmall, not_isCapital_of_isSmall h, if_neg Bool.false_ne_true]

theorem toSmall_of_isDigit {c : Char} (h : isDigit c = true) : toSmall c = c := by
  have hletter := not_isLetter_of_isDigit h
  rw [isLetter, Bool.or_eq_false_iff] at hletter
  rw [toSmall, hletter.1, if_neg Bool.false_ne_true]

theorem isSmall_toSmall_of_isLetter {c : Char} (h : isLetter c = true) : isSmall (toSmall c) = true := by
  rw [isLetter, Bool.or_eq_true] at h
  rcases h with hcapital | hsmall
  · exact isSmall_toSmall hcapital
  · rw [toSmall_of_isSmall hsmall]
    exact hsmall

@[simp] theorem toSmall_toSmall (c : Char) : toSmall (toSmall c) = toSmall c := by
  cases h : isCapital c with
  | true => exact toSmall_of_isSmall (isSmall_toSmall h)
  | false => simp [toSmall, h]

@[simp] theorem toSmall_toCapital (c : Char) : toSmall (toCapital c) = toSmall c := by
  cases h : isSmall c with
  | true =>
    have hrange := h
    simp only [isSmall, Bool.and_eq_true, decide_eq_true_eq] at hrange
    have hback : c.toNat - 32 + 32 = c.toNat := by omega
    rw [toSmall, isCapital_toCapital h, if_pos rfl, toSmall_of_isSmall h, toCapital, if_pos h,
      toNat_ofNat_of_lt (by omega), hback, Char.ofNat_toNat]
  | false => rw [toCapital, h, if_neg Bool.false_ne_true]

theorem map_toSmall_capitalise (word : List Char) :
    (capitalise word).map toSmall = word.map toSmall := by
  cases word <;> simp [capitalise, Function.comp_def]

/-- In small letters, pascal case is the letters and digits of the text. -/
theorem map_toSmall_pascalCase (text : List Char) :
    (pascalCase text).map toSmall = (text.filter isWordChar).map toSmall := by
  rw [pascalCase, List.map_flatten, List.map_map, ← flatten_words, List.map_flatten]
  congr 2
  funext word
  exact map_toSmall_capitalise word

/-- Without its underscores, snake case is the letters and digits of the text in small form. -/
theorem filter_ne_underscore_snakeCase (text : List Char) :
    (snakeCase text).filter (fun c => c != '_') = (text.filter isWordChar).map toSmall := by
  rw [← filter_snakeCase]
  refine List.filter_congr fun c hc => ?_
  rcases isWordChar_of_mem_snakeCase hc with hchar | rfl
  · rw [hchar, bne_iff_ne]
    rintro rfl
    exact absurd hchar (by decide)
  · rfl

/-! ## Words found again -/

/-- A word as snake case writes it. -/
def IsPiece (piece : List Char) : Prop :=
  piece ≠ [] ∧ ((∀ c ∈ piece, isSmall c = true) ∨ ∀ c ∈ piece, isDigit c = true)

theorem isPiece_map_toSmall {text word : List Char} (h : word ∈ words text) :
    IsPiece (word.map toSmall) := by
  obtain ⟨rest, hfront⟩ := exists_front_of_mem_words h
  refine ⟨fun hnil => hfront.ne_nil (List.map_eq_nil_iff.mp hnil), ?_⟩
  refine hfront.letters_or_digits.imp (fun hletters => ?_) (fun hdigits => ?_)
  · exact List.forall_mem_map.mpr fun c hc => isSmall_toSmall_of_isLetter (hletters c hc)
  · exact List.forall_mem_map.mpr fun c hc => (toSmall_of_isDigit (hdigits c hc)).symm ▸ hdigits c hc

/-- A piece is a word wherever no letter and no digit follows. -/
theorem IsPiece.front {piece rest : List Char} (h : IsPiece piece)
    (hrest : ∀ c ∈ rest.head?, isWordChar c = false) : Front piece rest := by
  have hends : ∀ c ∈ rest.head?, isSmall c = false ∧ isDigit c = false := by
    intro c hc
    have hchar := hrest c hc
    rw [isWordChar, Bool.or_eq_false_iff, Bool.or_eq_false_iff] at hchar
    exact ⟨hchar.1.2, hchar.2⟩
  obtain ⟨hne, hsmalls | hdigits⟩ := h
  · rw [← List.nil_append piece]
    exact Front.plain hne (by simp) (by simp) hsmalls fun c hc => (hends c hc).1
  · exact Front.digits hne hdigits fun c hc => (hends c hc).2

theorem words_joined {pieces : List (List Char)} (h : ∀ piece ∈ pieces, IsPiece piece) :
    words (pieces.intersperse ['_']).flatten = pieces := by
  induction pieces with
  | nil => rw [List.intersperse_nil, List.flatten_nil, words]
  | cons piece rest ih =>
    have hpiece := h piece List.mem_cons_self
    have hrest := ih fun other hother => h other (List.mem_cons_of_mem piece hother)
    cases rest with
    | nil =>
      have hfront : Front piece [] := hpiece.front (by simp)
      rw [List.intersperse_singleton, List.flatten_singleton, ← List.append_nil piece,
        words_append_of_front hfront, words, List.append_nil]
    | cons next more =>
      have hjoint : isWordChar '_' = false := by decide
      have hfront : Front piece ('_' :: ((next :: more).intersperse ['_']).flatten) := by
        apply hpiece.front
        intro c hc
        rw [← Option.some_inj.mp hc]
        exact hjoint
      rw [List.intersperse_cons_cons, List.flatten_cons, List.flatten_cons, List.singleton_append,
        words_append_of_front hfront,
        words_of_wordLength_eq_zero ((wordLength_eq_zero_iff '_' _).mpr hjoint), hrest]

/-- Snake case keeps the words, in small letters. -/
theorem words_snakeCase (text : List Char) :
    words (snakeCase text) = (words text).map fun word => word.map toSmall := by
  refine words_joined fun piece hpiece => ?_
  obtain ⟨word, hword, rfl⟩ := List.mem_map.mp hpiece
  exact isPiece_map_toSmall hword

theorem snakeCase_snakeCase (text : List Char) : snakeCase (snakeCase text) = snakeCase text := by
  rw [snakeCase, words_snakeCase, List.map_map, snakeCase]
  congr 3
  funext word
  simp [Function.comp_def]

/-- The words of a text are its letters and digits between boundaries, and are also the matches of the
pattern. No change of case loses or moves one of these characters, and snake case changes nothing in what
it has written itself. -/
theorem words_between_boundaries (text : List Char) :
    (∃ spans, words text = spans.map (fun span => text.extract span.1 span.2) ∧ Spans text spans)
      ∧ words text = wordPattern.findAll (spaced text)
      ∧ (pascalCase text).map toSmall = (text.filter isWordChar).map toSmall
      ∧ (snakeCase text).filter (fun c => c != '_') = (text.filter isWordChar).map toSmall
      ∧ snakeCase (snakeCase text) = snakeCase text :=
  ⟨exists_spans text, words_eq_findAll_spaced text, map_toSmall_pascalCase text,
    filter_ne_underscore_snakeCase text, snakeCase_snakeCase text⟩

end SchemaForge.Text
