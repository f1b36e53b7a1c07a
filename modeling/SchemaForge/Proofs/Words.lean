import Mathlib.Data.List.TakeWhile
import SchemaForge.Text.Words

/-! # What the words of a text hold

The words of a text hold its ASCII letters and digits, each of them once and in order, and nothing
else. Writing words together changes their case and joins them, so a name that is made of them has
as many letters and digits as the text.
-/

namespace SchemaForge.Text

/-- The characters that words are made of. -/
def isWordChar (c : Char) : Bool := isCapital c || isSmall c || isDigit c

/-! ## Case -/

theorem toNat_ofNat_of_lt {n : Nat} (h : n < 128) : (Char.ofNat n).toNat = n := by
  have hvalid : n.isValidChar := Or.inl (by omega)
  rw [Char.ofNat, dif_pos hvalid]
  rfl

theorem isSmall_toSmall {c : Char} (h : isCapital c = true) : isSmall (toSmall c) = true := by
  rw [toSmall, if_pos h]
  simp only [isCapital, Bool.and_eq_true, decide_eq_true_eq] at h
  rw [isSmall, toNat_ofNat_of_lt (by omega), Bool.and_eq_true, decide_eq_true_eq,
    decide_eq_true_eq]
  omega

theorem isCapital_toCapital {c : Char} (h : isSmall c = true) :
    isCapital (toCapital c) = true := by
  rw [toCapital, if_pos h]
  simp only [isSmall, Bool.and_eq_true, decide_eq_true_eq] at h
  rw [isCapital, toNat_ofNat_of_lt (by omega), Bool.and_eq_true, decide_eq_true_eq,
    decide_eq_true_eq]
  omega

@[simp] theorem isWordChar_toSmall (c : Char) : isWordChar (toSmall c) = isWordChar c := by
  cases h : isCapital c with
  | true => simp [isWordChar, h, isSmall_toSmall h]
  | false => simp [toSmall, h]

@[simp] theorem isWordChar_toCapital (c : Char) : isWordChar (toCapital c) = isWordChar c := by
  cases h : isSmall c with
  | true => simp [isWordChar, h, isCapital_toCapital h]
  | false => simp [toCapital, h]

/-- Capitals and small letters stand in a capitalised word where letters stood before. -/
theorem map_isWordChar_capitalise (word : List Char) :
    (capitalise word).map isWordChar = word.map isWordChar := by
  cases word <;> simp [capitalise, Function.comp_def]

/-! ## One word -/

/-- A narrower class of characters has shorter runs. -/
theorem length_takeWhile_le {p q : Char → Bool} (h : ∀ c, p c = true → q c = true)
    (text : List Char) : (text.takeWhile p).length ≤ (text.takeWhile q).length := by
  induction text with
  | nil => exact Nat.le_refl _
  | cons c rest ih =>
    cases hp : p c with
    | false => simp [hp]
    | true => simpa [hp, h c hp] using ih

theorem of_mem_take {p : Char → Bool} {text : List Char} {n : Nat}
    (h : n ≤ (text.takeWhile p).length) {c : Char} (hc : c ∈ text.take n) : p c = true := by
  have hrun : text.takeWhile p = text.take (text.takeWhile p).length :=
    List.prefix_iff_eq_take.mp (List.takeWhile_prefix p)
  have hmem : c ∈ text.takeWhile p := by
    rw [hrun]
    exact List.take_subset_take_left text h hc
  exact List.mem_takeWhile_imp hmem

theorem isWordChar_of_isCapital (c : Char) (h : isCapital c = true) : isWordChar c = true := by
  simp [isWordChar, h]

theorem isWordChar_of_isSmall (c : Char) (h : isSmall c = true) : isWordChar c = true := by
  simp [isWordChar, h]

theorem isWordChar_of_isDigit (c : Char) (h : isDigit c = true) : isWordChar c = true := by
  simp [isWordChar, h]

theorem acronymLength_le (text : List Char) :
    acronymLength text ≤ (text.takeWhile isCapital).length := by
  unfold acronymLength
  dsimp only
  split
  · split <;> omega
  · exact Nat.zero_le _

theorem plainLength_le (text : List Char) :
    plainLength text ≤ (text.takeWhile isWordChar).length := by
  cases text with
  | nil => exact Nat.zero_le _
  | cons c rest =>
    rw [plainLength]
    cases hc : isCapital c with
    | false => exact length_takeWhile_le isWordChar_of_isSmall (c :: rest)
    | true =>
      have hrest := length_takeWhile_le isWordChar_of_isSmall rest
      rw [if_pos rfl, List.takeWhile_cons_of_pos (isWordChar_of_isCapital c hc), List.length_cons]
      split <;> omega

/-- A word is part of the run of letters and digits that it starts. -/
theorem wordLength_le (text : List Char) :
    wordLength text ≤ (text.takeWhile isWordChar).length := by
  have hkinds : ∀ n ∈ [acronymLength, plainLength, capitalsLength, digitsLength].map
      (fun kind => kind text), n ≤ (text.takeWhile isWordChar).length := by
    simp only [List.map_cons, List.map_nil, List.forall_mem_cons, List.not_mem_nil,
      false_implies, implies_true, and_true]
    exact ⟨(acronymLength_le text).trans (length_takeWhile_le isWordChar_of_isCapital text),
      plainLength_le text, length_takeWhile_le isWordChar_of_isCapital text,
      length_takeWhile_le isWordChar_of_isDigit text⟩
  unfold wordLength
  cases hfind : ([acronymLength, plainLength, capitalsLength, digitsLength].map
      fun kind => kind text).find? fun n => n != 0 with
  | none => exact Nat.zero_le _
  | some n => exact hkinds n (List.mem_of_find?_eq_some hfind)

/-- A word starts at every letter and at every digit. -/
theorem wordLength_eq_zero_iff (c : Char) (rest : List Char) :
    wordLength (c :: rest) = 0 ↔ isWordChar c = false := by
  constructor
  · intro hzero
    have hkinds : ∀ kind ∈ [acronymLength, plainLength, capitalsLength, digitsLength],
        kind (c :: rest) = 0 := by
      unfold wordLength at hzero
      cases hfind : ([acronymLength, plainLength, capitalsLength, digitsLength].map
          fun kind => kind (c :: rest)).find? fun n => n != 0 with
      | none => simpa [List.find?_eq_none] using hfind
      | some n =>
        rw [hfind, Option.getD_some] at hzero
        simpa [hzero] using List.find?_some hfind
    have hcapital : isCapital c = false := by
      by_contra h
      simpa [capitalsLength, h] using hkinds capitalsLength (by simp)
    have hsmall : isSmall c = false := by
      by_contra h
      simpa [plainLength, hcapital, h] using hkinds plainLength (by simp)
    have hdigit : isDigit c = false := by
      by_contra h
      simpa [digitsLength, h] using hkinds digitsLength (by simp)
    simp [isWordChar, hcapital, hsmall, hdigit]
  · intro hc
    have hle := wordLength_le (c :: rest)
    rw [List.takeWhile_cons_of_neg (by simp [hc])] at hle
    exact Nat.le_zero.mp hle

/-! ## All words -/

theorem words_of_wordLength_eq_zero {c : Char} {rest : List Char}
    (h : wordLength (c :: rest) = 0) : words (c :: rest) = words rest := by
  rw [words, h]

theorem words_of_wordLength_eq_succ {c : Char} {rest : List Char} {n : Nat}
    (h : wordLength (c :: rest) = n + 1) :
    words (c :: rest) = (c :: rest.take n) :: words (rest.drop n) := by
  rw [words, h]

/-- The words together are the letters and digits of the text. -/
theorem flatten_words (text : List Char) : (words text).flatten = text.filter isWordChar := by
  induction text using words.induct with
  | case1 => simp [words]
  | case2 c rest hzero ih =>
    have hc : isWordChar c = false := (wordLength_eq_zero_iff c rest).mp hzero
    rw [words_of_wordLength_eq_zero hzero, ih, List.filter_cons_of_neg (by simp [hc])]
  | case3 c rest n hlength ih =>
    have hword : ∀ d ∈ c :: rest.take n, isWordChar d = true := by
      intro d hd
      have hle := wordLength_le (c :: rest)
      rw [hlength] at hle
      exact of_mem_take hle hd
    calc (words (c :: rest)).flatten
        = (c :: rest.take n) ++ (rest.drop n).filter isWordChar := by
          rw [words_of_wordLength_eq_succ hlength, List.flatten_cons, ih]
      _ = ((c :: rest.take n) ++ rest.drop n).filter isWordChar := by
          rw [List.filter_append, List.filter_eq_self.mpr hword]
      _ = (c :: rest).filter isWordChar := by
          rw [List.cons_append, List.take_append_drop]

theorem ne_nil_of_mem_words {text word : List Char} (h : word ∈ words text) : word ≠ [] := by
  induction text using words.induct with
  | case1 => simp [words] at h
  | case2 c rest hzero ih =>
    rw [words_of_wordLength_eq_zero hzero] at h
    exact ih h
  | case3 c rest n hlength ih =>
    rw [words_of_wordLength_eq_succ hlength] at h
    rcases List.mem_cons.mp h with rfl | hrest
    · exact List.cons_ne_nil _ _
    · exact ih hrest

/-! ## Words written together -/

/-- Pascal case keeps the letters and digits of a text, apart from their case. -/
theorem map_isWordChar_pascalCase (text : List Char) :
    (pascalCase text).map isWordChar = (text.filter isWordChar).map isWordChar := by
  rw [pascalCase, List.map_flatten, List.map_map, ← flatten_words, List.map_flatten]
  congr 2
  funext word
  exact map_isWordChar_capitalise word

theorem isWordChar_of_mem_pascalCase {text : List Char} {c : Char} (h : c ∈ pascalCase text) :
    isWordChar c = true := by
  have hmem : isWordChar c ∈ (text.filter isWordChar).map isWordChar := by
    rw [← map_isWordChar_pascalCase]
    exact List.mem_map_of_mem h
  obtain ⟨d, hd, hsame⟩ := List.mem_map.mp hmem
  rw [← hsame]
  exact (List.mem_filter.mp hd).2

theorem countP_pascalCase (text : List Char) :
    (pascalCase text).countP isWordChar = text.countP isWordChar := by
  have hlength := congrArg List.length (map_isWordChar_pascalCase text)
  rw [List.length_map, List.length_map, ← List.countP_eq_length_filter] at hlength
  rw [← hlength, List.countP_eq_length]
  exact fun c hc => isWordChar_of_mem_pascalCase hc

theorem filter_flatten_intersperse (parts : List (List Char)) :
    (parts.intersperse ['_']).flatten.filter isWordChar = parts.flatten.filter isWordChar := by
  have hjoint : isWordChar '_' = false := by decide
  induction parts with
  | nil => rfl
  | cons part rest ih =>
    cases rest with
    | nil => rfl
    | cons next more =>
      rw [List.intersperse_cons_cons, List.flatten_cons, List.flatten_cons, List.filter_append,
        List.filter_append, ih, List.filter_cons_of_neg (by simp [hjoint]), List.filter_nil,
        List.nil_append, ← List.filter_append, ← List.flatten_cons]

/-- Snake case keeps the letters and digits of a text, in small form. -/
theorem filter_snakeCase (text : List Char) :
    (snakeCase text).filter isWordChar = (text.filter isWordChar).map toSmall := by
  rw [snakeCase, filter_flatten_intersperse, ← List.map_flatten, flatten_words,
    List.filter_eq_self]
  intro c hc
  obtain ⟨d, hd, rfl⟩ := List.mem_map.mp hc
  rw [isWordChar_toSmall]
  exact (List.mem_filter.mp hd).2

theorem countP_snakeCase (text : List Char) :
    (snakeCase text).countP isWordChar = text.countP isWordChar := by
  rw [List.countP_eq_length_filter, filter_snakeCase, List.length_map,
    List.countP_eq_length_filter]

theorem mem_flatten_intersperse {parts : List (List Char)} {c : Char}
    (h : c ∈ (parts.intersperse ['_']).flatten) : c ∈ parts.flatten ∨ c = '_' := by
  induction parts with
  | nil => exact Or.inl h
  | cons part rest ih =>
    cases rest with
    | nil => exact Or.inl h
    | cons next more =>
      rw [List.intersperse_cons_cons, List.flatten_cons, List.flatten_cons, List.mem_append,
        List.mem_append, List.mem_singleton] at h
      rw [List.flatten_cons, List.mem_append]
      rcases h with hpart | hjoint | hrest
      · exact Or.inl (Or.inl hpart)
      · exact Or.inr hjoint
      · exact (ih hrest).imp_left Or.inr

theorem isWordChar_of_mem_snakeCase {text : List Char} {c : Char} (h : c ∈ snakeCase text) :
    isWordChar c = true ∨ c = '_' := by
  refine (mem_flatten_intersperse h).imp_left fun hword => ?_
  rw [← List.map_flatten, flatten_words] at hword
  obtain ⟨d, hd, rfl⟩ := List.mem_map.mp hword
  rw [isWordChar_toSmall]
  exact (List.mem_filter.mp hd).2

/-- Snake case starts with the first word, not with what joins the words. -/
theorem isWordChar_of_snakeCase_eq_cons {text rest : List Char} {c : Char}
    (h : snakeCase text = c :: rest) : isWordChar c = true := by
  have hflatten := flatten_words text
  rw [snakeCase] at h
  cases hwords : words text with
  | nil => simp [hwords] at h
  | cons word more =>
    obtain ⟨d, letters, rfl⟩ := List.exists_cons_of_ne_nil
      (ne_nil_of_mem_words (hwords ▸ List.mem_cons_self : word ∈ words text))
    have hd : d ∈ text.filter isWordChar := by
      rw [← hflatten, hwords]
      exact List.mem_cons_self
    have hc : toSmall d = c := by
      rw [hwords] at h
      cases more with
      | nil => exact (List.cons.inj h).1
      | cons => exact (List.cons.inj h).1
    rw [← hc, isWordChar_toSmall]
    exact (List.mem_filter.mp hd).2

end SchemaForge.Text
