import SchemaForge.Proofs.Patterns
import SchemaForge.Proofs.Words

/-! # The pattern of words

The words of a text are the matches of one pattern. Each kind of word is an alternative of the pattern,
and a run of capitals gives back its last one where a small letter follows. Separators may be written as
spaces before the search, since no word holds one of either.
-/

namespace SchemaForge.Text

open Pattern

/-- Capitals in front of a capitalised word. -/
def acronymPattern : Pattern :=
  .sequence (.atLeastOnce (.one isCapital)) (.ahead (.sequence (.one isCapital) (.one isSmall)))

/-- Small letters with one capital letter in front, or none. -/
def plainPattern : Pattern :=
  .sequence (.optional (.one isCapital)) (.atLeastOnce (.one isSmall))

/-- A word of any kind. -/
def wordPattern : Pattern :=
  .choice acronymPattern (.choice plainPattern
    (.choice (.atLeastOnce (.one isCapital)) (.atLeastOnce (.one isDigit))))

theorem not_isSmall_of_isCapital {c : Char} (h : isCapital c = true) : isSmall c = false := by
  simp only [isCapital, Bool.and_eq_true, decide_eq_true_eq] at h
  simp only [isSmall, Bool.and_eq_false_iff, decide_eq_false_iff_not]
  omega

/-- What a word of a length at the front of a text leaves, if there is one. -/
def after? (length : Nat) (text : List Char) : Option (List Char) :=
  if length = 0 then none else some (text.drop length)

theorem rest?_choice (first other : Pattern) (text : List Char) :
    (choice first other).rest? text = (first.rest? text).or (other.rest? text) :=
  List.head?_append ..

/-- A class that is repeated takes the whole run. -/
theorem rest?_many_one (accepts : Char → Bool) (text : List Char) :
    (many (one accepts)).rest? text = some (text.drop (text.takeWhile accepts).length) := by
  induction text with
  | nil =>
    rw [rest?, rests_many (consumes_one accepts)]
    rfl
  | cons c rest ih =>
    rw [rest?, rests_many (consumes_one accepts)]
    cases hc : accepts c with
    | false => simp [hc]
    | true =>
      rw [rest?] at ih
      simp [hc, ih]

theorem rest?_atLeastOnce_one (accepts : Char → Bool) (text : List Char) :
    (atLeastOnce (one accepts)).rest? text = after? (text.takeWhile accepts).length text := by
  cases text with
  | nil => rfl
  | cons c rest =>
    have hmany := rest?_many_one accepts rest
    rw [rest?] at hmany
    cases hc : accepts c with
    | false => simp [rest?, atLeastOnce, hc, after?]
    | true => simp [rest?, atLeastOnce, hc, after?, hmany]

theorem rest?_plainPattern (text : List Char) :
    plainPattern.rest? text = after? (plainLength text) text := by
  cases text with
  | nil => rfl
  | cons c rest =>
    have hrest := rest?_atLeastOnce_one isSmall rest
    have htext := rest?_atLeastOnce_one isSmall (c :: rest)
    rw [rest?] at hrest htext
    cases hc : isCapital c with
    | false => simpa [rest?, plainPattern, Pattern.optional, hc, plainLength] using htext
    | true =>
      -- without the capital in front of them there are no small letters here
      have hnone : (atLeastOnce (one isSmall)).rests (c :: rest) = [] := by
        simp [atLeastOnce, not_isSmall_of_isCapital hc]
      have hfirst : plainPattern.rest? (c :: rest)
          = ((atLeastOnce (one isSmall)).rests rest).head? := by
        simp [rest?, plainPattern, Pattern.optional, hc, hnone]
      rw [hfirst, hrest, plainLength, if_pos hc]
      cases (rest.takeWhile isSmall).length <;> rfl

/-! ## Acronyms -/

/-- What follows the run of capitals at the front starts with a small letter. -/
def smallAfterCapitals (text : List Char) : Bool :=
  (text.drop (text.takeWhile isCapital).length).head?.any isSmall

theorem acronymLength_eq (text : List Char) :
    acronymLength text
      = if smallAfterCapitals text then (text.takeWhile isCapital).length - 1 else 0 := by
  rw [acronymLength, smallAfterCapitals]
  cases text.drop (text.takeWhile isCapital).length <;> rfl

theorem smallAfterCapitals_cons {c : Char} (hc : isCapital c = true) (rest : List Char) :
    smallAfterCapitals (c :: rest) = smallAfterCapitals rest := by
  rw [smallAfterCapitals, List.takeWhile_cons_of_pos hc]
  rfl

theorem acronymLength_cons {c : Char} (hc : isCapital c = true) (rest : List Char) :
    acronymLength (c :: rest)
      = if smallAfterCapitals rest then (rest.takeWhile isCapital).length else 0 := by
  rw [acronymLength_eq, smallAfterCapitals_cons hc, List.takeWhile_cons_of_pos hc]
  rfl

/-- A capital with a small letter behind it, which are not taken. -/
def capitalisedAhead : Pattern := .ahead (.sequence (.one isCapital) (.one isSmall))

theorem rests_capitalisedAhead {c : Char} (hc : isCapital c = true) (rest : List Char) :
    capitalisedAhead.rests (c :: rest) = if rest.head?.any isSmall then [c :: rest] else [] := by
  cases rest with
  | nil => simp [capitalisedAhead, hc]
  | cons d more => cases hd : isSmall d <;> simp [capitalisedAhead, hc, hd]

/-- Behind the first capital of an acronym, the search gives back all that is not part of it. -/
theorem rest?_acronymTail {c : Char} (hc : isCapital c = true) (rest : List Char) :
    (sequence (many (one isCapital)) capitalisedAhead).rest? rest
      = after? (acronymLength (c :: rest)) (c :: rest) := by
  rw [acronymLength_cons hc]
  induction rest generalizing c with
  | nil =>
    rw [rest?, rests_sequence_many (consumes_one isCapital)]
    rfl
  | cons d more ih =>
    rw [rest?, rests_sequence_many (consumes_one isCapital)]
    cases hd : isCapital d with
    | false => simp [capitalisedAhead, hd, after?]
    | true =>
      have hmore := ih hd
      rw [rest?] at hmore
      rw [rests_one_cons, if_pos hd, List.flatMap_singleton, List.head?_append, hmore,
        rests_capitalisedAhead hd, smallAfterCapitals_cons hd, List.takeWhile_cons_of_pos hd]
      cases hrun : more.takeWhile isCapital with
      | nil =>
        have hahead : smallAfterCapitals more = more.head?.any isSmall := by
          rw [smallAfterCapitals, hrun]
          rfl
        cases hsmall : more.head?.any isSmall <;> simp [hahead, hsmall, after?]
      | cons e run =>
        -- a capital comes next, so it is not here that the acronym ends
        have hahead : more.head?.any isSmall = false := by
          obtain ⟨others, rfl⟩ := (hrun ▸ List.takeWhile_prefix isCapital : e :: run <+: more)
          have he : isCapital e = true := List.mem_takeWhile_imp (hrun ▸ List.mem_cons_self)
          exact not_isSmall_of_isCapital he
        cases hsmall : smallAfterCapitals more <;> simp [hahead, after?]

theorem rest?_acronymPattern (text : List Char) :
    acronymPattern.rest? text = after? (acronymLength text) text := by
  cases text with
  | nil => rfl
  | cons c rest =>
    cases hc : isCapital c with
    | false => simp [rest?, acronymPattern, atLeastOnce, hc, acronymLength, after?]
    | true =>
      rw [← rest?_acronymTail hc rest]
      simp [rest?, acronymPattern, capitalisedAhead, atLeastOnce, hc]

/-- The kinds of words are tried in their order. -/
theorem wordLength_eq (text : List Char) :
    wordLength text = if acronymLength text ≠ 0 then acronymLength text
      else if plainLength text ≠ 0 then plainLength text
      else if capitalsLength text ≠ 0 then capitalsLength text
      else digitsLength text := by
  have hfirst : ∀ (n : Nat) (lengths : List Nat), ((n :: lengths).find? fun m => m != 0).getD 0
      = if n ≠ 0 then n else (lengths.find? fun m => m != 0).getD 0 := by
    intro n lengths
    cases n <;> rfl
  rw [wordLength, List.map_cons, List.map_cons, List.map_cons, List.map_cons, hfirst, hfirst, hfirst,
    hfirst]
  cases digitsLength text <;> rfl

/-- The pattern takes just the word at the front of a text. -/
theorem rest?_wordPattern (text : List Char) :
    wordPattern.rest? text = after? (wordLength text) text := by
  have hkinds : wordPattern.rest? text = ((after? (acronymLength text) text).or
      ((after? (plainLength text) text).or
        ((after? (capitalsLength text) text).or (after? (digitsLength text) text)))) := by
    rw [wordPattern, rest?_choice, rest?_choice, rest?_choice, rest?_acronymPattern,
      rest?_plainPattern, rest?_atLeastOnce_one, rest?_atLeastOnce_one]
    rfl
  have hor : ∀ (length : Nat) (others : Option (List Char)), (after? length text).or others
      = if length ≠ 0 then after? length text else others := by
    intro length others
    cases length <;> rfl
  rw [hkinds, hor, hor, hor, wordLength_eq]
  split_ifs <;> rfl

/-- The words of a text are the matches of the pattern in it. -/
theorem words_eq_findAll (text : List Char) : words text = wordPattern.findAll text := by
  induction text using words.induct with
  | case1 => simp [words, findAll]
  | case2 c rest hzero ih =>
    rw [words_of_wordLength_eq_zero hzero, ih, findAll, rest?_wordPattern, after?, if_pos hzero]
  | case3 c rest n hlength ih =>
    have hword : n + 1 ≤ (c :: rest).length := by
      have hrun := wordLength_le (c :: rest)
      have htext := (List.takeWhile_sublist isWordChar (l := c :: rest)).length_le
      omega
    rw [List.length_cons] at hword
    have hleft : rest.length + 1 - (rest.length - n) = n + 1 := by omega
    rw [words_of_wordLength_eq_succ hlength, ih, findAll, rest?_wordPattern, hlength, after?,
      if_neg (Nat.succ_ne_zero n)]
    simp [hleft]

/-! ## Separators -/

section

variable {f : Char → Char} (hcapital : ∀ c, isCapital (f c) = isCapital c)
  (hsmall : ∀ c, isSmall (f c) = isSmall c) (hdigit : ∀ c, isDigit (f c) = isDigit c)

theorem length_takeWhile_map {accepts : Char → Bool} (h : ∀ c, accepts (f c) = accepts c)
    (text : List Char) :
    ((text.map f).takeWhile accepts).length = (text.takeWhile accepts).length := by
  have hsame : accepts ∘ f = accepts := funext h
  rw [List.takeWhile_map, List.length_map, hsame]

include hcapital hsmall

theorem acronymLength_map (text : List Char) : acronymLength (text.map f) = acronymLength text := by
  have hafter : smallAfterCapitals (text.map f) = smallAfterCapitals text := by
    rw [smallAfterCapitals, smallAfterCapitals, length_takeWhile_map hcapital, ← List.map_drop]
    cases text.drop (text.takeWhile isCapital).length with
    | nil => rfl
    | cons c rest => exact hsmall c
  rw [acronymLength_eq, acronymLength_eq, hafter, length_takeWhile_map hcapital]

theorem plainLength_map (text : List Char) : plainLength (text.map f) = plainLength text := by
  cases text with
  | nil => rfl
  | cons c rest =>
    have htext := length_takeWhile_map hsmall (c :: rest)
    rw [List.map_cons] at htext
    rw [List.map_cons, plainLength, plainLength, hcapital, htext, length_takeWhile_map hsmall]

include hdigit

/-- Words depend on the classes of characters alone. -/
theorem words_map (text : List Char) : words (text.map f) = (words text).map (List.map f) := by
  have hlength : ∀ part : List Char, wordLength (part.map f) = wordLength part := by
    intro part
    rw [wordLength_eq, wordLength_eq, acronymLength_map hcapital hsmall,
      plainLength_map hcapital hsmall, capitalsLength, capitalsLength, length_takeWhile_map hcapital,
      digitsLength, digitsLength, length_takeWhile_map hdigit]
  induction text using words.induct with
  | case1 => simp [words]
  | case2 c rest hzero ih =>
    have hmapped := hlength (c :: rest)
    rw [List.map_cons, hzero] at hmapped
    rw [List.map_cons, words_of_wordLength_eq_zero hmapped, words_of_wordLength_eq_zero hzero, ih]
  | case3 c rest n hword ih =>
    have hmapped := hlength (c :: rest)
    rw [List.map_cons, hword] at hmapped
    rw [List.map_cons, words_of_wordLength_eq_succ hmapped, words_of_wordLength_eq_succ hword,
      ← List.map_drop, ih, ← List.map_take]
    rfl

end

/-- The characters that separate words by their meaning. -/
def isSeparator (c : Char) : Bool := c = '_' || c = '-' || c = '.'

/-- A text with its separators written as spaces. -/
def spaced (text : List Char) : List Char := text.map fun c => if isSeparator c then ' ' else c

theorem isWordChar_of_mem_words {text word : List Char} (h : word ∈ words text) {c : Char}
    (hc : c ∈ word) : isWordChar c = true := by
  have hmem : c ∈ (words text).flatten := List.mem_flatten.mpr ⟨word, h, hc⟩
  rw [flatten_words] at hmem
  exact (List.mem_filter.mp hmem).2

/-- The words of a text are the matches of the pattern in it, its separators being spaces. -/
theorem words_eq_findAll_spaced (text : List Char) :
    words text = wordPattern.findAll (spaced text) := by
  have hclass : ∀ (accepts : Char → Bool), (∀ c, isSeparator c = true → accepts c = false) →
      accepts ' ' = false → ∀ c, accepts (if isSeparator c then ' ' else c) = accepts c := by
    intro accepts hseparators hspace c
    split
    · rename_i hc
      rw [hspace, hseparators c hc]
    · rfl
  have hseparator : ∀ c, isSeparator c = true →
      isCapital c = false ∧ isSmall c = false ∧ isDigit c = false := by
    intro c hc
    simp only [isSeparator, Bool.or_eq_true, decide_eq_true_eq] at hc
    rcases hc with (rfl | rfl) | rfl <;> decide
  rw [← words_eq_findAll, spaced,
    words_map (hclass isCapital (fun c hc => (hseparator c hc).1) rfl)
      (hclass isSmall (fun c hc => (hseparator c hc).2.1) rfl)
      (hclass isDigit (fun c hc => (hseparator c hc).2.2) rfl)]
  conv => lhs; rw [← List.map_id (words text)]
  refine List.map_congr_left fun word hword => ?_
  conv => lhs; rw [id, ← List.map_id word]
  refine List.map_congr_left fun c hc => ?_
  rw [id, if_neg]
  intro hseparated
  have hchar := isWordChar_of_mem_words hword hc
  simp [isWordChar, hseparator c hseparated] at hchar

end SchemaForge.Text
