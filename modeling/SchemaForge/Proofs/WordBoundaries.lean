import SchemaForge.Proofs.WordPattern

/-! # Where words end

The words of a text are its runs of letters and digits, cut where the case or the kind of characters tells
a boundary. Written in snake case, words show the same boundaries again.
-/

namespace SchemaForge.Text

/-! ## The boundaries of words -/

/-- An ASCII letter. -/
def isLetter (c : Char) : Bool := isCapital c || isSmall c

/-- Tells whether letters and digits are cut between two neighbours, with what comes next: between a small
letter and a capital, between a letter and a digit, and between two capitals if a small letter is next. -/
def isCut (before after : Char) (next : Option Char) : Bool :=
  isSmall before && isCapital after
    || isLetter before && isDigit after
    || isDigit before && isLetter after
    || isCapital before && isCapital after && next.any isSmall

/-- A letter or a digit stands at the index. -/
def WordCharAt (text : List Char) (index : Nat) : Prop :=
  ∃ c, text[index]? = some c ∧ isWordChar c = true

/-- The text is cut in front of the index. -/
def CutAt (text : List Char) (index : Nat) : Prop :=
  ∃ before after, 0 < index ∧ text[index - 1]? = some before ∧ text[index]? = some after ∧
    isCut before after text[index + 1]? = true

/-- The characters from one index up to another one are letters and digits that are not cut, and no more
of them can be added at either end. -/
structure WordAt (text : List Char) (start stop : Nat) : Prop where
  start_lt_stop : start < stop
  chars : ∀ index, start ≤ index → index < stop → WordCharAt text index
  uncut : ∀ index, start < index → index < stop → ¬ CutAt text index
  opens : start = 0 ∨ ¬ WordCharAt text (start - 1) ∨ CutAt text start
  closes : ¬ WordCharAt text stop ∨ CutAt text stop

/-- The places of all the words of a text, from left to right. -/
structure Spans (text : List Char) (spans : List (Nat × Nat)) : Prop where
  ordered : spans.Pairwise fun span later => span.2 ≤ later.1
  mem_iff : ∀ start stop, (start, stop) ∈ spans ↔ WordAt text start stop

/-! ### Words in the rest of a text -/

variable {text : List Char} {count start stop : Nat}

theorem wordCharAt_drop (index : Nat) :
    WordCharAt (text.drop count) index ↔ WordCharAt text (count + index) := by
  simp only [WordCharAt, List.getElem?_drop]

theorem cutAt_drop {index : Nat} (h : 0 < index) :
    CutAt (text.drop count) index ↔ CutAt text (count + index) := by
  have hbefore : count + index - 1 = count + (index - 1) := by omega
  have hpos : 0 < count + index := by omega
  simp only [CutAt, List.getElem?_drop, hbefore, h, hpos, true_and, Nat.add_assoc]

/-- No word goes on across the front of the rest. -/
def Border (text : List Char) (count : Nat) : Prop :=
  ¬ WordCharAt text (count - 1) ∨ ¬ WordCharAt text count ∨ CutAt text count

/-- Behind a border, the words are those of the rest. -/
theorem wordAt_drop (hborder : Border text count) :
    WordAt (text.drop count) start stop ↔ WordAt text (count + start) (count + stop) := by
  constructor
  · intro h
    have hlt := h.start_lt_stop
    refine ⟨by omega, ?_, ?_, ?_, ?_⟩
    · intro index hstart hstop
      obtain ⟨offset, rfl⟩ : ∃ offset, index = count + offset := ⟨index - count, by omega⟩
      exact (wordCharAt_drop offset).mp (h.chars offset (by omega) (by omega))
    · intro index hstart hstop
      obtain ⟨offset, rfl⟩ : ∃ offset, index = count + offset := ⟨index - count, by omega⟩
      rw [← cutAt_drop (by omega)]
      exact h.uncut offset (by omega) (by omega)
    · right
      rcases Nat.eq_zero_or_pos start with rfl | hpos
      · rcases hborder with hbefore | hafter | hcut
        · exact Or.inl hbefore
        · exact absurd ((wordCharAt_drop 0).mp (h.chars 0 (Nat.le_refl 0) hlt)) hafter
        · exact Or.inr hcut
      · rw [show count + start - 1 = count + (start - 1) by omega, ← wordCharAt_drop,
          ← cutAt_drop hpos]
        exact h.opens.resolve_left (by omega)
    · rw [← wordCharAt_drop, ← cutAt_drop (by omega)]
      exact h.closes
  · intro h
    have hlt := h.start_lt_stop
    refine ⟨by omega, ?_, ?_, ?_, ?_⟩
    · intro index hstart hstop
      exact (wordCharAt_drop index).mpr (h.chars (count + index) (by omega) (by omega))
    · intro index hstart hstop
      rw [cutAt_drop (by omega)]
      exact h.uncut (count + index) (by omega) (by omega)
    · rcases Nat.eq_zero_or_pos start with rfl | hpos
      · exact Or.inl rfl
      · right
        rw [wordCharAt_drop, cutAt_drop hpos, show count + (start - 1) = count + start - 1 by omega]
        exact h.opens.resolve_left (by omega)
    · rw [wordCharAt_drop, cutAt_drop (by omega)]
      exact h.closes

/-- Of two words from one place on, neither is longer. -/
theorem WordAt.stop_le {other : Nat} (h : WordAt text start stop) (hother : WordAt text start other) :
    other ≤ stop := by
  by_contra hlt
  have hstart := h.start_lt_stop
  rcases h.closes with hend | hcut
  · exact hend (hother.chars stop (by omega) (by omega))
  · exact hother.uncut stop hstart (by omega) hcut

theorem WordAt.stop_eq {other : Nat} (h : WordAt text start stop) (hother : WordAt text start other) :
    other = stop :=
  Nat.le_antisymm (h.stop_le hother) (hother.stop_le h)

/-- No word starts inside of another one. -/
theorem WordAt.start_eq {first last : Nat} (h : WordAt text start stop) (hother : WordAt text first last)
    (hle : start ≤ first) (hlt : first < stop) : first = start := by
  by_contra hne
  rcases hother.opens with hzero | hbefore | hcut
  · omega
  · exact hbefore (h.chars (first - 1) (by omega) (by omega))
  · exact h.uncut first (by omega) hlt hcut

theorem WordAt.border (h : WordAt text start stop) : Border text stop :=
  Or.inr h.closes

/-! ### The places of words -/

/-- The places of the words of a text are those in front of a border, and then those of the rest. -/
theorem Spans.append {front spans : List (Nat × Nat)} (h : Spans (text.drop count) spans)
    (hborder : Border text count) (hordered : front.Pairwise fun span later => span.2 ≤ later.1)
    (hwithin : ∀ span ∈ front, span.2 ≤ count)
    (hfront : ∀ start stop, (start, stop) ∈ front ↔ WordAt text start stop ∧ start < count) :
    Spans text (front ++ spans.map fun span => (count + span.1, count + span.2)) := by
  constructor
  · rw [List.pairwise_append, List.pairwise_map]
    refine ⟨hordered, h.ordered.imp fun hle => ?_, ?_⟩
    · exact Nat.add_le_add_left hle count
    · intro span hspan later hlater
      obtain ⟨shifted, -, rfl⟩ := List.mem_map.mp hlater
      exact (hwithin span hspan).trans (Nat.le_add_right count shifted.1)
  · intro start stop
    rw [List.mem_append, List.mem_map, hfront]
    constructor
    · rintro (⟨hword, -⟩ | ⟨⟨first, last⟩, hspan, heq⟩)
      · exact hword
      · cases heq
        exact (wordAt_drop hborder).mp ((h.mem_iff first last).mp hspan)
    · intro hword
      have hlt := hword.start_lt_stop
      by_cases hinside : start < count
      · exact Or.inl ⟨hword, hinside⟩
      · right
        refine ⟨(start - count, stop - count), ?_, ?_⟩
        · rw [h.mem_iff, wordAt_drop hborder, Nat.add_sub_of_le (by omega),
            Nat.add_sub_of_le (by omega)]
          exact hword
        · rw [Prod.mk.injEq]
          omega

/-! ## The kinds of words -/

theorem not_isDigit_of_isLetter {c : Char} (h : isLetter c = true) : isDigit c = false := by
  simp only [isLetter, isCapital, isSmall, Bool.or_eq_true, Bool.and_eq_true,
    decide_eq_true_eq] at h
  simp only [isDigit, Bool.and_eq_false_iff, decide_eq_false_iff_not]
  omega

theorem not_isCapital_of_isSmall {c : Char} (h : isSmall c = true) : isCapital c = false := by
  by_contra hc
  rw [not_isSmall_of_isCapital (by simpa using hc)] at h
  exact absurd h Bool.false_ne_true

theorem not_isLetter_of_isDigit {c : Char} (h : isDigit c = true) : isLetter c = false := by
  by_contra hc
  rw [not_isDigit_of_isLetter (by simpa using hc)] at h
  exact absurd h Bool.false_ne_true

theorem isLetter_of_isCapital {c : Char} (h : isCapital c = true) : isLetter c = true := by
  rw [isLetter, h, Bool.true_or]

theorem isLetter_of_isSmall {c : Char} (h : isSmall c = true) : isLetter c = true := by
  rw [isLetter, h, Bool.or_true]

section

variable {before after : Char} {next : Option Char}

theorem isCut_capitals (hbefore : isCapital before = true) (hafter : isCapital after = true) :
    isCut before after next = next.any isSmall := by
  simp [isCut, hbefore, hafter, not_isSmall_of_isCapital, not_isDigit_of_isLetter,
    isLetter_of_isCapital]

theorem isCut_small (hbefore : isLetter before = true) (hafter : isSmall after = true) :
    isCut before after next = false := by
  have hletter := isLetter_of_isSmall hafter
  simp [isCut, hbefore, not_isCapital_of_isSmall hafter, not_isDigit_of_isLetter, hletter]

theorem isCut_digits (hbefore : isDigit before = true) (hafter : isDigit after = true) :
    isCut before after next = false := by
  have hletters := And.intro (not_isLetter_of_isDigit hbefore) (not_isLetter_of_isDigit hafter)
  simp only [isLetter, Bool.or_eq_false_iff] at hletters
  simp [isCut, isLetter, hletters]

theorem isCut_letter_digit (hbefore : isLetter before = true) (hafter : isDigit after = true) :
    isCut before after next = true := by
  simp [isCut, hbefore, hafter]

theorem isCut_digit_letter (hbefore : isDigit before = true) (hafter : isLetter after = true) :
    isCut before after next = true := by
  simp [isCut, hbefore, hafter]

theorem isCut_small_capital (hbefore : isSmall before = true) (hafter : isCapital after = true) :
    isCut before after next = true := by
  simp [isCut, hbefore, hafter]

end

theorem isWordChar_eq (c : Char) : isWordChar c = (isLetter c || isDigit c) := rfl

/-- A word of one of the kinds, in front of text that does not belong to it. -/
inductive Front : List Char → List Char → Prop
  | acronym {word rest : List Char} {first second : Char} (nonempty : word ≠ [])
      (capitals : ∀ c ∈ word, isCapital c = true) (capital : isCapital first = true)
      (small : isSmall second = true) : Front word (first :: second :: rest)
  | plain {capital smalls rest : List Char} (nonempty : smalls ≠ []) (single : capital.length ≤ 1)
      (capitals : ∀ c ∈ capital, isCapital c = true) (small : ∀ c ∈ smalls, isSmall c = true)
      (ends : ∀ c ∈ rest.head?, isSmall c = false) : Front (capital ++ smalls) rest
  | capitals {word rest : List Char} (nonempty : word ≠ [])
      (capitals : ∀ c ∈ word, isCapital c = true)
      (ends : ∀ c ∈ rest.head?, isCapital c = false ∧ isSmall c = false) : Front word rest
  | digits {word rest : List Char} (nonempty : word ≠ []) (digits : ∀ c ∈ word, isDigit c = true)
      (ends : ∀ c ∈ rest.head?, isDigit c = false) : Front word rest

/-- The text is the run of a class in front of a character of another class. -/
theorem exists_run (accepts : Char → Bool) (text : List Char) :
    ∃ run rest, text = run ++ rest ∧ (text.takeWhile accepts).length = run.length
      ∧ (∀ c ∈ run, accepts c = true) ∧ ∀ c ∈ rest.head?, accepts c = false := by
  refine ⟨text.takeWhile accepts, text.dropWhile accepts, ?_, rfl, ?_, ?_⟩
  · exact List.takeWhile_append_dropWhile.symm
  · exact fun c hc => List.mem_takeWhile_imp hc
  · intro c hc
    have hend := List.head?_dropWhile_not accepts text
    rw [Option.mem_def.mp hc] at hend
    simpa using hend

/-- As many characters as the length are a word at the front of the text. -/
def StartsWord (text : List Char) (length : Nat) : Prop :=
  ∃ word rest, Front word rest ∧ text = word ++ rest ∧ length = word.length

theorem acronymLength_of_run {run rest : List Char}
    (h : ((run ++ rest).takeWhile isCapital).length = run.length) :
    acronymLength (run ++ rest) = if rest.head?.any isSmall then run.length - 1 else 0 := by
  rw [acronymLength_eq, smallAfterCapitals, h, List.drop_left]

theorem startsWord_acronymLength {text : List Char} (h : acronymLength text ≠ 0) :
    StartsWord text (acronymLength text) := by
  obtain ⟨run, rest, rfl, hlength, hrun, -⟩ := exists_run isCapital text
  rw [acronymLength_of_run hlength] at h ⊢
  cases rest with
  | nil => exact absurd rfl h
  | cons second more =>
    cases hsecond : isSmall second with
    | false => simp [hsecond] at h
    | true =>
      have hsmall : (second :: more).head?.any isSmall = true := hsecond
      rw [if_pos hsmall] at h ⊢
      -- the last capital belongs to the small letter behind it
      rcases List.eq_nil_or_concat' run with rfl | ⟨word, first, rfl⟩
      · exact absurd rfl h
      · rw [List.length_append, List.length_singleton, Nat.add_sub_cancel] at h ⊢
        have hfirst := hrun first (List.mem_append_right word (List.mem_singleton_self first))
        refine ⟨word, first :: second :: more, ?_, by rw [List.append_assoc]; rfl, rfl⟩
        refine Front.acronym ?_ (fun c hc => hrun c (List.mem_append_left [first] hc)) hfirst hsecond
        rintro rfl
        exact h rfl

theorem startsWord_plainLength {text : List Char} (h : plainLength text ≠ 0) :
    StartsWord text (plainLength text) := by
  cases text with
  | nil => exact absurd rfl h
  | cons c more =>
    rw [plainLength] at h ⊢
    split_ifs at h ⊢ with hc
    · obtain ⟨smalls, rest, rfl, hlength, hsmalls, hends⟩ := exists_run isSmall more
      rw [hlength] at h ⊢
      cases smalls with
      | nil => exact absurd rfl h
      | cons d others =>
        refine ⟨[c] ++ d :: others, rest, ?_, rfl, rfl⟩
        exact Front.plain (by simp) (by simp) (by simpa using hc) hsmalls hends
    · obtain ⟨smalls, rest, htext, hlength, hsmalls, hends⟩ := exists_run isSmall (c :: more)
      rw [hlength] at h ⊢
      refine ⟨[] ++ smalls, rest, ?_, htext, rfl⟩
      exact Front.plain (by simpa using h) (by simp) (by simp) hsmalls hends

theorem startsWord_capitalsLength {text : List Char} (hacronym : acronymLength text = 0)
    (hplain : plainLength text = 0) (h : capitalsLength text ≠ 0) :
    StartsWord text (capitalsLength text) := by
  obtain ⟨run, rest, rfl, hlength, hrun, hends⟩ := exists_run isCapital text
  rw [acronymLength_of_run hlength] at hacronym
  rw [capitalsLength, hlength] at h ⊢
  have hsmall : ∀ c ∈ rest.head?, isSmall c = false := by
    intro c hc
    obtain ⟨more, rfl⟩ := List.head?_eq_some_iff.mp hc
    by_contra hsmall
    rw [if_pos (by simpa using hsmall)] at hacronym
    -- the run is a single capital, which the small letter behind it makes a plain word
    obtain ⟨first, rfl⟩ := List.length_eq_one_iff.mp (by omega : run.length = 1)
    have hfirst := hrun first (List.mem_singleton_self first)
    simp [plainLength, hfirst, hsmall] at hplain
  refine ⟨run, rest, Front.capitals ?_ hrun fun c hc => ⟨hends c hc, hsmall c hc⟩, rfl, rfl⟩
  rintro rfl
  exact h rfl

/-- The word at the front of a text is of one of the kinds. -/
theorem startsWord_wordLength {text : List Char} (h : wordLength text ≠ 0) :
    StartsWord text (wordLength text) := by
  rw [wordLength_eq] at h ⊢
  split_ifs at h ⊢ with hacronym hplain hcapitals
  · exact startsWord_acronymLength hacronym
  · exact startsWord_plainLength hplain
  · exact startsWord_capitalsLength (not_not.mp hacronym) (not_not.mp hplain) hcapitals
  · obtain ⟨run, rest, rfl, hlength, hrun, hends⟩ := exists_run isDigit text
    rw [digitsLength, hlength] at h ⊢
    exact ⟨run, rest, Front.digits (by simpa using h) hrun hends, rfl, rfl⟩

/-! ### Each kind of word lies between boundaries -/

section

variable {word rest : List Char}

theorem mem_of_getElem?_append {index : Nat} {c : Char} (hlt : index < word.length)
    (h : (word ++ rest)[index]? = some c) : c ∈ word := by
  rw [List.getElem?_append_left hlt] at h
  exact List.mem_of_getElem? h

/-- Uncut letters and digits are a word when they are cut from the next one, if there is one. -/
theorem wordAt_append (hne : word ≠ []) (hchars : ∀ c ∈ word, isWordChar c = true)
    (huncut : ∀ index, 0 < index → index < word.length → ¬ CutAt (word ++ rest) index)
    (hcloses : ∀ last next, word.getLast? = some last → rest.head? = some next →
      isWordChar next = true → isCut last next rest[1]? = true) :
    WordAt (word ++ rest) 0 word.length := by
  have hlength := List.length_pos_of_ne_nil hne
  have hbehind : ∀ count, (word ++ rest)[word.length + count]? = rest[count]? := by
    intro count
    rw [List.getElem?_append_right (by omega), Nat.add_sub_cancel_left]
  refine ⟨hlength, ?_, huncut, Or.inl rfl, ?_⟩
  · intro index _ hlt
    refine ⟨word[index], List.getElem?_append_left hlt ▸ List.getElem?_eq_getElem hlt, ?_⟩
    exact hchars _ (List.getElem_mem hlt)
  · by_cases hchar : WordCharAt (word ++ rest) word.length
    · right
      obtain ⟨next, hnext, hnextchar⟩ := hchar
      refine ⟨word.getLast hne, next, hlength, ?_, hnext, ?_⟩
      · rw [List.getElem?_append_left (by omega), ← List.getLast?_eq_getElem?,
          List.getLast?_eq_some_getLast hne]
      · rw [hbehind 1]
        have hhead : rest.head? = some next := by
          rw [List.head?_eq_getElem?, ← hbehind 0]
          exact hnext
        exact hcloses _ next (List.getLast?_eq_some_getLast hne) hhead hnextchar
    · exact Or.inl hchar

/-- Nothing is cut in a run of capitals whose last one no small letter follows. -/
theorem not_cutAt_capitals (hword : ∀ c ∈ word, isCapital c = true)
    (hends : ∀ c ∈ rest.head?, isSmall c = false) {index : Nat} (hlt : index < word.length) :
    ¬ CutAt (word ++ rest) index := by
  rintro ⟨before, after, hpos, hbefore, hafter, hcut⟩
  have hcapital := hword before (mem_of_getElem?_append (by omega) hbefore)
  rw [isCut_capitals hcapital (hword after (mem_of_getElem?_append hlt hafter)),
    Option.any_eq_true] at hcut
  obtain ⟨next, hnext, hsmall⟩ := hcut
  by_cases hinside : index + 1 < word.length
  · have hnextCapital := hword next (mem_of_getElem?_append hinside hnext)
    rw [not_isSmall_of_isCapital hnextCapital] at hsmall
    exact absurd hsmall Bool.false_ne_true
  · rw [List.getElem?_append_right (by omega), show index + 1 - word.length = 0 by omega,
      ← List.head?_eq_getElem?] at hnext
    rw [hends next hnext] at hsmall
    exact absurd hsmall Bool.false_ne_true

theorem Front.ne_nil (h : Front word rest) : word ≠ [] := by
  cases h with
  | acronym hne => exact hne
  | plain hne => exact List.append_ne_nil_of_right_ne_nil _ hne
  | capitals hne => exact hne
  | digits hne => exact hne

/-- A word of any kind is made of letters or of digits. -/
theorem Front.letters_or_digits (h : Front word rest) :
    (∀ c ∈ word, isLetter c = true) ∨ ∀ c ∈ word, isDigit c = true := by
  cases h with
  | acronym _ hword => exact Or.inl fun c hc => isLetter_of_isCapital (hword c hc)
  | plain _ _ hcapitals hsmalls =>
    left
    intro c hc
    rcases List.mem_append.mp hc with hcapital | hsmall
    · exact isLetter_of_isCapital (hcapitals c hcapital)
    · exact isLetter_of_isSmall (hsmalls c hsmall)
  | capitals _ hword => exact Or.inl fun c hc => isLetter_of_isCapital (hword c hc)
  | digits _ hword => exact Or.inr hword

theorem Front.isWordChar (h : Front word rest) {c : Char} (hc : c ∈ word) :
    Text.isWordChar c = true := by
  rw [isWordChar_eq, Bool.or_eq_true]
  exact h.letters_or_digits.imp (fun hletters => hletters c hc) (fun hdigits => hdigits c hc)

theorem Front.not_cutAt (h : Front word rest) {index : Nat} (hpos : 0 < index)
    (hlt : index < word.length) : ¬ CutAt (word ++ rest) index := by
  cases h with
  | acronym _ hword hfirst _ =>
    refine not_cutAt_capitals hword (fun c hc => ?_) hlt
    obtain rfl := Option.some_inj.mp hc
    exact not_isSmall_of_isCapital hfirst
  | @plain capital smalls _ hne hsingle hcapitals hsmalls hends =>
    rintro ⟨before, after, -, hbefore, hafter, hcut⟩
    rw [List.length_append] at hlt
    have hletter : isLetter before = true := by
      have hmem := mem_of_getElem?_append (by rw [List.length_append]; omega) hbefore
      refine (List.mem_append.mp hmem).elim (fun hc => ?_) (fun hc => ?_)
      · exact isLetter_of_isCapital (hcapitals before hc)
      · exact isLetter_of_isSmall (hsmalls before hc)
    have hsmall : isSmall after = true := by
      rw [List.append_assoc, List.getElem?_append_right (by omega)] at hafter
      exact hsmalls after (mem_of_getElem?_append (by omega) hafter)
    rw [isCut_small hletter hsmall] at hcut
    exact absurd hcut Bool.false_ne_true
  | capitals _ hword hends => exact not_cutAt_capitals hword (fun c hc => (hends c hc).2) hlt
  | digits _ hword _ =>
    rintro ⟨before, after, -, hbefore, hafter, hcut⟩
    rw [isCut_digits (hword before (mem_of_getElem?_append (by omega) hbefore))
      (hword after (mem_of_getElem?_append hlt hafter))] at hcut
    exact absurd hcut Bool.false_ne_true

theorem Front.isCut_next (h : Front word rest) {last next : Char} (hlast : word.getLast? = some last)
    (hnext : rest.head? = some next) (hchar : Text.isWordChar next = true) :
    isCut last next rest[1]? = true := by
  have hmem := List.mem_of_getLast? hlast
  cases h with
  | acronym _ hword hfirst hsecond =>
    obtain rfl := Option.some_inj.mp hnext
    rw [isCut_capitals (hword last hmem) hfirst]
    exact hsecond
  | @plain capital smalls _ hne _ _ hsmalls hends =>
    have hsmall : isSmall last = true := by
      rw [List.getLast?_append_of_ne_nil capital hne] at hlast
      exact hsmalls last (List.mem_of_getLast? hlast)
    rw [Text.isWordChar, hends next hnext, Bool.or_false, Bool.or_eq_true] at hchar
    exact hchar.elim (isCut_small_capital hsmall) (isCut_letter_digit (isLetter_of_isSmall hsmall))
  | capitals _ hword hends =>
    have hdigit : isDigit next = true := by
      simpa [Text.isWordChar, hends next hnext] using hchar
    exact isCut_letter_digit (isLetter_of_isCapital (hword last hmem)) hdigit
  | digits _ hword hends =>
    rw [isWordChar_eq, hends next hnext, Bool.or_false] at hchar
    exact isCut_digit_letter (hword last hmem) hchar

/-- A word of any kind lies between boundaries. -/
theorem Front.wordAt (h : Front word rest) : WordAt (word ++ rest) 0 word.length :=
  wordAt_append h.ne_nil (fun _ hc => h.isWordChar hc) (fun _ => h.not_cutAt)
    fun _ _ => h.isCut_next

end

theorem wordAt_wordLength (h : wordLength text ≠ 0) : WordAt text 0 (wordLength text) := by
  obtain ⟨word, rest, hfront, rfl, hlength⟩ := startsWord_wordLength h
  rw [hlength]
  exact hfront.wordAt

/-! ## All words -/

theorem extract_drop (text : List Char) (count start stop : Nat) :
    (text.drop count).extract start stop = text.extract (count + start) (count + stop) := by
  rw [List.extract_eq_take_drop, List.extract_eq_take_drop, List.drop_drop, Nat.add_sub_add_left]

/-- The words of a text stand at the places between boundaries. -/
theorem exists_spans (text : List Char) : ∃ spans,
    words text = spans.map (fun span => text.extract span.1 span.2) ∧ Spans text spans := by
  induction text using words.induct with
  | case1 =>
    refine ⟨[], by rw [words]; rfl, List.Pairwise.nil, fun start stop => ?_⟩
    refine ⟨fun h => absurd h List.not_mem_nil, fun hword => ?_⟩
    obtain ⟨c, hc, _⟩ := hword.chars start (Nat.le_refl start) hword.start_lt_stop
    rw [List.getElem?_nil] at hc
    exact absurd hc (Option.some_ne_none c).symm
  | case2 c rest hzero ih =>
    obtain ⟨spans, hwords, (hspans : Spans ((c :: rest).drop 1) spans)⟩ := ih
    have hnone : ¬ WordCharAt (c :: rest) 0 := by
      rintro ⟨d, hd, hchar⟩
      obtain rfl := Option.some_inj.mp hd
      rw [(wordLength_eq_zero_iff c rest).mp hzero] at hchar
      exact absurd hchar Bool.false_ne_true
    have hfront : ∀ start stop, (start, stop) ∈ ([] : List (Nat × Nat)) ↔
        WordAt (c :: rest) start stop ∧ start < 1 := by
      intro start stop
      refine ⟨fun h => absurd h List.not_mem_nil, ?_⟩
      rintro ⟨hword, hlt⟩
      obtain rfl : start = 0 := by omega
      exact absurd (hword.chars 0 (Nat.le_refl 0) hword.start_lt_stop) hnone
    have hborder : Border (c :: rest) 1 := Or.inl hnone
    refine ⟨_, ?_, hspans.append hborder List.Pairwise.nil (by simp) hfront⟩
    rw [words_of_wordLength_eq_zero hzero, hwords, List.nil_append, List.map_map]
    exact List.map_congr_left fun span _ => extract_drop (c :: rest) 1 span.1 span.2
  | case3 c rest n hlength ih =>
    obtain ⟨spans, hwords, (hspans : Spans ((c :: rest).drop (n + 1)) spans)⟩ := ih
    have hword : WordAt (c :: rest) 0 (n + 1) := by
      have hfirst := wordAt_wordLength (hlength ▸ Nat.succ_ne_zero n : wordLength (c :: rest) ≠ 0)
      rwa [hlength] at hfirst
    have hfront : ∀ start stop, (start, stop) ∈ [(0, n + 1)] ↔
        WordAt (c :: rest) start stop ∧ start < n + 1 := by
      intro start stop
      rw [List.mem_singleton, Prod.mk.injEq]
      constructor
      · rintro ⟨rfl, rfl⟩
        exact ⟨hword, Nat.succ_pos n⟩
      · rintro ⟨hother, hlt⟩
        obtain rfl := hword.start_eq hother (Nat.zero_le start) hlt
        exact ⟨rfl, hword.stop_eq hother⟩
    refine ⟨_, ?_, hspans.append hword.border (List.pairwise_singleton _ _) (by simp) hfront⟩
    rw [words_of_wordLength_eq_succ hlength, hwords, List.map_append, List.map_singleton,
      List.singleton_append, List.map_map]
    congr 1
    exact List.map_congr_left fun span _ => extract_drop (c :: rest) (n + 1) span.1 span.2

/-- A word of any kind is the first one of a text that starts with it. -/
theorem words_append_of_front {word rest : List Char} (h : Front word rest) :
    words (word ++ rest) = word :: words rest := by
  obtain ⟨c, others, rfl⟩ := List.exists_cons_of_ne_nil h.ne_nil
  have hchar : isWordChar c = true := h.isWordChar List.mem_cons_self
  have hne : wordLength (c :: others ++ rest) ≠ 0 := by
    intro hzero
    rw [(wordLength_eq_zero_iff c (others ++ rest)).mp hzero] at hchar
    exact absurd hchar Bool.false_ne_true
  have hlength : wordLength (c :: (others ++ rest)) = others.length + 1 :=
    h.wordAt.stop_eq (wordAt_wordLength hne)
  rw [List.cons_append, words_of_wordLength_eq_succ hlength, List.take_left, List.drop_left]

theorem exists_front_of_mem_words {text word : List Char} (h : word ∈ words text) :
    ∃ rest, Front word rest := by
  induction text using words.induct with
  | case1 =>
    rw [words] at h
    exact absurd h List.not_mem_nil
  | case2 c rest hzero ih =>
    rw [words_of_wordLength_eq_zero hzero] at h
    exact ih h
  | case3 c rest n hlength ih =>
    obtain ⟨first, others, hfront, htext, hfirst⟩ :=
      startsWord_wordLength (hlength ▸ Nat.succ_ne_zero n : wordLength (c :: rest) ≠ 0)
    have htake : c :: rest.take n = first := by
      rw [← List.take_succ_cons, htext]
      exact List.take_left' (hfirst ▸ hlength)
    rw [words_of_wordLength_eq_succ hlength, htake, List.mem_cons] at h
    exact h.elim (fun hword => ⟨others, hword ▸ hfront⟩) ih

end SchemaForge.Text
