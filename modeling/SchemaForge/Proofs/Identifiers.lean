import Mathlib.Data.List.Nodup
import SchemaForge.Proofs.Words
import SchemaForge.Rust.Identifier

/-! # Legal identifiers

Every name of a document becomes an identifier that Rust accepts, also where it has to be numbered
to be told from names in use. No identifier has fewer letters and digits than the name it stands
for, which is why a numbered one is never that name itself.
-/

namespace SchemaForge.Rust

open Text

/-- The characters that an identifier may start with. -/
def startsIdentifier (c : Char) : Bool := isCapital c || isSmall c || c = '_'

/-- A name spelled as an identifier: a letter or an underscore, then letters, digits and
underscores. -/
def Spelled (name : String) : Prop :=
  ∃ first rest, name.toList = first :: rest ∧ startsIdentifier first = true ∧
    ∀ c ∈ rest, isIdentifierChar c = true

/-- An identifier that may be declared. The underscore alone is a pattern, no identifier. -/
structure Legal (name : String) : Prop where
  spelled : Spelled name
  ne_underscore : name ≠ "_"
  not_keyword : name ∉ keywords

theorem spelled_iff (name : String) :
    Spelled name ↔ name.toList.head?.any startsIdentifier = true ∧
      name.toList.tail.all isIdentifierChar = true := by
  unfold Spelled
  cases name.toList with
  | nil => simp
  | cons first rest => simp

instance (name : String) : Decidable (Spelled name) :=
  decidable_of_iff _ (spelled_iff name).symm

theorem legal_iff (name : String) :
    Legal name ↔ Spelled name ∧ name ≠ "_" ∧ name ∉ keywords :=
  ⟨fun h => ⟨h.spelled, h.ne_underscore, h.not_keyword⟩, fun ⟨h, hne, hfree⟩ => ⟨h, hne, hfree⟩⟩

instance (name : String) : Decidable (Legal name) :=
  decidable_of_iff _ (legal_iff name).symm

theorem isIdentifierChar_eq (c : Char) : isIdentifierChar c = (isWordChar c || c = '_') := rfl

/-- Text that may follow an identifier: digits and underscores. -/
def Trailing (more : String) : Prop :=
  ∀ c ∈ more.toList, isDigit c = true ∨ c = '_'

theorem Trailing.isIdentifierChar {more : String} (h : Trailing more) {c : Char}
    (hc : c ∈ more.toList) : isIdentifierChar c = true := by
  rcases h c hc with hdigit | hunderscore
  · rw [isIdentifierChar_eq, isWordChar_of_isDigit c hdigit, Bool.true_or]
  · rw [hunderscore]
    decide

theorem Trailing.append {more rest : String} (h : Trailing more) (hrest : Trailing rest) :
    Trailing (more ++ rest) := by
  intro c hc
  rw [String.toList_append] at hc
  exact (List.mem_append.mp hc).elim (h c) (hrest c)

theorem trailing_underscore : Trailing "_" := by
  intro c hc
  exact Or.inr (List.mem_singleton.mp hc)

theorem trailing_empty : Trailing "" := by
  intro c hc
  exact absurd hc List.not_mem_nil

theorem toList_toString (n : Nat) : (toString n).toList = Nat.toDigits 10 n := by
  rw [Nat.toString_eq_repr, Nat.toList_repr]

theorem toList_toString_ne_nil (n : Nat) : (toString n).toList ≠ [] := by
  rw [toList_toString]
  exact Nat.toDigits_ne_nil

theorem isDigit_of_mem_toString {n : Nat} {c : Char} (h : c ∈ (toString n).toList) :
    isDigit c = true := by
  rw [toList_toString] at h
  have hdigit := Nat.isDigit_of_mem_toDigits (by decide) (by decide) h
  simp only [Char.isDigit, Bool.and_eq_true, decide_eq_true_eq, ge_iff_le,
    UInt32.le_iff_toNat_le] at hdigit
  simpa [isDigit] using hdigit

theorem trailing_toString (n : Nat) : Trailing (toString n) :=
  fun _ hc => Or.inl (isDigit_of_mem_toString hc)

/-- No keyword ends in a digit or in an underscore. -/
theorem isSmall_getLast?_of_mem_keywords :
    ∀ word ∈ keywords, word.toList.getLast?.all isSmall = true := by
  decide

/-- A spelled name is legal once digits or underscores follow it, whatever it was before. -/
theorem legal_append {name more : String} (h : Spelled name) (hmore : Trailing more)
    (hsome : more.toList ≠ []) : Legal (name ++ more) := by
  obtain ⟨first, rest, hname, hfirst, hrest⟩ := h
  have hlist : (name ++ more).toList = first :: (rest ++ more.toList) := by
    rw [String.toList_append, hname, List.cons_append]
  refine ⟨⟨first, rest ++ more.toList, hlist, hfirst, ?_⟩, ?_, ?_⟩
  · intro c hc
    exact (List.mem_append.mp hc).elim (hrest c) hmore.isIdentifierChar
  · intro hunderscore
    rw [hunderscore] at hlist
    have hnil : rest ++ more.toList = [] := ((List.cons.inj hlist).2).symm
    exact hsome (List.append_eq_nil_iff.mp hnil).2
  · intro hkeyword
    have hlast : (name ++ more).toList.getLast? = some (more.toList.getLast hsome) := by
      rw [String.toList_append, List.getLast?_append, List.getLast?_eq_some_getLast hsome,
        Option.some_or]
    have hsmall := isSmall_getLast?_of_mem_keywords _ hkeyword
    rw [hlast, Option.all_some] at hsmall
    rcases hmore _ (List.getLast_mem hsome) with hdigit | hunderscore
    · simp only [isSmall, isDigit, Bool.and_eq_true, decide_eq_true_eq] at hsmall hdigit
      omega
    · rw [hunderscore] at hsmall
      exact absurd hsmall (by decide)

/-! ## Names made legal -/

theorem avoidKeyword_eq (name : String) :
    avoidKeyword name = if name ∈ keywords then name ++ "_" else name := by
  by_cases h : name ∈ keywords <;> simp [avoidKeyword, escapeKeyword?, h]

theorem legal_avoidKeyword {name : String} (h : Spelled name) (hne : name ≠ "_") :
    Legal (avoidKeyword name) := by
  rw [avoidKeyword_eq]
  by_cases hkeyword : name ∈ keywords
  · rw [if_pos hkeyword]
    exact legal_append h trailing_underscore (by decide)
  · rw [if_neg hkeyword]
    exact ⟨h, hne, hkeyword⟩

/-- Characters of identifiers are made legal when a letter or a digit stands in front. -/
theorem legal_legalise {standIn : String} {digitMark : Char} {characters : List Char}
    (hstandIn : Legal standIn) (hmark : startsIdentifier digitMark = true)
    (hfront : ∀ c rest, characters = c :: rest → isWordChar c = true)
    (hall : ∀ c ∈ characters, isIdentifierChar c = true) :
    Legal (legalise standIn digitMark characters) := by
  unfold legalise
  cases characters with
  | nil => exact legal_avoidKeyword hstandIn.spelled hstandIn.ne_underscore
  | cons c rest =>
    have hc := hfront c rest rfl
    cases hdigit : isDigit c with
    | true =>
      simp only [hdigit, if_true]
      refine legal_avoidKeyword ⟨digitMark, c :: rest, String.toList_ofList, hmark, hall⟩ ?_
      intro hunderscore
      simpa using congrArg String.toList hunderscore
    | false =>
      simp only [hdigit, Bool.false_eq_true, if_false]
      have hstart : startsIdentifier c = true := by
        rw [isWordChar, hdigit, Bool.or_false] at hc
        rw [startsIdentifier, hc, Bool.true_or]
      refine legal_avoidKeyword ⟨c, rest, String.toList_ofList, hstart, ?_⟩ ?_
      · exact fun d hd => hall d (List.mem_cons_of_mem c hd)
      · intro hunderscore
        have hlist := congrArg String.toList hunderscore
        rw [String.toList_ofList] at hlist
        rw [(List.cons.inj hlist).1] at hc
        exact absurd hc (by decide)

theorem legal_legalise_pascalCase {standIn : String} {digitMark : Char}
    (hstandIn : Legal standIn) (hmark : startsIdentifier digitMark = true) (text : List Char) :
    Legal (legalise standIn digitMark (pascalCase text)) := by
  refine legal_legalise hstandIn hmark ?_ ?_
  · intro c rest heq
    have hmem : c ∈ pascalCase text := heq ▸ List.mem_cons_self
    exact isWordChar_of_mem_pascalCase hmem
  · intro c hc
    rw [isIdentifierChar_eq, isWordChar_of_mem_pascalCase hc, Bool.true_or]

theorem legal_typeName (raw : String) : Legal (typeName raw) :=
  legal_legalise_pascalCase (by decide) (by decide) raw.toList

theorem legal_variantName (raw : String) : Legal (variantName raw).name :=
  legal_legalise_pascalCase (by decide) (by decide) raw.toList

/-- A field's name is a keyword with an underscore after it, or else it is made of the words. The
words in snake case hold nothing that an identifier may not hold. -/
theorem fieldName_name (raw : String) :
    (fieldName raw).name = if raw ∈ keywords then raw ++ "_"
      else legalise "field" '_' (snakeCase raw.toList) := by
  have hfilter : (snakeCase raw.toList).filter isIdentifierChar = snakeCase raw.toList := by
    rw [List.filter_eq_self]
    intro c hc
    rw [isIdentifierChar_eq, Bool.or_eq_true, decide_eq_true_eq]
    exact isWordChar_of_mem_snakeCase hc
  by_cases hkeyword : raw ∈ keywords <;>
    simp [fieldName, escapeKeyword?, hkeyword, hfilter, Identifier.standingFor]

theorem spelled_of_mem_keywords : ∀ word ∈ keywords, Spelled word := by
  decide

theorem legal_fieldName (raw : String) : Legal (fieldName raw).name := by
  rw [fieldName_name]
  by_cases hkeyword : raw ∈ keywords
  · rw [if_pos hkeyword]
    exact legal_append (spelled_of_mem_keywords raw hkeyword) trailing_underscore (by decide)
  · rw [if_neg hkeyword]
    refine legal_legalise (by decide) (by decide)
      (fun c rest heq => isWordChar_of_snakeCase_eq_cons heq) ?_
    intro c hc
    rw [isIdentifierChar_eq, Bool.or_eq_true, decide_eq_true_eq]
    exact isWordChar_of_mem_snakeCase hc

/-! ## Names told from names in use -/

theorem numbered_injective (name separator : String) :
    Function.Injective (numbered name separator) := by
  intro m n h
  have hlist := congrArg String.toList h
  simp only [numbered, String.toList_append, toList_toString] at hlist
  have hdigits := List.append_cancel_left hlist
  rw [← @Nat.ofDigitChars_ten_toDigits m, hdigits, Nat.ofDigitChars_ten_toDigits]

/-- Used names cannot fill one candidate more than there are of them. -/
theorem exists_numbered_not_mem (name separator : String) (used : List String) :
    ∃ n ∈ List.range' 2 (used.length + 1), numbered name separator n ∉ used := by
  by_contra hnone
  have hsubset : (List.range' 2 (used.length + 1)).map (numbered name separator) ⊆ used := by
    intro candidate hcandidate
    obtain ⟨n, hn, rfl⟩ := List.mem_map.mp hcandidate
    by_contra hfree
    exact hnone ⟨n, hn, hfree⟩
  have hdistinct : ((List.range' 2 (used.length + 1)).map (numbered name separator)).Nodup :=
    List.Nodup.map (numbered_injective name separator) List.nodup_range'
  have hlength := hdistinct.length_le_of_subset hsubset
  rw [List.length_map, List.length_range'] at hlength
  omega

/-- A free name is kept, and a name in use gets the least number from two on that frees it. -/
theorem uniqueName_cases (name : String) (used : List String) (separator : String) :
    name ∉ used ∧ uniqueName name used separator = name ∨
      name ∈ used ∧ ∃ n, 2 ≤ n ∧ uniqueName name used separator = numbered name separator n ∧
        numbered name separator n ∉ used ∧
        ∀ m, 2 ≤ m → m < n → numbered name separator m ∈ used := by
  unfold uniqueName
  by_cases hused : name ∈ used
  · right
    rw [if_pos hused]
    dsimp only
    rw [List.find?_map]
    cases hfind : (List.range' 2 (used.length + 1)).find?
        ((fun candidate => decide (candidate ∉ used)) ∘ numbered name separator) with
    | none =>
      obtain ⟨n, hn, hfree⟩ := exists_numbered_not_mem name separator used
      exact absurd hfree (by simpa using List.find?_eq_none.mp hfind n hn)
    | some n =>
      obtain ⟨hfree, hmem, hleast⟩ := List.find?_range'_eq_some.mp hfind
      refine ⟨hused, n, (List.mem_range'_1.mp hmem).1, rfl, by simpa using hfree, ?_⟩
      intro m hm hlt
      simpa using hleast m hm hlt
  · left
    exact ⟨hused, if_neg hused⟩

theorem uniqueName_not_mem (name : String) (used : List String) (separator : String) :
    uniqueName name used separator ∉ used := by
  rcases uniqueName_cases name used separator with ⟨hfree, heq⟩ | ⟨-, n, -, heq, hfree, -⟩
  · rwa [heq]
  · rwa [heq]

theorem legal_uniqueName {name separator : String} (h : Legal name) (hseparator : Trailing separator)
    (used : List String) : Legal (uniqueName name used separator) := by
  rcases uniqueName_cases name used separator with ⟨-, heq⟩ | ⟨-, n, -, heq, -⟩
  · rwa [heq]
  · rw [heq, numbered, String.append_assoc]
    refine legal_append h.spelled (hseparator.append (trailing_toString n)) ?_
    rw [String.toList_append]
    exact fun hnil => toList_toString_ne_nil n (List.append_eq_nil_iff.mp hnil).2

/-! ## Serialized names -/

/-- The number of letters and digits of a name. -/
def wordCharCount (name : String) : Nat := name.toList.countP isWordChar

theorem wordCharCount_append (name more : String) :
    wordCharCount (name ++ more) = wordCharCount name + wordCharCount more := by
  rw [wordCharCount, String.toList_append, List.countP_append, wordCharCount, wordCharCount]

theorem wordCharCount_toString_pos (n : Nat) : 0 < wordCharCount (toString n) := by
  obtain ⟨c, hc⟩ := List.exists_mem_of_ne_nil _ (toList_toString_ne_nil n)
  exact List.countP_pos_iff.mpr ⟨c, hc, isWordChar_of_isDigit c (isDigit_of_mem_toString hc)⟩

/-- Numbering adds letters and digits. -/
theorem wordCharCount_lt_numbered (name separator : String) (n : Nat) :
    wordCharCount name < wordCharCount (numbered name separator n) := by
  have hpos := wordCharCount_toString_pos n
  rw [numbered, wordCharCount_append, wordCharCount_append]
  omega

theorem wordCharCount_le_avoidKeyword (name : String) :
    wordCharCount name ≤ wordCharCount (avoidKeyword name) := by
  rw [avoidKeyword_eq]
  split
  · rw [wordCharCount_append]
    exact Nat.le_add_right _ _
  · exact Nat.le_refl _

theorem countP_le_legalise (standIn : String) (digitMark : Char) (characters : List Char) :
    characters.countP isWordChar ≤ wordCharCount (legalise standIn digitMark characters) := by
  refine Nat.le_trans ?_ (wordCharCount_le_avoidKeyword _)
  cases characters with
  | nil => exact Nat.zero_le _
  | cons c rest =>
    dsimp only
    rw [wordCharCount, String.toList_ofList]
    split
    · exact (List.sublist_cons_self digitMark (c :: rest)).countP_le
    · exact Nat.le_refl _

/-- An identifier that is made for a name: it is legal, it carries the name just where it differs
from it, and it has no fewer letters and digits. -/
structure Identifier.MadeFor (identifier : Identifier) (raw : String) : Prop where
  legal : Legal identifier.name
  eq_standingFor : identifier = .standingFor identifier.name raw
  wordCharCount_le : wordCharCount raw ≤ wordCharCount identifier.name

theorem madeFor_fieldName (raw : String) : (fieldName raw).MadeFor raw where
  legal := legal_fieldName raw
  eq_standingFor := by
    unfold fieldName escapeKeyword?
    by_cases hkeyword : raw ∈ keywords
    · simp [hkeyword, Identifier.standingFor]
    · simp [hkeyword, Identifier.standingFor]
  wordCharCount_le := by
    rw [fieldName_name]
    split
    · rw [wordCharCount_append]
      exact Nat.le_add_right _ _
    · rw [wordCharCount, ← countP_snakeCase]
      exact countP_le_legalise _ _ _

theorem madeFor_variantName (raw : String) : (variantName raw).MadeFor raw where
  legal := legal_variantName raw
  eq_standingFor := rfl
  wordCharCount_le := by
    rw [wordCharCount, ← countP_pascalCase]
    exact countP_le_legalise _ _ _

/-- An identifier told from names in use, with the name it was made for. -/
def Identifier.among (identifier : Identifier) (raw separator : String) (used : List String) :
    Identifier :=
  let name := uniqueName identifier.name used separator
  ⟨name, if name = identifier.name then identifier.rename else some raw⟩

/-- Telling an identifier from names in use keeps what it was made for: a number is only added
where the name it was made for is out of reach. -/
theorem Identifier.MadeFor.among {identifier : Identifier} {raw separator : String}
    (h : identifier.MadeFor raw) (hseparator : Trailing separator) (used : List String) :
    (identifier.among raw separator used).MadeFor raw := by
  rcases uniqueName_cases identifier.name used separator with
    ⟨-, heq⟩ | ⟨hused, n, -, heq, hfree, -⟩
  · have hsame : identifier.among raw separator used = identifier := by
      simp [Identifier.among, heq]
    rwa [hsame]
  · have hgrown : wordCharCount raw < wordCharCount (numbered identifier.name separator n) :=
      Nat.lt_of_le_of_lt h.wordCharCount_le (wordCharCount_lt_numbered _ _ _)
    refine ⟨legal_uniqueName h.legal hseparator used, ?_, ?_⟩
    · have hraw : numbered identifier.name separator n ≠ raw := by
        rintro rfl
        exact Nat.lt_irrefl _ hgrown
      have hname : numbered identifier.name separator n ≠ identifier.name := by
        intro hsame
        rw [hsame] at hfree
        exact hfree hused
      simp [Identifier.among, Identifier.standingFor, heq, hname, hraw]
    · rw [Identifier.among, heq]
      exact hgrown.le

end SchemaForge.Rust
