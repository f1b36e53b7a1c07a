import Mathlib.Order.Interval.Finset.Nat
import Mathlib.Order.Bounds.Basic
import SchemaForge.Proofs.Identifiers

/-! # Numbered names

A name in use is told from the names in use by a number, counted up from two until it frees the name.
The count is over before every used name has been met, since each number that is passed over stands
for a used name of its own, and the name without a number is used as well. Names told from each other
one after another are distinct, whatever they look like and whatever stands before their numbers.
-/

namespace SchemaForge.Rust

section Counting

variable {name separator : String} {used : List String}

/-- Counting from a number on while the numbered name is in use: the number to start with, how often
it is raised, and the number that is left. -/
inductive CountsUp (name separator : String) (used : List String) : Nat → Nat → Nat → Prop
  | free {n : Nat} (h : numbered name separator n ∉ used) : CountsUp name separator used n 0 n
  | taken {n raised last : Nat} (h : numbered name separator n ∈ used)
      (rest : CountsUp name separator used (n + 1) raised last) :
      CountsUp name separator used n (raised + 1) last

/-- A count ends at the first number that frees the name. -/
theorem CountsUp.passed {n raised last : Nat} (h : CountsUp name separator used n raised last) :
    last = n + raised ∧ numbered name separator last ∉ used ∧
      ∀ m, n ≤ m → m < last → numbered name separator m ∈ used := by
  induction h with
  | free hfree => exact ⟨rfl, hfree, fun m hle hlt => absurd hle (Nat.not_le_of_lt hlt)⟩
  | @taken n raised last hused rest ih =>
    obtain ⟨hlast, hfree, hbetween⟩ := ih
    refine ⟨by omega, hfree, fun m hle hlt => ?_⟩
    rcases Nat.eq_or_lt_of_le hle with rfl | hlater
    · exact hused
    · exact hbetween m hlater hlt

theorem countsUp_of_passed {n raised : Nat} (hfree : numbered name separator (n + raised) ∉ used)
    (hused : ∀ m, n ≤ m → m < n + raised → numbered name separator m ∈ used) :
    CountsUp name separator used n raised (n + raised) := by
  induction raised generalizing n with
  | zero => exact .free hfree
  | succ raised ih =>
    have hshift : n + (raised + 1) = n + 1 + raised := by omega
    rw [hshift] at hfree hused ⊢
    exact .taken (hused n le_rfl (by omega)) (ih hfree fun m hle hlt => hused m (by omega) hlt)

/-- The numbers passed over stand for used names, all different and different from the name, which is
used as well. -/
theorem CountsUp.raised_lt_card {n raised last : Nat}
    (h : CountsUp name separator used n raised last) (hused : name ∈ used) :
    raised < used.toFinset.card := by
  obtain ⟨rfl, -, hbetween⟩ := h.passed
  have hsubset : insert name ((Finset.Ico n (n + raised)).image (numbered name separator))
      ⊆ used.toFinset := by
    intro taken htaken
    rw [List.mem_toFinset]
    rcases Finset.mem_insert.mp htaken with rfl | himage
    · exact hused
    · obtain ⟨m, hm, rfl⟩ := Finset.mem_image.mp himage
      obtain ⟨hle, hlt⟩ := Finset.mem_Ico.mp hm
      exact hbetween m hle hlt
  have hself : name ∉ (Finset.Ico n (n + raised)).image (numbered name separator) := by
    intro himage
    obtain ⟨m, -, hm⟩ := Finset.mem_image.mp himage
    have hgrown := wordCharCount_lt_numbered name separator m
    rw [hm] at hgrown
    exact Nat.lt_irrefl _ hgrown
  have hcard := Finset.card_le_card hsubset
  rw [Finset.card_insert_of_notMem hself,
    Finset.card_image_of_injective _ (numbered_injective name separator), Nat.card_Ico] at hcard
  omega

/-- A name in use gets the number that counting from two on leaves. -/
theorem exists_countsUp_uniqueName (separator : String) (hused : name ∈ used) :
    ∃ raised last, CountsUp name separator used 2 raised last ∧
      uniqueName name used separator = numbered name separator last := by
  rcases uniqueName_cases name used separator with ⟨hfree, -⟩ | ⟨-, last, hle, heq, hfree, hbefore⟩
  · exact absurd hused hfree
  · obtain ⟨raised, rfl⟩ := Nat.exists_eq_add_of_le hle
    exact ⟨raised, 2 + raised, countsUp_of_passed hfree hbefore, heq⟩

end Counting

/-! ## Names told one after another -/

/-- Names in order, each told from the names in use and from those given before it. -/
def uniqueNames (separator : String) (used : List String) : List String → List String
  | [] => []
  | name :: rest =>
    let given := uniqueName name used separator
    given :: uniqueNames separator (used ++ [given]) rest

theorem not_mem_of_mem_uniqueNames {separator : String} {used names : List String} {given : String}
    (h : given ∈ uniqueNames separator used names) : given ∉ used := by
  induction names generalizing used with
  | nil => exact absurd h List.not_mem_nil
  | cons name rest ih =>
    rcases List.mem_cons.mp h with rfl | hrest
    · exact uniqueName_not_mem _ _ _
    · exact fun hused => ih hrest (List.mem_append_left _ hused)

theorem nodup_uniqueNames (separator : String) (used names : List String) :
    (uniqueNames separator used names).Nodup := by
  induction names generalizing used with
  | nil => exact List.nodup_nil
  | cons name rest ih =>
    refine List.nodup_cons.mpr ⟨fun hmem => ?_, ih _⟩
    -- names that come later avoid the ones given by then
    exact not_mem_of_mem_uniqueNames hmem (List.mem_append_right _ (List.mem_singleton_self _))

/-- A free name is kept. A name in use is followed by the least number from two on that frees it,
which is reached by fewer steps than there are used names. The result is never in use, so names told
one after another are distinct and none of them was in use to begin with. -/
theorem uniqueName_isLeast (name separator : String) (used : List String) :
    (name ∉ used → uniqueName name used separator = name) ∧
      (name ∈ used → ∃ raised last, CountsUp name separator used 2 raised last ∧
        raised < used.toFinset.card ∧
        IsLeast {n | 2 ≤ n ∧ numbered name separator n ∉ used} last ∧
        uniqueName name used separator = numbered name separator last) ∧
      uniqueName name used separator ∉ used ∧
      ∀ names, (uniqueNames separator used names).Nodup ∧
        ∀ given ∈ uniqueNames separator used names, given ∉ used := by
  refine ⟨fun hfree => if_neg hfree, fun hused => ?_, uniqueName_not_mem name used separator,
    fun names => ⟨nodup_uniqueNames separator used names, fun _ => not_mem_of_mem_uniqueNames⟩⟩
  obtain ⟨raised, last, hcount, heq⟩ := exists_countsUp_uniqueName separator hused
  obtain ⟨hlast, hfree, hbefore⟩ := hcount.passed
  refine ⟨raised, last, hcount, hcount.raised_lt_card hused, ⟨⟨by omega, hfree⟩, ?_⟩, heq⟩
  rintro m ⟨hle, hmfree⟩
  by_contra hlt
  exact hmfree (hbefore m hle (Nat.lt_of_not_le hlt))

/-- Without a separator a number may look like a part of another name. -/
example : uniqueNames "" [] ["A", "A", "A2", "A"] = ["A", "A2", "A22", "A3"] := by decide

end SchemaForge.Rust
