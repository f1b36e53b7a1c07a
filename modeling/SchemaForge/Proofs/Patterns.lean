import Mathlib.Data.List.Basic

/-! # Patterns of text

Patterns in the sense of a search that backtracks: alternatives are tried in their order, and a
repetition is as long as it can be before it gives anything back. A pattern is taken for the list of all
the ways to match it, the preferred one first, so a later part that fails falls back on the next way.
-/

namespace SchemaForge.Text

/-- A pattern of text. -/
inductive Pattern where
  /-- One character of a class. -/
  | one (accepts : Char → Bool)
  /-- The empty text. -/
  | nothing
  | sequence (first next : Pattern)
  /-- Either pattern, preferably the first. -/
  | choice (first other : Pattern)
  /-- The pattern any number of times, preferably often. -/
  | many (repeated : Pattern)
  /-- The empty text in front of a match. -/
  | ahead (following : Pattern)

namespace Pattern

/-- What is left of a text after each way to repeat a step, the longest repetitions first. A step that
takes nothing is not repeated. -/
def repetitions (step : List Char → List (List Char)) (text : List Char) : List (List Char) :=
  (((step text).filter fun rest => rest.length < text.length).attach.flatMap fun rest =>
    repetitions step rest.1) ++ [text]
  termination_by text.length
  decreasing_by simpa using (List.mem_filter.mp rest.2).2

/-- What is left of a text after each way to match its front, in the order of preference. -/
def rests : Pattern → List Char → List (List Char)
  | one _, [] => []
  | one accepts, c :: rest => if accepts c then [rest] else []
  | nothing, text => [text]
  | sequence first next, text => (rests first text).flatMap (rests next)
  | choice first other, text => rests first text ++ rests other text
  | many repeated, text => repetitions (rests repeated) text
  | ahead following, text => if (rests following text).isEmpty then [] else [text]

/-- What is left after the preferred match. -/
def rest? (pattern : Pattern) (text : List Char) : Option (List Char) :=
  (rests pattern text).head?

/-- The pattern once, or preferably often. -/
def atLeastOnce (pattern : Pattern) : Pattern := sequence pattern (many pattern)

/-- The pattern, or else the empty text. -/
def optional (pattern : Pattern) : Pattern := choice pattern nothing

/-- The matches in a text from left to right, none of which overlap. Where nothing is taken, one character
is passed over. -/
def findAll (pattern : Pattern) : List Char → List (List Char)
  | [] => []
  | c :: rest =>
    match pattern.rest? (c :: rest) with
    | none => findAll pattern rest
    | some after =>
      if after.length ≤ rest.length then
        (c :: rest).take (rest.length + 1 - after.length) :: findAll pattern after
      else findAll pattern rest
  termination_by text => text.length
  decreasing_by all_goals simp only [List.length_cons]; omega

/-- Every match of the pattern takes a part of the text. -/
def Consumes (pattern : Pattern) : Prop :=
  ∀ text, ∀ rest ∈ rests pattern text, rest.length < text.length

variable {pattern first next other : Pattern}

@[simp] theorem rests_one_nil (accepts : Char → Bool) : rests (one accepts) [] = [] := rfl

@[simp] theorem rests_one_cons (accepts : Char → Bool) (c : Char) (rest : List Char) :
    rests (one accepts) (c :: rest) = if accepts c then [rest] else [] := rfl

@[simp] theorem rests_nothing (text : List Char) : rests nothing text = [text] := rfl

@[simp] theorem rests_sequence (first next : Pattern) (text : List Char) :
    rests (sequence first next) text = (rests first text).flatMap (rests next) := rfl

@[simp] theorem rests_choice (first other : Pattern) (text : List Char) :
    rests (choice first other) text = rests first text ++ rests other text := rfl

@[simp] theorem rests_ahead (following : Pattern) (text : List Char) :
    rests (ahead following) text = if (rests following text).isEmpty then [] else [text] := rfl

theorem consumes_one (accepts : Char → Bool) : (one accepts).Consumes := by
  intro text rest hrest
  cases text with
  | nil => exact absurd hrest List.not_mem_nil
  | cons c more =>
    rw [rests] at hrest
    split at hrest
    · rw [List.mem_singleton.mp hrest, List.length_cons]
      exact Nat.lt_succ_self _
    · exact absurd hrest List.not_mem_nil

theorem Consumes.sequence (hfirst : first.Consumes) (hnext : next.Consumes) :
    (sequence first next).Consumes := by
  intro text rest hrest
  obtain ⟨middle, hmiddle, hmem⟩ := List.mem_flatMap.mp hrest
  exact Nat.lt_trans (hnext middle rest hmem) (hfirst text middle hmiddle)

theorem Consumes.choice (hfirst : first.Consumes) (hother : other.Consumes) :
    (choice first other).Consumes := by
  intro text rest hrest
  exact (List.mem_append.mp hrest).elim (hfirst text rest) (hother text rest)

/-- A repetition goes on once more, or it is over. -/
theorem rests_many (h : pattern.Consumes) (text : List Char) :
    rests (many pattern) text = (rests pattern text).flatMap (rests (many pattern)) ++ [text] := by
  have hall : ((rests pattern text).filter fun rest => rest.length < text.length)
      = rests pattern text := by
    rw [List.filter_eq_self]
    intro rest hrest
    simpa using h text rest hrest
  show repetitions (rests pattern) text
    = (rests pattern text).flatMap (repetitions (rests pattern)) ++ [text]
  rw [repetitions, hall]
  congr 1
  rw [List.flatMap_subtype fun _ _ => rfl, List.unattach_attach]

/-- What follows a repetition is tried after another round first. -/
theorem rests_sequence_many (h : pattern.Consumes) (next : Pattern) (text : List Char) :
    rests (sequence (many pattern) next) text
      = (rests pattern text).flatMap (rests (sequence (many pattern) next)) ++ rests next text := by
  show (rests (many pattern) text).flatMap (rests next) = _
  rw [rests_many h, List.flatMap_append, List.flatMap_assoc, List.flatMap_singleton]
  rfl

end Pattern

end SchemaForge.Text
