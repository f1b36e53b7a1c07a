import SchemaForge.Text.Words

/-! # Control sequences

A terminal takes an escape character, an opening bracket, parameters and a letter for a command.
Text that is printed for other readers goes without such sequences, and an escape character that
starts none stays.
-/

namespace SchemaForge.Text

/-- The characters that parameters are made of. -/
def isParameter (c : Char) : Bool := isDigit c || c = ';' || c = '?'

/-- What follows a control sequence, given the text behind its opening bracket. -/
def afterSequence? (text : List Char) : Option (List Char) :=
  match text.dropWhile isParameter with
  | [] => none
  | c :: rest => if isCapital c || isSmall c then some rest else none

/-- What follows a control sequence is shorter than the text behind its opening bracket. -/
theorem length_afterSequence? {text after : List Char} (h : afterSequence? text = some after) :
    after.length < text.length := by
  have whole := (List.dropWhile_sublist isParameter (l := text)).length_le
  unfold afterSequence? at h
  split at h
  · cases h
  · rename_i c rest found
    rw [found, List.length_cons] at whole
    split at h
    · cases h
      exact whole
    · cases h

/-- A text without its control sequences. -/
def dropSequences (text : List Char) : List Char :=
  match text with
  | [] => []
  | '\x1b' :: '[' :: rest =>
    match _h : afterSequence? rest with
    | some after => dropSequences after
    | none => '\x1b' :: '[' :: dropSequences rest
  | c :: rest => c :: dropSequences rest
  termination_by text.length
  decreasing_by
    · have := length_afterSequence? _h
      simp only [List.length_cons]
      omega
    · simp only [List.length_cons]
      omega
    · simp

end SchemaForge.Text
