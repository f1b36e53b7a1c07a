import SchemaForge.Text.Blank

/-! # Filling paragraphs

Breaks a paragraph into lines of a given width at its ASCII blanks. Words are never broken, so a
line is wider than asked only when it is a single word; blanks survive inside a line and at the
front of the paragraph, and are dropped where a line breaks.
-/

namespace SchemaForge.Text

/-- Replaces each tab by spaces up to the next multiple of eight columns. -/
def expandTabs (column : Nat) : List Char → List Char
  | [] => []
  | c :: rest =>
    if c = '\t' then
      let width := 8 - column % 8
      List.replicate width ' ' ++ expandTabs (column + width) rest
    else c :: expandTabs (column + 1) rest

/-- Writes every ASCII blank as spaces. -/
def spaceOut (paragraph : List Char) : List Char :=
  (expandTabs 0 paragraph).map fun c => if isAsciiBlank c then ' ' else c

/-- Cuts a paragraph into its maximal runs of ASCII blanks and of other characters. -/
def runs (paragraph : List Char) : List (List Char) :=
  paragraph.splitBy fun a b => isAsciiBlank a == isAsciiBlank b

/-- The leading runs that fit side by side into the room left, and the runs after them. -/
def takeFitting (room : Nat) : List (List Char) → List (List Char) × List (List Char)
  | [] => ([], [])
  | run :: rest =>
    if run.length ≤ room then
      let (fitting, left) := takeFitting (room - run.length) rest
      (run :: fitting, left)
    else ([], run :: rest)

/-- A run of nothing but blanks, of any kind. -/
def isBlankRun (run : List Char) : Bool :=
  run.all isBlank

/-- Drops the last run of a line when it is blank. -/
def dropTrailingBlank (line : List (List Char)) : List (List Char) :=
  match line.getLast? with
  | some run => if isBlankRun run then line.dropLast else line
  | none => line

/-- What is left after fitting is no longer than what there was. -/
theorem length_takeFitting_snd (room : Nat) (pieces : List (List Char)) :
    (takeFitting room pieces).2.length ≤ pieces.length := by
  induction pieces generalizing room with
  | nil => simp [takeFitting]
  | cons run rest ih =>
    by_cases h : run.length ≤ room
    · simp only [takeFitting, h, if_true, List.length_cons]
      exact Nat.le_succ_of_le (ih _)
    · simp [takeFitting, h]

/-- The runs that the next line starts with: once a line has been written, a blank run in front
is dropped. -/
def openLine (started : Bool) : List (List Char) → List (List Char)
  | [] => []
  | run :: rest => if started && isBlankRun run then rest else run :: rest

/-- Opening a line adds no run. -/
theorem length_openLine (started : Bool) (pieces : List (List Char)) :
    (openLine started pieces).length ≤ pieces.length := by
  cases pieces with
  | nil => simp [openLine]
  | cons run rest => simp only [openLine]; split <;> simp

/-- Lays the runs out in lines. The first run of a line is taken however wide it is, and
`started` tells whether a line has been written, since only the first line may open with
blanks. -/
def fillFrom (width : Nat) (started : Bool) (pieces : List (List Char)) : List (List Char) :=
  match _h : openLine started pieces with
  | [] => []
  | run :: rest =>
    let taken := takeFitting (width - run.length) rest
    let line := dropTrailingBlank (run :: taken.1)
    if line.isEmpty then fillFrom width started taken.2
    else line.flatten :: fillFrom width true taken.2
  termination_by pieces.length
  decreasing_by
    all_goals
      have opened := length_openLine started pieces
      have left := length_takeFitting_snd (width - run.length) rest
      rw [_h, List.length_cons] at opened
      omega

/-- The lines of a paragraph filled to the given width. -/
def fill (width : Nat) (paragraph : List Char) : List (List Char) :=
  fillFrom width false (runs (spaceOut paragraph))

end SchemaForge.Text
