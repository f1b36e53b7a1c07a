/-! # Words of a name

Splits a name into the words that its spelling marks: by separators, by case and by digits. Only
ASCII letters and digits belong to words, every other character separates them.
-/

namespace SchemaForge.Text

/-- A capital letter `A` to `Z`. -/
def isCapital (c : Char) : Bool := 65 ≤ c.toNat && c.toNat ≤ 90

/-- A small letter `a` to `z`. -/
def isSmall (c : Char) : Bool := 97 ≤ c.toNat && c.toNat ≤ 122

/-- A digit `0` to `9`. -/
def isDigit (c : Char) : Bool := 48 ≤ c.toNat && c.toNat ≤ 57

/-- The small form of a capital letter, any other character as it is. -/
def toSmall (c : Char) : Char := if isCapital c then Char.ofNat (c.toNat + 32) else c

/-- The capital form of a small letter, any other character as it is. -/
def toCapital (c : Char) : Char := if isSmall c then Char.ofNat (c.toNat - 32) else c

/-- The length of an acronym in front of a capitalised word: of a run of capitals that a small
letter follows, all but the last. -/
def acronymLength (text : List Char) : Nat :=
  let n := (text.takeWhile isCapital).length
  match text.drop n with
  | c :: _ => if isSmall c then n - 1 else 0
  | [] => 0

/-- The length of a run of small letters, with one capital letter allowed in front. -/
def plainLength : List Char → Nat
  | [] => 0
  | c :: rest =>
    if isCapital c then
      match (rest.takeWhile isSmall).length with
      | 0 => 0
      | n + 1 => n + 2
    else ((c :: rest).takeWhile isSmall).length

/-- The length of a run of capitals. -/
def capitalsLength (text : List Char) : Nat := (text.takeWhile isCapital).length

/-- The length of a run of digits. -/
def digitsLength (text : List Char) : Nat := (text.takeWhile isDigit).length

/-- The length of the word at the front of a text, the kinds of word being tried in a fixed
order; zero when no word starts here. -/
def wordLength (text : List Char) : Nat :=
  (([acronymLength, plainLength, capitalsLength, digitsLength].map fun kind => kind text).find?
    fun n => n != 0).getD 0

/-- The words of a text in order. Where no word starts, one character is passed over. -/
def words : List Char → List (List Char)
  | [] => []
  | c :: rest =>
    match wordLength (c :: rest) with
    | 0 => words rest
    | n + 1 => (c :: rest.take n) :: words (rest.drop n)
  termination_by text => text.length
  decreasing_by all_goals simp only [List.length_cons, List.length_drop]; omega

/-- A word with a capital first letter and small letters after it. -/
def capitalise : List Char → List Char
  | [] => []
  | c :: rest => toCapital c :: rest.map toSmall

/-- The words of a text, capitalised and written together. -/
def pascalCase (text : List Char) : List Char :=
  ((words text).map capitalise).flatten

/-- The words of a text in small letters, joined by underscores. -/
def snakeCase (text : List Char) : List Char :=
  (((words text).map fun word => word.map toSmall).intersperse ['_']).flatten

end SchemaForge.Text
