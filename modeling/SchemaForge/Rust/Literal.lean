/-! # String literals

Writes a text as a Rust string literal. Six characters are escaped, among them the two that have a
meaning inside a literal and the two that would break its line.
-/

namespace SchemaForge.Rust.Literal

/-- The letter of the escape for a character that is escaped. -/
def escapeLetter? (c : Char) : Option Char :=
  if c = '\\' then some '\\'
  else if c = '\x22' then some '\x22'
  else if c = '\n' then some 'n'
  else if c = '\r' then some 'r'
  else if c = '\t' then some 't'
  else if c = '\x00' then some '0'
  else none

/-- A character inside a literal. -/
def escapeChar (c : Char) : List Char :=
  match escapeLetter? c with
  | some letter => ['\\', letter]
  | none => [c]

/-- A text as a literal. -/
def encode (text : List Char) : List Char :=
  '\x22' :: text.flatMap escapeChar ++ ['\x22']

/-- What follows the literal whose opening mark was just passed: a backslash takes the next
character with it unless that is a line feed, and the literal ends at the next mark. -/
def afterClosing? : List Char → Option (List Char)
  | [] => none
  | '\x22' :: rest => some rest
  | ['\\'] => none
  | '\\' :: c :: rest => if c = '\n' then none else afterClosing? rest
  | _ :: rest => afterClosing? rest

/-- What follows a literal is shorter than the literal with it. -/
theorem length_afterClosing? {text after : List Char} (h : afterClosing? text = some after) :
    after.length < text.length := by
  fun_induction afterClosing? text with
  | case1 => simp at h
  | case2 rest =>
    obtain rfl := Option.some.inj h
    simp
  | case3 => simp at h
  | case4 rest => simp at h
  | case5 c rest _ ih =>
    have := ih h
    simp only [List.length_cons]
    omega
  | case6 c rest _ _ _ ih =>
    have := ih h
    simp only [List.length_cons]
    omega

end SchemaForge.Rust.Literal
