import SchemaForge.Text.Wrap

/-! # Doc comments

Writes a description as doc comment lines. The line breaks of the description are kept, and each
of its lines is filled to the width that the comment mark leaves.
-/

namespace SchemaForge.Rust.DocComment

/-- The mark that opens every line of a doc comment. -/
def mark : List Char := ['/', '/', '/']

/-- The columns left for text in lines of the given width: four go to the mark and the space after
it, and no description is squeezed below twenty. -/
def textWidth (width : Int) : Nat := (max (width - 4) 20).toNat

/-- The comment lines of one line of a description; one without words is a bare mark. -/
def paragraph (width : Int) (text : List Char) : List (List Char) :=
  match Text.fill (textWidth width) text with
  | [] => [mark]
  | filled => filled.map fun line => mark ++ ' ' :: line

/-- The comment lines of a description. -/
def lines (width : Int) (description : List Char) : List (List Char) :=
  (Text.lines (Text.trim description)).flatMap (paragraph width)

/-- A description as a comment. -/
def write (width : Int) (description : String) : String :=
  String.ofList (Text.join ['\n'] (lines width description.toList))

end SchemaForge.Rust.DocComment
