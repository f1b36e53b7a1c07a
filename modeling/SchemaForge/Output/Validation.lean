import SchemaForge.Error
import SchemaForge.Rust.Literal
import SchemaForge.Text.Blank

/-! # Validation of generated code

A structural check before code is written: it must declare a type, and its braces must balance.
String literals are emptied first and line comments removed after that, so what they hold does not
count.
-/

namespace SchemaForge.Output

/-- Empties every string literal. A mark that opens no literal stays, and the search goes on right
after it. -/
def emptyLiterals : List Char → List Char
  | [] => []
  | c :: rest =>
    if c = '\x22' then
      match _h : Rust.Literal.afterClosing? rest with
      | some after => '\x22' :: '\x22' :: emptyLiterals after
      | none => c :: emptyLiterals rest
    else c :: emptyLiterals rest
  termination_by text => text.length
  decreasing_by
    · exact Nat.lt_succ_of_lt (Rust.Literal.length_afterClosing? _h)
    · simp
    · simp

/-- Removes line comments up to the ends of their lines; `inside` tells whether the text starts
within one. -/
def dropComments (inside : Bool) : List Char → List Char
  | [] => []
  | '\n' :: rest => '\n' :: dropComments false rest
  | '/' :: '/' :: rest => dropComments true rest
  | c :: rest => if inside then dropComments true rest else c :: dropComments false rest

/-- The part of a source text that counts for validation. -/
def bareCode (text : List Char) : List Char :=
  dropComments false (emptyLiterals text)

/-- The beginnings of declarations. -/
def declarationHeads : List (List Char) :=
  ["pub struct ", "pub enum ", "pub type "].map String.toList

/-- Refuses text without a declaration, and text whose braces do not balance. -/
def validate (text : String) : Except OutputFault Unit :=
  let code := bareCode text.toList
  let opened := code.count '\x7b'
  let closed := code.count '\x7d'
  if declarationHeads.all fun head => !Text.contains head code then .error .noDeclarations
  else if opened ≠ closed then .error (.unbalancedBraces opened closed)
  else .ok ()

end SchemaForge.Output
