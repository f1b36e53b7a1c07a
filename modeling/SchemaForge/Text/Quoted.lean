import SchemaForge.Text.Printable

/-! # Quoted text

The form in which messages quote a text: between single quotes, or between double quotes when
that saves escaping a single quote.
-/

namespace SchemaForge.Text

/-- The last `width` hexadecimal digits of a number, small letters, the highest first. -/
def hexDigits (width n : Nat) : List Char :=
  (List.range width).reverse.map fun place => Nat.digitChar (n / Nat.pow 16 place % 16)

/-- An unprintable character as the shortest of the three escapes that holds its code point. -/
def escapeCodePoint (c : Char) : List Char :=
  let n := c.toNat
  if n < 0x100 then '\\' :: 'x' :: hexDigits 2 n
  else if n < 0x10000 then '\\' :: 'u' :: hexDigits 4 n
  else '\\' :: 'U' :: hexDigits 8 n

/-- A character inside quotes. -/
def quoteChar (mark c : Char) : List Char :=
  if c = mark ∨ c = '\\' then ['\\', c]
  else if c = '\t' then ['\\', 't']
  else if c = '\n' then ['\\', 'n']
  else if c = '\r' then ['\\', 'r']
  else if isPrintable c then [c]
  else escapeCodePoint c

/-- The quotation mark for a text: double when the text holds single marks and no double one. -/
def quoteMark (text : List Char) : Char :=
  if '\x27' ∈ text ∧ '\x22' ∉ text then '\x22' else '\x27'

/-- A text in quotes. -/
def quote (text : String) : String :=
  let mark := quoteMark text.toList
  String.ofList (mark :: text.toList.flatMap (quoteChar mark) ++ [mark])

example : quote "it's" = "\"it's\"" := by decide +kernel
example : quote "a\u200b\x7f" = "'a\\u200b\\x7f'" := by decide +kernel

end SchemaForge.Text
