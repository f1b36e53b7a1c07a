import SchemaForge.Json.Basic
import SchemaForge.Text.Words

/-! # Reading JSON text

Reads one value from a text and says where and why it cannot. Beyond the standard notation the
words `NaN`, `Infinity` and `-Infinity` are read as numbers. Every reader hands back what is left
of the text together with a proof that it is shorter, which is why reading ends. Half of a surrogate
pair is no character, so what it stands in has no value, and a text with one is refused once it is
found to have no fault.
-/

namespace SchemaForge.Json

open Number

/-- What can be wrong at a place of a JSON text. -/
inductive Fault where
  | byteOrderMark
  | valueExpected
  | nameExpected
  | colonExpected
  | commaExpected
  | extraData
  | textNotClosed
  | controlCharacter
  | unknownEscape
  | badCodePoint
deriving DecidableEq

/-- The wording of a fault. -/
def Fault.message : Fault → String
  | .byteOrderMark => "Unexpected UTF-8 BOM (decode using utf-8-sig)"
  | .valueExpected => "Expecting value"
  | .nameExpected => "Expecting property name enclosed in double quotes"
  | .colonExpected => "Expecting ':' delimiter"
  | .commaExpected => "Expecting ',' delimiter"
  | .extraData => "Extra data"
  | .textNotClosed => "Unterminated string starting at"
  | .controlCharacter => "Invalid control character at"
  | .unknownEscape => "Invalid \\escape"
  | .badCodePoint => "Invalid \\uXXXX escape"

/-- Why a text is not read: a fault at a place, an integer with more digits than are read, or half
of a surrogate pair. -/
inductive ReadError where
  | malformed (fault : Fault) (offset line column : Nat)
  | integerTooLong (digits : Nat)
  | loneSurrogate
deriving DecidableEq

namespace Reader

/-- A failure while reading; a place is told by how many characters are left from there on. -/
inductive Problem where
  | fault (fault : Fault) (left : Nat)
  | integerTooLong (digits : Nat)
  | loneSurrogate

/-- A part read from the front of a text, and what is left. The part has no value where half of a
surrogate pair stands in it. -/
structure Taken (α : Type) (text : List Char) where
  value : Option α
  rest : List Char
  shorter : rest.length < text.length

/-- The blanks between the parts of a JSON text. -/
def isSpace (c : Char) : Bool := c = ' ' || c = '\t' || c = '\n' || c = '\r'

/-- Passes over blanks. -/
def skipSpace (text : List Char) : List Char := text.dropWhile isSpace

theorem length_skipSpace (text : List Char) : (skipSpace text).length ≤ text.length :=
  (List.dropWhile_sublist _).length_le

/-- What follows a mark behind a value is shorter than the text the value was read from. -/
theorem Taken.length_lt_of_skipSpace {α : Type} {text after : List Char} {mark : Char}
    (taken : Taken α text) (h : skipSpace taken.rest = mark :: after) :
    after.length < text.length := by
  have space := length_skipSpace taken.rest
  simp only [h, List.length_cons] at space
  exact Nat.lt_of_succ_lt (Nat.lt_of_le_of_lt space taken.shorter)

/-- What follows a member of an object is shorter than the text its name was read from. -/
theorem length_lt_of_member {α β : Type} {rest afterColon after : List Char} {mark : Char}
    (name : Taken α rest) (value : Taken β (skipSpace afterColon))
    (hname : skipSpace name.rest = ':' :: afterColon)
    (hvalue : skipSpace value.rest = mark :: after) : after.length < rest.length :=
  Nat.lt_trans
    (Nat.lt_of_lt_of_le (value.length_lt_of_skipSpace hvalue) (length_skipSpace afterColon))
    (name.length_lt_of_skipSpace hname)

/-- The value of a hexadecimal digit. -/
def hexValue? (c : Char) : Option Nat :=
  if Text.isDigit c then some (c.toNat - 48)
  else if 97 ≤ c.toNat && c.toNat ≤ 102 then some (c.toNat - 87)
  else if 65 ≤ c.toNat && c.toNat ≤ 70 then some (c.toNat - 55)
  else none

/-- The code unit that four hexadecimal digits write. -/
def codeUnit? (a b c d : Char) : Option Nat := do
  return (((← hexValue? a) * 16 + (← hexValue? b)) * 16 + (← hexValue? c)) * 16 + (← hexValue? d)

/-- The character that two code units of a surrogate pair stand for. -/
def pairedChar (high low : Nat) : Char :=
  Char.ofNat (0x10000 + (high - 0xd800) * 0x400 + (low - 0xdc00))

/-- The character of a lone code unit; half of a surrogate pair is none. -/
def unitChar? (unit : Nat) : Option Char :=
  if 0xd800 ≤ unit ∧ unit ≤ 0xdfff then none else some (Char.ofNat unit)

/-- The character that a one-letter escape stands for. -/
def escaped? (c : Char) : Option Char :=
  if c = '\x22' ∨ c = '\\' ∨ c = '/' then some c
  else if c = 'b' then some '\x08'
  else if c = 'f' then some '\x0c'
  else if c = 'n' then some '\n'
  else if c = 'r' then some '\r'
  else if c = 't' then some '\t'
  else none

/-- Puts a character in front of a text that was read after it. -/
def Taken.push {text longer : List Char} (taken : Taken (List Char) text) (c? : Option Char)
    (h : text.length ≤ longer.length) : Taken (List Char) longer :=
  ⟨do return (← c?) :: (← taken.value), taken.rest, Nat.lt_of_lt_of_le taken.shorter h⟩

/-- Reads the characters of a text up to its closing mark. The text was opened where `opened`
characters were left. A code point escape is read only where a character follows it. -/
def readText (opened : Nat) (text : List Char) : Except Problem (Taken (List Char) text) :=
  match text with
  | [] => .error (.fault .textNotClosed opened)
  | '\x22' :: rest => .ok ⟨some [], rest, by simp⟩
  | '\\' :: 'u' :: a :: b :: c :: d :: e :: rest =>
    match codeUnit? a b c d with
    | none => .error (.fault .badCodePoint (rest.length + 6))
    | some unit =>
      if 0xd800 ≤ unit ∧ unit ≤ 0xdbff then
        match e, rest with
        | '\\', 'u' :: a' :: b' :: c' :: d' :: e' :: rest' =>
          match codeUnit? a' b' c' d' with
          | none => .error (.fault .badCodePoint (rest'.length + 6))
          | some low =>
            if 0xdc00 ≤ low ∧ low ≤ 0xdfff then
              (readText opened (e' :: rest')).map fun taken =>
                taken.push (some (pairedChar unit low)) (by simp +arith)
            else
              (readText opened ('\\' :: 'u' :: a' :: b' :: c' :: d' :: e' :: rest')).map fun taken =>
                taken.push (unitChar? unit) (by simp +arith)
        | e, rest =>
          (readText opened (e :: rest)).map fun taken =>
            taken.push (unitChar? unit) (by simp +arith)
      else
        (readText opened (e :: rest)).map fun taken => taken.push (unitChar? unit) (by simp +arith)
  | '\\' :: 'u' :: rest => .error (.fault .badCodePoint (rest.length + 1))
  | ['\\'] => .error (.fault .textNotClosed opened)
  | '\\' :: c :: rest =>
    match escaped? c with
    | none => .error (.fault .unknownEscape (rest.length + 2))
    | some meant => (readText opened rest).map fun taken => taken.push (some meant) (by simp +arith)
  | c :: rest =>
    if c.toNat ≤ 0x1f then .error (.fault .controlCharacter (rest.length + 1))
    else (readText opened rest).map fun taken => taken.push (some c) (by simp)
  termination_by text.length
  decreasing_by all_goals simp +arith

/-- Reads a point and the digits after it, where both are there. -/
def readFraction (text : List Char) : List Char × List Char :=
  match text with
  | '.' :: d :: rest =>
    if Text.isDigit d then (d :: rest.takeWhile Text.isDigit, rest.dropWhile Text.isDigit)
    else ([], '.' :: d :: rest)
  | _ => ([], text)

/-- The number that decimal digits write. -/
def digitsValue (digits : List Char) : Nat :=
  digits.foldl (fun n c => 10 * n + (c.toNat - 48)) 0

/-- Reads the digits of an exponent, where there are any. -/
def readExponentDigits (negative : Bool) (whole digits : List Char) : Option Int × List Char :=
  match digits.takeWhile Text.isDigit with
  | [] => (none, whole)
  | found =>
    let magnitude : Int := digitsValue found
    (some (if negative then -magnitude else magnitude), digits.dropWhile Text.isDigit)

/-- Reads an exponent, where one is complete. -/
def readExponent (text : List Char) : Option Int × List Char :=
  match text with
  | e :: rest =>
    if e = 'e' ∨ e = 'E' then
      match rest with
      | '-' :: digits => readExponentDigits true text digits
      | '+' :: digits => readExponentDigits false text digits
      | digits => readExponentDigits false text digits
    else (none, text)
  | [] => (none, text)

theorem length_readFraction (text : List Char) : (readFraction text).2.length ≤ text.length := by
  unfold readFraction
  split
  · split
    · have := (List.dropWhile_sublist Text.isDigit (l := ‹List Char›)).length_le
      simp only [List.length_cons]
      omega
    · simp
  · simp

theorem length_readExponentDigits (negative : Bool) (whole digits : List Char)
    (h : digits.length ≤ whole.length) :
    (readExponentDigits negative whole digits).2.length ≤ whole.length := by
  unfold readExponentDigits
  split
  · simp
  · exact Nat.le_trans (List.dropWhile_sublist _).length_le h

theorem length_readExponent (text : List Char) : (readExponent text).2.length ≤ text.length := by
  unfold readExponent
  split
  · split
    · split <;> exact length_readExponentDigits _ _ _ (by simp +arith)
    · simp
  · simp

/-- The digits in front of a numeral's point: a zero stands alone. -/
def readWhole (text : List Char) : List Char × List Char :=
  match text with
  | '0' :: rest => (['0'], rest)
  | _ => (text.takeWhile Text.isDigit, text.dropWhile Text.isDigit)

theorem length_readWhole {text : List Char} (h : (readWhole text).1 ≠ []) :
    (readWhole text).2.length < text.length := by
  have split := congrArg List.length (List.takeWhile_append_dropWhile (p := Text.isDigit)
    (l := text))
  unfold readWhole at h ⊢
  split at h
  · simp
  · have := List.length_pos_iff.2 h
    simp only [List.length_append] at split this ⊢
    omega

/-- The most digits that an integer may have. -/
def integerDigitsLimit : Nat := 4300

/-- Reads the part of a numeral after its sign. It is an integer unless it has a fraction or an
exponent. -/
def readUnsigned (negative : Bool) (text : List Char) :
    Option (Except Problem (Taken Json text)) :=
  if h : (readWhole text).1 = [] then none
  else
    let whole := readWhole text
    let fraction := readFraction whole.2
    let exponent := readExponent fraction.2
    have shorter : exponent.2.length < text.length :=
      Nat.lt_of_le_of_lt
        (Nat.le_trans (length_readExponent _) (length_readFraction _)) (length_readWhole h)
    match fraction.1, exponent.1 with
    | [], none =>
      if integerDigitsLimit < whole.1.length then
        some (.error (.integerTooLong whole.1.length))
      else
        let magnitude : Int := digitsValue whole.1
        some (.ok ⟨some (.int (if negative then -magnitude else magnitude)), exponent.2, shorter⟩)
    | places, power =>
      let digits := digitsValue (whole.1 ++ places)
      let value := Binary64.ofDecimal negative digits (power.getD 0 - places.length)
      some (.ok ⟨some (.float value), exponent.2, shorter⟩)

/-- Reads a word that is a value at the front of a text. -/
def readWord? (text : List Char) : Option (Taken Json text) :=
  match text with
  | 'n' :: 'u' :: 'l' :: 'l' :: rest => some ⟨some .null, rest, by simp +arith⟩
  | 't' :: 'r' :: 'u' :: 'e' :: rest => some ⟨some (.bool true), rest, by simp +arith⟩
  | 'f' :: 'a' :: 'l' :: 's' :: 'e' :: rest => some ⟨some (.bool false), rest, by simp +arith⟩
  | 'N' :: 'a' :: 'N' :: rest => some ⟨some (.float .nan), rest, by simp +arith⟩
  | 'I' :: 'n' :: 'f' :: 'i' :: 'n' :: 'i' :: 't' :: 'y' :: rest =>
    some ⟨some (.float (.infinite false)), rest, by simp +arith⟩
  | '-' :: 'I' :: 'n' :: 'f' :: 'i' :: 'n' :: 'i' :: 't' :: 'y' :: rest =>
    some ⟨some (.float (.infinite true)), rest, by simp +arith⟩
  | _ => none

/-- Reads a numeral at the front of a text. -/
def readNumeral? (text : List Char) : Option (Except Problem (Taken Json text)) :=
  match text with
  | '-' :: rest =>
    (readUnsigned true rest).map fun read => read.map fun taken =>
      ⟨taken.value, taken.rest, Nat.lt_succ_of_lt taken.shorter⟩
  | text => readUnsigned false text

/-- Reads a value that is neither a text nor a container. -/
def readScalar (text : List Char) : Except Problem (Taken Json text) :=
  match readWord? text with
  | some taken => .ok taken
  | none => (readNumeral? text).getD (.error (.fault .valueExpected text.length))

mutual

/-- Reads the value at the front of a text. -/
def readValue (text : List Char) : Except Problem (Taken Json text) :=
  match text with
  | '\x22' :: rest => do
    let taken ← readText (rest.length + 1) rest
    .ok ⟨taken.value.map fun text => .str (String.ofList text), taken.rest,
      Nat.lt_succ_of_lt taken.shorter⟩
  | '\x7b' :: rest =>
    have space := length_skipSpace rest
    match _h : skipSpace rest with
    | '\x7d' :: after => .ok ⟨some (.obj []), after, by simp [_h] at space; simp; omega⟩
    | _ => do
      let taken ← readMembers (skipSpace rest)
      .ok ⟨taken.value.map fun members => .obj (Entries.ofList members), taken.rest, by
        have := taken.shorter
        simp only [List.length_cons]
        omega⟩
  | '[' :: rest =>
    have space := length_skipSpace rest
    match _h : skipSpace rest with
    | ']' :: after => .ok ⟨some (.arr []), after, by simp [_h] at space; simp; omega⟩
    | _ => do
      let taken ← readItems (skipSpace rest)
      .ok ⟨taken.value.map .arr, taken.rest, by
        have := taken.shorter
        simp only [List.length_cons]
        omega⟩
  | text => readScalar text
  termination_by 2 * text.length
  decreasing_by all_goals simp only [List.length_cons]; omega

/-- Reads the items of a list up to its closing bracket. -/
def readItems (text : List Char) : Except Problem (Taken (List Json) text) := do
  let item ← readValue text
  have itemShorter := item.shorter
  have space := length_skipSpace item.rest
  match _h : skipSpace item.rest with
  | ']' :: after => .ok ⟨item.value.map fun item => [item], after, by simp [_h] at space; omega⟩
  | ',' :: next => do
    have spaceAfter := length_skipSpace next
    let more ← readItems (skipSpace next)
    .ok ⟨do return (← item.value) :: (← more.value), more.rest, by
      have := more.shorter
      simp [_h] at space
      omega⟩
  | other => .error (.fault .commaExpected other.length)
  termination_by 2 * text.length + 1
  decreasing_by
    · exact Nat.lt_succ_self _
    · simp only [_h, List.length_cons] at space
      omega

/-- Reads the members of an object up to its closing brace. -/
def readMembers (text : List Char) : Except Problem (Taken (List (String × Json)) text) :=
  match text with
  | '\x22' :: rest => do
    let name ← readText (rest.length + 1) rest
    match hname : skipSpace name.rest with
    | ':' :: afterColon => do
      let value ← readValue (skipSpace afterColon)
      let member := do return (String.ofList (← name.value), ← value.value)
      match hvalue : skipSpace value.rest with
      | '\x7d' :: after =>
        .ok ⟨member.map fun member => [member], after,
          Nat.lt_succ_of_lt (length_lt_of_member name value hname hvalue)⟩
      | ',' :: next => do
        let more ← readMembers (skipSpace next)
        .ok ⟨do return (← member) :: (← more.value), more.rest, Nat.lt_succ_of_lt (Nat.lt_trans
          (Nat.lt_of_lt_of_le more.shorter (length_skipSpace next))
          (length_lt_of_member name value hname hvalue))⟩
      | other => .error (.fault .commaExpected other.length)
    | other => .error (.fault .colonExpected other.length)
  | other => .error (.fault .nameExpected other.length)
  termination_by 2 * text.length + 1
  decreasing_by
    · have := name.length_lt_of_skipSpace hname
      have := length_skipSpace afterColon
      simp only [List.length_cons]
      omega
    · have := length_lt_of_member name value hname hvalue
      have := length_skipSpace next
      simp only [List.length_cons]
      omega

end

/-- The failure of a whole text: a place is told by its offset, and by its line and column, both
counted from one. -/
def Problem.within (text : List Char) : Problem → ReadError
  | .integerTooLong digits => .integerTooLong digits
  | .loneSurrogate => .loneSurrogate
  | .fault kind left =>
    let before := text.take (text.length - left)
    .malformed kind before.length (before.count '\n' + 1)
      ((before.reverse.takeWhile fun c => c ≠ '\n').length + 1)

/-- Reads a text that holds one value and nothing but blanks around it. -/
def readDocument (text : List Char) : Except Problem Json :=
  match text with
  | '\ufeff' :: _ => .error (.fault .byteOrderMark text.length)
  | _ => do
    let taken ← readValue (skipSpace text)
    match skipSpace taken.rest with
    | [] => taken.value.elim (.error .loneSurrogate) .ok
    | extra => .error (.fault .extraData extra.length)

end Reader

/-- The value that a text writes. -/
def read (text : String) : Except ReadError Json :=
  (Reader.readDocument text.toList).mapError (Reader.Problem.within text.toList)

end SchemaForge.Json
