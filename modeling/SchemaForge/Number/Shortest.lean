import SchemaForge.Number.Binary64

/-! # Shortest decimal text

Writes a binary64 number with the fewest decimal digits that read back as the same number. Among
those the digits nearest to the exact value are chosen, a tie going to the even last digit.
-/

namespace SchemaForge.Number

/-- Decimal digits with the place of their point: the value `0.d₁d₂… * 10 ^ point`. -/
structure Decimal where
  digits : List Char
  point : Int
deriving DecidableEq

namespace Binary64

/-- The exact value of a number is `quarters units / quartersPerOne`; counting in quarters makes
the midpoints between neighbours whole. -/
def quarters (units : Nat) : Nat := 4 * units

/-- How many quarter units make one. -/
def quartersPerOne : Nat := 4 * unitsPerOne

/-- The reach of a number upwards, in quarter units: half the spacing. -/
def reachUp (units : Nat) : Nat := 2 * spacing units

/-- The reach of a number downwards, in quarter units: half as far where the spacing halves. -/
def reachDown (units : Nat) : Nat :=
  if units = Nat.pow 2 units.log2 ∧ 1 < spacing units then spacing units else 2 * spacing units

/-- Tells whether `n / d` quarter units read back as the given number. The ends of the interval
belong to it when the significand is even. -/
def readsBack (units n d : Nat) : Bool :=
  let low := (quarters units - reachDown units) * d
  let high := (quarters units + reachUp units) * d
  if units / spacing units % 2 = 0 then low ≤ n && n ≤ high else low < n && n < high

/-- The multiple of `10 ^ place` that reads back as the given number and is nearest to it, if one
of the two around its value does. -/
def onGrid? (units : Nat) (place : Int) : Option Nat :=
  let up := Nat.pow 10 place.toNat
  let down := Nat.pow 10 (-place).toNat
  let value := quarters units * down
  let step := quartersPerOne * up
  let below := value / step
  let fits := fun count => readsBack units (count * step) down
  match fits below, fits (below + 1) with
  | false, false => none
  | true, false => some below
  | false, true => some (below + 1)
  | true, true => some (roundDiv value step)

/-- The place of the first digit of a positive number: the greatest `e` with `10 ^ e` not above
it. -/
def leadingPlace (units : Nat) : Int :=
  (Nat.toDigits 10 (quarters units * Nat.pow 10 400 / quartersPerOne)).length - 401

/-- The shortest decimal of a positive number; seventeen digits always suffice. -/
def shortest (units : Nat) : Decimal :=
  let lead := leadingPlace units
  let tryDigits := fun n : Nat => (onGrid? units (lead - n)).map fun count => (count, lead - n)
  let (count, place) := ((List.range 17).findSome? tryDigits).getD (0, 0)
  let digits := Nat.toDigits 10 count
  ⟨(digits.reverse.dropWhile (· = '0')).reverse, digits.length + place⟩

end Binary64

/-- The choices that turn a decimal into text. -/
structure DecimalFormat where
  /-- A point at most this far to the left of the first digit is written in place. -/
  leastPoint : Int
  /-- A point at most this far to the right of the first digit is written in place. -/
  greatestPoint : Int
  /-- The least number of digits of an exponent. -/
  exponentWidth : Nat

namespace DecimalFormat

/-- A decimal without an exponent, with at least one digit on each side of the point. -/
def positional (decimal : Decimal) : List Char :=
  let digits := decimal.digits
  if decimal.point ≤ 0 then
    '0' :: '.' :: List.replicate (-decimal.point).toNat '0' ++ digits
  else
    let whole := decimal.point.toNat
    if digits.length ≤ whole then
      digits ++ List.replicate (whole - digits.length) '0' ++ ['.', '0']
    else digits.take whole ++ '.' :: digits.drop whole

/-- A decimal with one digit before the point and an exponent; a lone digit has no point. -/
def scientific (format : DecimalFormat) (decimal : Decimal) : List Char :=
  let exponent := decimal.point - 1
  let magnitude := Nat.toDigits 10 exponent.natAbs
  let padding := List.replicate (format.exponentWidth - magnitude.length) '0'
  let significand := match decimal.digits with
    | [] => []
    | [d] => [d]
    | d :: rest => d :: '.' :: rest
  significand ++ 'e' :: (if exponent < 0 then '-' else '+') :: padding ++ magnitude

/-- A decimal in whichever of the two notations the place of its point asks for. -/
def write (format : DecimalFormat) (decimal : Decimal) : List Char :=
  if format.leastPoint ≤ decimal.point ∧ decimal.point ≤ format.greatestPoint then
    positional decimal
  else format.scientific decimal

end DecimalFormat

namespace Binary64

/-- Numbers in messages keep the point in place from `0.0001` up to sixteen whole digits and write
exponents with two digits or more. -/
def messageFormat : DecimalFormat := ⟨-3, 16, 2⟩

/-- The text of a number in messages. -/
def text (number : Binary64) : String :=
  match number with
  | .nan => "nan"
  | .infinite negative => if negative then "-inf" else "inf"
  | .finite negative units =>
    let digits := if units = 0 then ['0', '.', '0'] else messageFormat.write (shortest units)
    String.ofList (if negative then '-' :: digits else digits)

end Binary64

end SchemaForge.Number
