/-! # Binary64 numbers

The numbers of the binary64 format as exact values: every finite one is a whole multiple of the
least positive one, `2 ^ -1074`, and is stored as that multiple. Comparing two of them, or one with
an integer, is then exact, and so is rounding a decimal to the nearest of them.
-/

namespace SchemaForge.Number

/-- A binary64 number. A finite one is `units * 2 ^ -1074` with a sign, which zero has too. -/
inductive Binary64 where
  | nan
  | infinite (negative : Bool)
  | finite (negative : Bool) (units : Nat)
deriving DecidableEq

namespace Binary64

/-- How many units make one. -/
def unitsPerOne : Nat := Nat.pow 2 1074

/-- The least power of two that is too large for a finite number, in units. -/
def unitsLimit : Nat := Nat.pow 2 2098

/-- The distance from a number to the next one up, in units: the significand has 53 bits. -/
def spacing (units : Nat) : Nat := Nat.pow 2 (units.log2 - 52)

/-- The quotient rounded to the nearest whole number, a half going to the even neighbour. -/
def roundDiv (n d : Nat) : Nat :=
  let q := n / d
  let r := n % d
  if 2 * r < d then q
  else if d < 2 * r then q + 1
  else if q % 2 = 0 then q else q + 1

/-- The binary64 number nearest to `n / d` units. -/
def ofUnits (negative : Bool) (n d : Nat) : Binary64 :=
  let step := spacing (n / d)
  let units := roundDiv n (d * step) * step
  if units < unitsLimit then .finite negative units else .infinite negative

/-- The binary64 number nearest to `digits * 10 ^ exponent`. Values beyond the range are infinite
and values too small to reach half a unit are zero; both are told by their magnitude before any
power of ten is formed. -/
def ofDecimal (negative : Bool) (digits : Nat) (exponent : Int) : Binary64 :=
  if digits = 0 then .finite negative 0
  else if 400 < exponent then .infinite negative
  else if exponent < -(digits.log2 + 400 : Int) then .finite negative 0
  else
    ofUnits negative (digits * unitsPerOne * Nat.pow 10 exponent.toNat)
      (Nat.pow 10 (-exponent).toNat)

/-- A finite number as a signed count of units. -/
def signedUnits (negative : Bool) (units : Nat) : Int :=
  if negative then -(units : Int) else units

/-- The greatest integer that is not above a number. An infinite number is taken beyond every
finite one, and there is none for a number that is not one. -/
def floor? : Binary64 → Option Int
  | .nan => none
  | .infinite negative =>
    let bound : Int := Nat.pow 2 1024
    some (if negative then -bound else bound)
  | .finite negative units => some (Int.fdiv (signedUnits negative units) unitsPerOne)

end Binary64

end SchemaForge.Number
