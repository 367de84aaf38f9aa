/-! # Numbers

A number is a binary64 float. Its bits are a sign and a magnitude; every finite magnitude is a
whole number of units of 2^-1074, so exact questions about numbers are questions about integers.

## Implementation notes

Read as naturals, magnitudes are ordered like the values they stand for, and infinity has more
units than every finite number. `nearestMagnitude` is the rounding inverse of
`unitsOfMagnitude`. -/

namespace TableQuery

/-- A number of the query language. -/
abbrev Number := Float

namespace Number

/-- The weight of the sign bit. -/
def signBit : Nat := 0x8000000000000000

/-- The weight of the leading one of a significand, which is the first one that is not stored. -/
def leadingBit : Nat := 0x10000000000000

/-- The number of units in one. -/
def unitsPerOne : Nat := Nat.pow 2 1074

/-- The magnitude of infinity; the magnitudes above it are those of NaN. -/
def infiniteMagnitude : Nat := 0x7ff0000000000000

/-- The bits of a number without the sign bit. -/
def magnitude (x : Number) : Nat :=
  x.toBits.toNat % signBit

/-- Whether the sign bit is set. -/
def isNegative (x : Number) : Bool :=
  signBit ≤ x.toBits.toNat

/-- The number with the given sign and magnitude. -/
def ofMagnitude (negative : Bool) (magnitude : Nat) : Number :=
  Float.ofBits (UInt64.ofNat (if negative then signBit + magnitude else magnitude))

/-- Whether the bits stand for no number. -/
def isNan (x : Number) : Bool :=
  infiniteMagnitude < x.magnitude

/-- Whether the number is infinite, of either sign. -/
def isInfinite (x : Number) : Bool :=
  x.magnitude == infiniteMagnitude

/-- Positive infinity. -/
def infinity : Number := ofMagnitude false infiniteMagnitude

/-- Negative infinity. -/
def negativeInfinity : Number := ofMagnitude true infiniteMagnitude

/-- The number that is not a number. -/
def nan : Number := ofMagnitude false 0x7ff8000000000000

/-- The value of a finite magnitude in units of 2^-1074. Below 2^53 a magnitude counts units;
from there on its low 52 bits and a leading one are shifted by the exponent. -/
def unitsOfMagnitude (magnitude : Nat) : Nat :=
  if magnitude < leadingBit then magnitude
  else (leadingBit + magnitude % leadingBit) * Nat.pow 2 (magnitude / leadingBit - 1)

/-- The absolute value of a number in units of 2^-1074. -/
def units (x : Number) : Nat :=
  unitsOfMagnitude x.magnitude

/-- The value of a number in units of 2^-1074; both zeros have the value zero. -/
def value (x : Number) : Int :=
  if x.isNegative then -(x.units : Int) else x.units

/-- Whether the value of `x` is below that of `y`; never when one of them is NaN. -/
def less (x y : Number) : Bool :=
  !x.isNan && !y.isNan && x.value < y.value

/-- Whether the value of `x` is at most that of `y`; never when one of them is NaN. -/
def atMost (x y : Number) : Bool :=
  !x.isNan && !y.isNan && x.value ≤ y.value

/-- The quotient of two naturals rounded to the nearest natural, a half to the even one. -/
def divideToEven (n d : Nat) : Nat :=
  let quotient := n / d
  let excess := 2 * (n % d)
  if excess < d || (excess == d && quotient % 2 == 0) then quotient else quotient + 1

/-- The magnitude nearest to `n / d` units, a half to the even one. The quotient is rounded to
53 bits, or to whole units where it has fewer; a quotient beyond the largest finite magnitude
is infinite. -/
def nearestMagnitude (n d : Nat) : Nat :=
  let shift := (n / d).log2 - 52
  min (shift * leadingBit + divideToEven n (d * Nat.pow 2 shift)) infiniteMagnitude

/-- The number nearest to a natural number. -/
def ofNat (n : Nat) : Number :=
  ofMagnitude false (nearestMagnitude (n * unitsPerOne) 1)

/-- The place of a number in the total order of all bit patterns, negative zero just below zero. -/
def orderKey (x : Number) : Int :=
  if x.isNegative then -(x.magnitude : Int) - 1 else x.magnitude

/-- Compares two numbers by their place in the total order. -/
def totalCompare (x y : Number) : Ordering :=
  compare x.orderKey y.orderKey

/-- The number of whole ones in a number, counted towards zero; none in a negative number. -/
def wholePart (x : Number) : Nat :=
  if x.isNegative then 0 else x.units / unitsPerOne

/-- Whether a number is finite and has no fraction. -/
def isWhole (x : Number) : Bool :=
  x.magnitude < infiniteMagnitude && x.units % unitsPerOne == 0

/-- The remainder of the division of `x` by `y` towards zero, with the sign of `x`. It is exact. -/
def remainder (x y : Number) : Number :=
  if x.isNan || y.isNan || x.isInfinite || y.units == 0 then nan
  else if y.isInfinite then x
  else ofMagnitude x.isNegative (nearestMagnitude (x.units % y.units) 1)

end Number

end TableQuery
