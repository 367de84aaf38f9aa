import TableQuery.Number.Binary

/-! # Decimals

A decimal is a natural times a power of ten. `Decimal.nearest` reads it as the nearest
magnitude; `Decimal.shortest` writes a magnitude with the fewest digits that read back.

## Implementation notes

`shortest` tests its candidates by reading them back. The exact expansion of the magnitude is
the candidate of last resort, so every answer reads back by construction. -/

namespace TableQuery.Number

/-- The number `digits * 10 ^ exponent`. -/
structure Decimal where
  /-- The digits as a natural number. -/
  digits : Nat
  /-- The power of ten of the last digit. -/
  exponent : Int
deriving DecidableEq, Repr

namespace Decimal

/-- The exponent from which on every decimal but zero is beyond all finite numbers. -/
def hugeExponent : Int := 400

/-- Whether the decimal lies so far below half a unit that it rounds to zero. Ten is more than
eight, so each power of ten takes three bits away. -/
def isTiny (x : Decimal) : Bool :=
  x.digits.log2 + 1 + 1100 ≤ 3 * (-x.exponent).toNat

/-- The magnitude nearest to the decimal, a half to the even one. -/
def nearest (x : Decimal) : Nat :=
  if x.digits = 0 || x.isTiny then 0
  else if hugeExponent ≤ x.exponent then infiniteMagnitude
  else
    nearestMagnitude (x.digits * Nat.pow 10 x.exponent.toNat * unitsPerOne)
      (Nat.pow 10 (-x.exponent).toNat)

/-- Drops the trailing zeros of `digits`, at most `count` of them. -/
def stripZeros : (count : Nat) → Decimal → Decimal
  | 0, x => x
  | count + 1, x =>
    if x.digits % 10 = 0 then stripZeros count ⟨x.digits / 10, x.exponent + 1⟩ else x

/-- The two neighbours of a magnitude among the multiples of `10 ^ exponent`, the nearer one
first; of two equally near ones the larger comes first. -/
def neighbours (magnitude : Nat) (exponent : Int) : List Decimal :=
  let n := unitsOfMagnitude magnitude * Nat.pow 10 (-exponent).toNat
  let d := unitsPerOne * Nat.pow 10 exponent.toNat
  let below := ⟨n / d, exponent⟩
  let above := ⟨n / d + 1, exponent⟩
  if d ≤ 2 * (n % d) then [above, below] else [below, above]

/-- The exact value of a magnitude: a unit is `5 ^ 1074 * 10 ^ -1074`. -/
def exact (magnitude : Nat) : Decimal :=
  ⟨unitsOfMagnitude magnitude * Nat.pow 5 1074, -1074⟩

/-- The number of digits before the point once a magnitude is multiplied by `10 ^ 324`, which
brings the smallest unit above one. -/
def shiftedLength (magnitude : Nat) : Nat :=
  (Nat.toDigits 10 (unitsOfMagnitude magnitude * Nat.pow 10 324 / unitsPerOne)).length

/-- The decimals tried in turn for a magnitude: its neighbours on the grids of one to seventeen
digits, then its exact value. -/
def candidates (magnitude : Nat) : List Decimal :=
  let length := shiftedLength magnitude
  (List.range' 1 17).flatMap
    (fun count : Nat => neighbours magnitude ((length : Int) - count - 324)) ++ [exact magnitude]

/-- The decimal with the fewest digits whose nearest magnitude is the given finite one. -/
def shortest (magnitude : Nat) : Decimal :=
  let chosen := ((candidates magnitude).find? (·.nearest == magnitude)).getD (exact magnitude)
  stripZeros 1074 chosen

end Decimal

end TableQuery.Number
