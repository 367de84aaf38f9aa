import TableQuery.Number.Decimal
import TableQuery.Text.Blank

/-! # Numbers as text

`text` writes a number and `ofText` reads one; white space around a numeral does not count.

A finite number is written with the fewest digits that read back: positional from 10^-6 to below
10^21, otherwise one digit, the fraction and an exponent with its sign. A numeral is a decimal
with an optional fraction and exponent, or an unsigned integer in base sixteen, eight or two
after `0x`, `0o` or `0b`. Blank text is zero, and text that is no numeral is NaN. -/

namespace TableQuery.Number

section Writing

/-- The digits with the point after the first `place` of them, zeros filled in where needed. -/
def positional (digits : List Char) (place : Int) : List Char :=
  if place ≤ 0 then '0' :: '.' :: List.replicate (-place).toNat '0' ++ digits
  else if digits.length ≤ place.toNat then
    digits ++ List.replicate (place.toNat - digits.length) '0'
  else digits.take place.toNat ++ '.' :: digits.drop place.toNat

/-- The digits with the point after the first one, and the power of ten that makes up for it. -/
def scientific (digits : List Char) (power : Int) : List Char :=
  let fraction := match digits.drop 1 with
    | [] => []
    | rest => '.' :: rest
  digits.take 1 ++ fraction ++ 'e' :: (if power < 0 then '-' else '+')
    :: Nat.toDigits 10 power.natAbs

/-- The text of a decimal. -/
def Decimal.text (x : Decimal) : List Char :=
  let digits := Nat.toDigits 10 x.digits
  let place := digits.length + x.exponent
  if -5 ≤ place && place ≤ 21 then positional digits place else scientific digits (place - 1)

/-- The text of a number. Both zeros are written `0`. -/
def text (x : Number) : String :=
  if x.isNan then "NaN"
  else if x.isInfinite then if x.isNegative then "-Infinity" else "Infinity"
  else if x.magnitude = 0 then "0"
  else
    let digits := (Decimal.shortest x.magnitude).text
    String.ofList (if x.isNegative then '-' :: digits else digits)

end Writing

section Reading

/-- The value of a digit in a base up to thirty-six, letters of either case counting on from ten. -/
def digitValue? (base : Nat) (c : Char) : Option Nat :=
  let value? :=
    if c.isDigit then some (c.toNat - 48)
    else if c.isLower then some (c.toNat - 87)
    else if c.isUpper then some (c.toNat - 55)
    else none
  value?.filter (· < base)

/-- Reads digits of a base, rounding to the nearest number after each digit. -/
def ofDigits (base : Nat) (digits : List Char) : Number :=
  let step (magnitude : Nat) (c : Char) : Option Nat :=
    (digitValue? base c).map fun digit =>
      nearestMagnitude (unitsOfMagnitude magnitude * base + digit * unitsPerOne) 1
  match digits.foldlM step 0 with
  | some magnitude => ofMagnitude false magnitude
  | none => nan

/-- The base named by the letter after a leading zero. -/
def base? (letter : Char) : Option Nat :=
  match letter.toLower with
  | 'x' => some 16
  | 'o' => some 8
  | 'b' => some 2
  | _ => none

/-- Reads an unsigned integer after the mark of its base; `none` where there is no such mark. -/
def ofPrefixed? : List Char → Option Number
  | '0' :: letter :: digits =>
    (base? letter).map fun base => if digits = [] then nan else ofDigits base digits
  | _ => none

/-- The leading sign, if any: whether it is a minus, and what follows it. -/
def splitSign : List Char → Bool × List Char
  | '-' :: rest => (true, rest)
  | '+' :: rest => (false, rest)
  | s => (false, s)

/-- The longest run of decimal digits at the front, and what follows it. -/
def splitDigits (s : List Char) : List Char × List Char :=
  (s.takeWhile Char.isDigit, s.dropWhile Char.isDigit)

/-- The natural number that decimal digits denote. -/
def naturalOfDigits (digits : List Char) : Nat :=
  digits.foldl (fun value c => 10 * value + (c.toNat - 48)) 0

/-- Reads the exponent that may end a decimal: nothing, or `e` and an integer. -/
def exponent? : List Char → Option Int
  | [] => some 0
  | c :: rest =>
    let (negative, rest) := splitSign rest
    if (c = 'e' || c = 'E') && rest ≠ [] && rest.all Char.isDigit then
      some (if negative then -(naturalOfDigits rest) else naturalOfDigits rest)
    else none

/-- Reads an unsigned decimal: digits with a point somewhere among them or none, at least one
digit in all, and an optional exponent. -/
def decimal? (s : List Char) : Option Decimal := do
  let (whole, rest) := splitDigits s
  let (fraction, rest) := match rest with
    | '.' :: rest => splitDigits rest
    | rest => ([], rest)
  guard (whole ++ fraction ≠ [])
  let exponent ← exponent? rest
  return ⟨naturalOfDigits (whole ++ fraction), exponent - fraction.length⟩

/-- Reads a word for a number that is not finite; letters may be of either case. -/
def ofWord? (negative : Bool) (word : List Char) : Option Number :=
  let lower := word.map Char.toLower
  if lower = "inf".toList || lower = "infinity".toList then
    some (if negative then negativeInfinity else infinity)
  else if lower = "nan".toList then some nan
  else none

/-- Reads a decimal or a word with an optional sign. -/
def parse? (s : List Char) : Option Number :=
  let (negative, rest) := splitSign s
  match decimal? rest with
  | some x => some (ofMagnitude negative x.nearest)
  | none => ofWord? negative rest

/-- What `parse?` reads; NaN where it reads nothing. -/
def ofDecimalText (s : List Char) : Number :=
  (parse? s).getD nan

/-- A letter that no decimal has. -/
def isForeignLetter (c : Char) : Bool :=
  c.isAlpha && c != 'e' && c != 'E'

/-- Reads a numeral that stands alone. The words that `parse?` reads are no numerals, so a text with
a letter that no decimal has is kept from it. -/
def ofNumeral (s : List Char) : Number :=
  if s = [] then ofNat 0
  else if s = "Infinity".toList || s = "+Infinity".toList then infinity
  else if s = "-Infinity".toList then negativeInfinity
  else match ofPrefixed? s with
    | some x => x
    | none => if s.any isForeignLetter then nan else ofDecimalText s

/-- The number that a text denotes; NaN where it denotes none. -/
def ofText (s : String) : Number :=
  ofNumeral (Text.trimBy Text.isBlank s.toList)

end Reading

end TableQuery.Number
