import TableQuery.Number.Numeral

/-! # Values

A cell holds NULL, a truth value, a number or a text. Every value can be read as a text, as a
number and as a condition; the empty text counts as NULL wherever NULL is asked for.

`Value.sortCompare` orders values for sorting: first NULL, then what reads as a number, then
all other texts. -/

namespace TableQuery

/-- A cell of a row. -/
inductive Value where
  /-- The missing value. -/
  | null
  /-- A truth value. -/
  | bool (b : Bool)
  /-- A number. -/
  | number (n : Number)
  /-- A text. -/
  | text (s : String)
deriving DecidableEq

namespace Value

instance : Inhabited Value := ⟨null⟩

/-- Whether the value is NULL or the empty text. -/
def isNull : Value → Bool
  | null => true
  | text s => s.isEmpty
  | _ => false

/-- The value as a text; NULL is the empty text. -/
def toText : Value → String
  | null => ""
  | bool b => if b then "true" else "false"
  | number n => n.text
  | text s => s

/-- The value as a number: NULL, false and blank texts are zero, and a text that is no numeral
is NaN. -/
def toNumber : Value → Number
  | null => Number.ofNat 0
  | bool b => Number.ofNat b.toNat
  | number n => n
  | text s => Number.ofText s

/-- The value as a number, unless that is NaN. -/
def number? (v : Value) : Option Number :=
  if v.toNumber.isNan then none else some v.toNumber

/-- The value as a condition: NULL, false, zero, NaN and the empty text do not hold. -/
def isTruthy : Value → Bool
  | null => false
  | bool b => b
  | number n => !n.isNan && n.value != 0
  | text s => !s.isEmpty

/-- Equality of the values as texts. -/
def looseEq (v w : Value) : Bool :=
  v.toText == w.toText

/-- The text written for the value in a field of a table. -/
def field : Value → String
  | bool b => if b then "1" else "0"
  | v => v.toText

/-- What a value is sorted by. -/
inductive SortKey where
  /-- The key of NULL. -/
  | null
  /-- The key of a value that reads as a number. -/
  | number (n : Number)
  /-- The key of every other text. -/
  | text (s : String)
deriving DecidableEq

/-- Compares keys: NULL before numbers before texts, numbers by their total order and texts by
their code points. -/
def SortKey.compare : SortKey → SortKey → Ordering
  | null, null => .eq
  | null, _ => .lt
  | _, null => .gt
  | number m, number n => m.totalCompare n
  | number _, text _ => .lt
  | text _, number _ => .gt
  | text s, text t => Ord.compare s t

/-- The key of a value. -/
def sortKey (v : Value) : SortKey :=
  if v.isNull then .null
  else match v.number? with
    | some n => .number n
    | none => .text v.toText

/-- Compares two values for sorting. -/
def sortCompare (v w : Value) : Ordering :=
  v.sortKey.compare w.sortKey

end Value

end TableQuery
