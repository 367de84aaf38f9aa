/-! # Tables over code points

A property of characters is a list of closed ranges of code points; a mapping from characters to
characters is a list of shifted runs. Both are read by a linear search. -/

namespace TableQuery.Text

/-- A set of code points, as closed ranges. -/
abbrev CodeRanges := List (Nat × Nat)

namespace CodeRanges

/-- Whether a range of the table holds the character. -/
def contains (table : CodeRanges) (c : Char) : Bool :=
  table.any fun (first, last) => first ≤ c.toNat && c.toNat ≤ last

end CodeRanges

/-- A run of code points, `step` apart, that are mapped to a run starting at `target`. -/
structure CodeShift where
  /-- The first code point of the run. -/
  first : Nat
  /-- The last code point of the run. -/
  last : Nat
  /-- The distance between neighbours of the run. -/
  step : Nat
  /-- The code point that `first` is mapped to. -/
  target : Nat

namespace CodeShift

/-- Whether the code point lies on the run. -/
def covers (s : CodeShift) (n : Nat) : Bool :=
  s.first ≤ n && n ≤ s.last && (n - s.first) % s.step == 0

/-- The character that the first run covering `c` maps it to. -/
def find? (table : List CodeShift) (c : Char) : Option Char :=
  (table.find? (covers · c.toNat)).map fun s => Char.ofNat (s.target + (c.toNat - s.first))

/-- The character that the table maps `c` to; a character on no run stays as it is. -/
def apply (table : List CodeShift) (c : Char) : Char :=
  (find? table c).getD c

end CodeShift

end TableQuery.Text
