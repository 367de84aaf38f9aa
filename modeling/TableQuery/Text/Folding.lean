import TableQuery.Text.FoldTable

/-! # Case-insensitive comparison of characters

Two characters are the same letter when their simple case foldings agree. A folding never
changes the number of characters. -/

namespace TableQuery.Text

/-- The simple case folding of a character. -/
def fold (c : Char) : Char :=
  CodeShift.apply foldShifts c

/-- Whether two characters are the same up to case. -/
def sameLetter (a b : Char) : Bool :=
  fold a == fold b

@[simp] theorem sameLetter_iff {a b : Char} : sameLetter a b = true ↔ fold a = fold b := by
  simp [sameLetter]

end TableQuery.Text
