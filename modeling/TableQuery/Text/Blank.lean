import TableQuery.Text.CodeTable

/-! # White space and trimming

`isBlank` is the white space of the whole character set. Trimming by a set of characters cuts
the longest run of them off either end. -/

namespace TableQuery.Text

/-- The code points of white space. -/
def blankRanges : CodeRanges :=
  [(0x9, 0xd), (0x20, 0x20), (0x85, 0x85), (0xa0, 0xa0), (0x1680, 0x1680), (0x2000, 0x200a),
   (0x2028, 0x2029), (0x202f, 0x202f), (0x205f, 0x205f), (0x3000, 0x3000)]

/-- Whether the character is white space. -/
def isBlank (c : Char) : Bool :=
  blankRanges.contains c

/-- The characters after the longest leading run that satisfies `p`. -/
def trimStart (p : Char → Bool) (s : List Char) : List Char :=
  s.dropWhile p

/-- The characters before the longest trailing run that satisfies `p`. -/
def trimEnd (p : Char → Bool) (s : List Char) : List Char :=
  (s.reverse.dropWhile p).reverse

/-- What is left between the longest leading and the longest trailing run that satisfy `p`. -/
def trimBy (p : Char → Bool) (s : List Char) : List Char :=
  trimEnd p (trimStart p s)

/-- The text without the white space at its ends. -/
def trim (s : String) : String :=
  String.ofList (trimBy isBlank s.toList)

@[simp] theorem toList_trim (s : String) : (trim s).toList = trimBy isBlank s.toList := by
  simp [trim]

end TableQuery.Text
