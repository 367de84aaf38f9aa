import TableQuery.Text.CaseTable

/-! # Uppercase and lowercase

A letter's other case may take several characters. One mapping looks at its surroundings: a
capital sigma becomes the final small sigma when a cased letter comes before it and none after
it, case-ignorable characters in between not counted. -/

namespace TableQuery.Text

/-- The uppercase of one character. -/
def upperChar (c : Char) : List Char :=
  match upperSequences.lookup c.toNat with
  | some codes => codes.map Char.ofNat
  | none => [CodeShift.apply upperShifts c]

/-- The lowercase of one character, whatever stands around it. -/
def lowerChar (c : Char) : List Char :=
  match lowerSequences.lookup c.toNat with
  | some codes => codes.map Char.ofNat
  | none => [CodeShift.apply lowerShifts c]

/-- The capital sigma. -/
def capitalSigma : Char := Char.ofNat 0x3a3

/-- The small sigma. -/
def smallSigma : Char := Char.ofNat 0x3c3

/-- The small sigma at the end of a word. -/
def finalSigma : Char := Char.ofNat 0x3c2

/-- Whether a cased letter comes first, case-ignorable characters left aside. -/
def startsCased (s : List Char) : Bool :=
  (s.dropWhile caseIgnorableRanges.contains).head?.any casedRanges.contains

/-- Lowercase letter by letter; `before` holds the characters already passed, nearest first. -/
def lowerFrom (before : List Char) : List Char → List Char
  | [] => []
  | c :: rest =>
    let small :=
      if c = capitalSigma then
        [if startsCased before && !startsCased rest then finalSigma else smallSigma]
      else lowerChar c
    small ++ lowerFrom (c :: before) rest

/-- The text in uppercase. -/
def upper (s : String) : String :=
  String.ofList (s.toList.flatMap upperChar)

/-- The text in lowercase. -/
def lower (s : String) : String :=
  String.ofList (lowerFrom [] s.toList)

/-- The text with the letters `a` to `z` in uppercase and all else as it is. -/
def asciiUpper (s : String) : String :=
  String.ofList (s.toList.map Char.toUpper)

@[simp] theorem toList_asciiUpper (s : String) :
    (asciiUpper s).toList = s.toList.map Char.toUpper := by
  simp [asciiUpper]

end TableQuery.Text
