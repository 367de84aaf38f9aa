import TableQuery.Text.Blank

/-! # Statements

A text holds statements, each ended by a semicolon outside quotes. Between two quotes of one
kind everything is quoted, and there a backslash takes the character behind it as it is. -/

namespace TableQuery.Statement

/-- Where a character stands. -/
inductive Place where
  /-- Outside quotes. -/
  | outside
  /-- Inside quotes of the given kind. -/
  | inside (quote : Char)
  /-- Inside quotes, behind a backslash. -/
  | escaped (quote : Char)
deriving DecidableEq, Repr

namespace Place

/-- Whether a character opens quotes. -/
def isQuote (c : Char) : Bool := c == '\'' || c == '\x22' || c == '\x60'

/-- Where the next character stands. -/
def next (c : Char) : Place → Place
  | outside => if isQuote c then inside c else outside
  | inside quote =>
    if c = '\\' then escaped quote else if c = quote then outside else inside quote
  | escaped quote => inside quote

/-- Whether a character ends a statement. -/
def isEnd (c : Char) (p : Place) : Bool := p == outside && c == ';'

end Place

/-- Cuts a text behind each character that ends a statement; the last piece is what follows
them. -/
def pieces : Place → List Char → List (List Char) × List Char
  | _, [] => ([], [])
  | p, c :: rest =>
    let (ended, last) := pieces (p.next c) rest
    if p.isEnd c then ([c] :: ended, last)
    else match ended with
      | [] => ([], c :: last)
      | piece :: ended => ((c :: piece) :: ended, last)

/-- Cutting loses nothing. -/
theorem flatten_pieces (p : Place) (s : List Char) :
    (pieces p s).1.flatten ++ (pieces p s).2 = s := by
  induction s generalizing p with
  | nil => rfl
  | cons c rest ih =>
    have h := ih (p.next c)
    simp only [pieces]
    split
    · simp [h]
    · split <;> simp_all

/-- Whether a text holds the end of a statement. -/
def isComplete (s : String) : Bool :=
  !(pieces .outside s.toList).1.isEmpty

/-- The statements of a text without the white space around them. A semicolon alone is no
statement; what follows the last one is, unless it is blank. -/
def split (s : String) : List String :=
  let (ended, last) := pieces .outside s.toList
  let trim := Text.trimBy Text.isBlank
  ((ended.map trim).filter (· ≠ [';']) ++ [trim last].filter (· ≠ [])).map String.ofList

end TableQuery.Statement
