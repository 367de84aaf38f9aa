import TableQuery.Text.LetterCase
import TableQuery.Value

/-! # Scalar functions

The functions of a row's values. A missing argument counts as NULL, and further arguments than
a function knows are ignored. -/

namespace TableQuery

/-- A function of the values of one row. -/
inductive ScalarFunction where
  | uppercase | lowercase | length | coalesce | trim | trimStart
deriving DecidableEq, Repr

namespace ScalarFunction

/-- The names, in uppercase, with the functions they stand for. -/
def names : List (String × ScalarFunction) :=
  [("UPPERCASE", uppercase), ("LOWERCASE", lowercase), ("LEN", length),
   ("COALESCE", coalesce), ("IFNULL", coalesce), ("TRIM", trim), ("LTRIM", trimStart)]

/-- The function with a name, in any case of its letters. -/
def ofName? (name : String) : Option ScalarFunction :=
  names.lookup (Text.asciiUpper name)

/-- Maps the text of a value; NULL stays as it is. -/
def mapText (f : String → String) : Value → Value
  | .null => .null
  | v => .text (f v.toText)

/-- Whether a character occurs in the text of a value. -/
def occursIn (v : Value) (c : Char) : Bool :=
  v.toText.toList.contains c

/-- The text without the characters of a set at its ends; without white space if no set is
given. -/
def trimmed (s : String) (set : Option Value) : String :=
  let drop := match set with
    | none => Text.isBlank
    | some v => occursIn v
  String.ofList (Text.trimBy drop s.toList)

/-- Drops leading characters that satisfy `p`, at most `count` of them. -/
def dropUpTo (p : Char → Bool) : (count : Nat) → List Char → List Char
  | 0, s => s
  | _, [] => []
  | count + 1, c :: rest => if p c then dropUpTo p count rest else c :: rest

/-- The text without the leading characters of a set, which by default are the space, the tab
and the two line ends. No fewer than `least` characters are left of a text that has as many. -/
def trimmedStart (s : String) (set : Option Value) (least : Nat) : String :=
  let drop := match set with
    | none => fun c => [' ', '\t', '\n', '\r'].contains c
    | some v => occursIn v
  String.ofList (dropUpTo drop (s.toList.length - least) s.toList)

/-- The number of characters that a value asks to keep; none if it is no number. -/
def keptCount (v : Option Value) : Nat :=
  ((v.bind Value.number?).map Number.wholePart).getD 0

/-- The value of the function on its arguments. -/
def apply (f : ScalarFunction) (args : List Value) : Value :=
  let first := args.headD .null
  match f with
  | uppercase => mapText Text.upper first
  | lowercase => mapText Text.lower first
  | length =>
    if first.isNull then .null else .number (Number.ofNat first.toText.length)
  | coalesce => (args.find? (!·.isNull)).getD .null
  | trim => if first.isNull then .null else .text (trimmed first.toText args[1]?)
  | trimStart =>
    if first.isNull then .null
    else .text (trimmedStart first.toText args[1]? (keptCount args[2]?))

end ScalarFunction

end TableQuery
