import TableQuery.Expr
import TableQuery.Text.Quoted
import TableQuery.Token

/-! # Expressions as text

The canonical text of an expression reads back as the same expression: operands that apply an
operator stand in parentheses, and names that are no bare identifiers between backticks. -/

namespace TableQuery

namespace Expr

/-- The words that have a meaning of their own where a name could stand. -/
def reservedWords : List String :=
  ["SELECT", "FROM", "WHERE", "GROUP", "BY", "HAVING", "AS", "ORDER", "ASC", "DESC", "LIMIT",
   "OFFSET", "CASE", "WHEN", "THEN", "ELSE", "END", "NOT", "NULL", "TRUE", "FALSE", "AND", "OR",
   "IS", "LIKE"]

/-- Whether a name is a reserved word, in any case of its letters. -/
def isReserved (name : String) : Bool :=
  reservedWords.contains (Text.asciiUpper name)

/-- Whether a name can stand without quotes: a word that is not reserved. -/
def isBareName (name : String) : Bool :=
  (match name.toList with
    | [] => false
    | c :: rest => Token.isWordStart c && rest.all Token.isWordPart) &&
  !isReserved name

/-- The backtick. -/
def backtick : Char := '\x60'

/-- The text of an identifier. -/
def nameText (name : String) : String :=
  if isBareName name then name else Text.encodeQuoted backtick name

/-- The text between parentheses. -/
def parenthesized (s : List Char) : List Char :=
  '(' :: s ++ [')']

/-- The text of an operand. -/
def operandChars (e : Expr) (chars : List Char) : List Char :=
  if e.isBinary then parenthesized chars else chars

mutual

/-- The characters of the canonical text. -/
def chars : Expr → List Char
  | null => "NULL".toList
  | bool b => (if b then "TRUE" else "FALSE").toList
  | number _ text => text.toList
  | string s => (Text.encodeQuoted '\x22' s).toList
  | identifier name => (nameText name).toList
  | star => ['*']
  | call name args => name.toList ++ parenthesized (charsAll args)
  | aggregate function argument _ => function.name.toList ++ parenthesized argument.chars
  | binary op left right =>
    operandChars left left.chars ++ ' ' :: op.symbol.toList ++
      ' ' :: operandChars right right.chars
  | case subject branches otherwise =>
    "CASE".toList ++ charsOption [] subject ++ charsBranches branches ++
      charsOption "ELSE ".toList otherwise ++ " END".toList
termination_by structural e => e

/-- The texts of a list of expressions with commas between them. -/
def charsAll : List Expr → List Char
  | [] => []
  | [e] => e.chars
  | e :: rest => e.chars ++ ',' :: ' ' :: charsAll rest
termination_by structural l => l

/-- The texts of branches, each after a space. -/
def charsBranches : List (Expr × Expr) → List Char
  | [] => []
  | (condition, result) :: rest =>
    " WHEN ".toList ++ condition.chars ++ " THEN ".toList ++ result.chars ++ charsBranches rest
termination_by structural l => l

/-- The text of an expression that may be missing, after a space and a word. -/
def charsOption (word : List Char) : Option Expr → List Char
  | none => []
  | some e => ' ' :: word ++ e.chars
termination_by structural o => o

end

/-- The canonical text. -/
def text (e : Expr) : String := String.ofList e.chars

end Expr

end TableQuery
