import TableQuery.Number.Binary
import TableQuery.Text.LetterCase

/-! # Tokens

A token is a piece of a query with its kind. Keywords and the operators that are words stand in
uppercase; identifiers, numbers and strings also carry what they denote. -/

namespace TableQuery

namespace Token

/-- The kind of a token. -/
inductive Kind where
  | keyword | identifier | operator | number | string
  | comma | semicolon | openParenthesis | closeParenthesis | star
deriving DecidableEq, Repr

/-- What a token denotes. -/
inductive Payload where
  /-- The name of an identifier or the contents of a string. -/
  | text (s : String)
  /-- The value of a number. -/
  | number (n : Number)
deriving DecidableEq

end Token

/-- A piece of a query. -/
structure Token where
  /-- The kind. -/
  kind : Token.Kind
  /-- The token as written, words of the language in uppercase. -/
  text : String
  /-- What the token denotes, if it denotes something. -/
  payload : Option Token.Payload := none
deriving DecidableEq

namespace Token

/-- The keyword with the given spelling. -/
def keyword (word : String) : Token := ⟨.keyword, Text.asciiUpper word, none⟩

/-- The operator with the given spelling. -/
def operator (symbol : String) : Token := ⟨.operator, Text.asciiUpper symbol, none⟩

/-- The bare identifier with the given name. -/
def identifier (name : String) : Token := ⟨.identifier, name, some (.text name)⟩

/-- Whether the token is of the given kind. -/
def isKind (kind : Kind) (t : Token) : Bool :=
  t.kind == kind

/-- Whether the token is the given keyword. -/
def isKeyword (word : String) (t : Token) : Bool :=
  t.kind == .keyword && t.text == word

/-- The text that the token denotes; empty where it denotes none. -/
def name (t : Token) : String :=
  match t.payload with
  | some (.text s) => s
  | _ => ""

/-- The number that the token denotes, if it denotes one. -/
def number? (t : Token) : Option Number :=
  match t.payload with
  | some (.number n) => some n
  | _ => none

/-- The keywords of the language. -/
def keywords : List String :=
  ["SELECT", "FROM", "WHERE", "GROUP", "BY", "HAVING", "AS", "ORDER", "ASC", "DESC", "LIMIT",
   "OFFSET", "CASE", "WHEN", "THEN", "ELSE", "END", "NOT", "NULL", "TRUE", "FALSE"]

/-- The operators that are words. -/
def wordOperators : List String := ["AND", "OR", "IS", "LIKE"]

/-- The token for a bare word. -/
def ofWord (word : String) : Token :=
  if keywords.contains (Text.asciiUpper word) then keyword word
  else if wordOperators.contains (Text.asciiUpper word) then operator word
  else identifier word

/-- Whether a word can start with the character. -/
def isWordStart (c : Char) : Bool := c.isAlpha || c == '_'

/-- Whether a word can go on with the character. -/
def isWordPart (c : Char) : Bool := c.isAlphanum || c == '_'

end Token

end TableQuery
