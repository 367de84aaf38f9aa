import TableQuery.Text.Shown

/-! # Errors

Every failure of a query is a value of `Error`, which says what went wrong; `Error.message` puts
it into words. -/

namespace TableQuery

/-- Why a text cannot be cut into tokens. -/
inductive LexicalError where
  /-- The text is blank. -/
  | blank
  /-- A quoted literal is not closed. -/
  | openLiteral
  /-- No token starts at the front of what is left. -/
  | stray (rest : String)
  /-- A failure that another reader of texts reports in its own words. -/
  | reported (message : String)
deriving DecidableEq, Repr

namespace LexicalError

/-- The error in words. -/
def message : LexicalError → String
  | blank => "no input to tokenize"
  | openLiteral => "input ended in the middle of a string literal"
  | stray rest => "unable to tokenize: " ++ Text.shown rest
  | reported message => message

end LexicalError

/-- What a parser would have accepted. -/
inductive Expectation where
  /-- A given keyword. -/
  | keyword (word : String)
  /-- An expression. -/
  | expression
  /-- An expression that is nested less deeply. -/
  | shallowerExpression
  /-- The parenthesis that closes an open one. -/
  | closingParenthesis
  /-- The name of an output column. -/
  | columnName
  /-- The name of a table. -/
  | tableName
  /-- A number. -/
  | number
  /-- A number without fraction. -/
  | integer
  /-- The end of the query. -/
  | endOfInput
deriving DecidableEq, Repr

namespace Expectation

/-- The expectation in words. -/
def message : Expectation → String
  | keyword word => "\"" ++ word ++ "\""
  | expression => "an expression"
  | shallowerExpression => "a shallower expression"
  | closingParenthesis => "a closing parenthesis"
  | columnName => "a column name"
  | tableName => "a table name"
  | number => "a number"
  | integer => "an integer"
  | endOfInput => "end of input"

end Expectation

/-- Why a well-formed query has no meaning. -/
inductive SemanticError where
  /-- An aggregate in a clause that is evaluated row by row. -/
  | misplacedAggregate (clause : String)
  /-- An aggregate in the argument of an aggregate. -/
  | nestedAggregate
  /-- An aggregate with another number of arguments than one. -/
  | argumentCount (function : String) (count : Nat)
  /-- An aggregate evaluated on a row that stands for no group. -/
  | ungrouped (aggregate : String)
  /-- A pattern that is not compiled, and the reason given for it. -/
  | invalidPattern (pattern reason : String)
deriving DecidableEq, Repr

namespace SemanticError

/-- The error in words. -/
def message : SemanticError → String
  | misplacedAggregate clause => "aggregate functions are not allowed in " ++ clause
  | nestedAggregate => "calls to aggregate functions cannot be nested"
  | argumentCount function count =>
    function ++ " takes exactly one argument, got " ++ toString count
  | ungrouped aggregate => aggregate ++ " used outside of a grouped query"
  | invalidPattern pattern reason =>
    "invalid LIKE pattern " ++ Text.shown pattern ++ ": " ++ reason

end SemanticError

/-- Where a record of a delimited file starts. -/
structure RecordPosition where
  /-- The number of records before it, the header included. -/
  record : Nat
  /-- The line, counted from one. -/
  line : Nat
  /-- The number of bytes before it. -/
  byte : Nat
deriving DecidableEq, Repr

/-- Why a delimited file cannot be read or written. -/
inductive TableError where
  /-- A record read has another number of fields than the header. -/
  | unevenRecord (position : RecordPosition) (expected count : Nat)
  /-- A field of a record is no valid text after its first `valid` bytes. -/
  | invalidText (position : RecordPosition) (field valid : Nat)
  /-- A record written has another number of fields than the first one. -/
  | unevenRow (expected count : Nat)
  /-- The file is a directory. -/
  | isDirectory
deriving DecidableEq, Repr

namespace TableError

private def countMismatch (expected count : Nat) : String :=
  "found record with " ++ toString count ++ " fields, but the previous record has " ++
    toString expected ++ " fields"

/-- The error in words. -/
def message : TableError → String
  | unevenRecord p expected count =>
    s!"CSV error: record {p.record} (line: {p.line}, byte: {p.byte}): " ++
      countMismatch expected count
  | invalidText p field valid =>
    s!"CSV parse error: record {p.record} (line {p.line}, field: {field}, byte: {p.byte}): " ++
      s!"invalid utf-8: invalid UTF-8 in field {field} near byte index {valid}"
  | unevenRow expected count => "CSV error: " ++ countMismatch expected count
  | isDirectory => "Is a directory (os error 21)"

end TableError

/-- Why a file cannot be opened. -/
inductive OpenError where
  /-- There is no such file. -/
  | notFound
  /-- The path leads through a plain file. -/
  | notDirectory
  /-- The path, or a name in it, is too long. -/
  | nameTooLong
  /-- The name contains the character that ends names. -/
  | nulInName
  /-- The system refuses for another reason. -/
  | refused (description : String) (code : Nat)
deriving DecidableEq, Repr

namespace OpenError

/-- The error in words. -/
def message : OpenError → String
  | notFound => "No such file or directory (os error 2)"
  | notDirectory => "Not a directory (os error 20)"
  | nameTooLong => "File name too long (os error 36)"
  | nulInName => "file name contained an unexpected NUL byte"
  | refused description code => description ++ " (os error " ++ toString code ++ ")"

end OpenError

/-- Why a query fails. -/
inductive Error where
  /-- A file cannot be opened. -/
  | cannotOpen (name : String) (cause : OpenError)
  /-- A table cannot be read or written. -/
  | table (cause : TableError)
  /-- The query cannot be cut into tokens. -/
  | lexical (cause : LexicalError)
  /-- The tokens do not form a query. -/
  | unexpected (expected : Expectation) (found : String)
  /-- The query has no meaning. -/
  | semantic (cause : SemanticError)
  /-- The row has no such column. -/
  | columnNotFound (name : String)
  /-- There is no such function. -/
  | unknownFunction (name : String)
  /-- There is no such operator. -/
  | unknownOperator (symbol : String)
deriving DecidableEq, Repr

namespace Error

/-- The error in words. -/
def message : Error → String
  | cannotOpen name cause => "I/O error: cannot open " ++ Text.shown name ++ ": " ++ cause.message
  | table cause => "CSV error: " ++ cause.message
  | lexical cause => "tokenize error: " ++ cause.message
  | unexpected expected found =>
    "syntax error: expected " ++ expected.message ++ ", found \"" ++ found ++ "\""
  | semantic cause => "semantic error: " ++ cause.message
  | columnNotFound name => "column not found: " ++ name
  | unknownFunction name => "SQL function not found: " ++ name
  | unknownOperator symbol => "unknown operator: " ++ symbol

/-- Whether the error comes from evaluating an expression on a row. -/
def isEvaluation : Error → Bool
  | columnNotFound _ | unknownFunction _ | unknownOperator _ => true
  | _ => false

end Error

end TableQuery
