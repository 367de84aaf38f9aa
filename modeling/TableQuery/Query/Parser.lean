import TableQuery.Expr.Parser
import TableQuery.Query
import TableQuery.Token.Lexer

/-! # Parsing queries

The clauses of a query come in a fixed order, and only the selection and the table are
mandatory. A condition on groups is looked for behind grouping keys only. One semicolon may end
the query, and nothing may follow. -/

namespace TableQuery

namespace Query

open TableQuery.Parser

/-- A column of the result, with a name behind AS or its default name. -/
def outputColumn : Parser OutputColumn := do
  let expr ← Expr.parser
  let name ← clause "AS" (token .columnName fun t => t.isKind .identifier || t.isKind .string)
  return ⟨expr, (name.map (·.name)).getD (OutputColumn.defaultName expr)⟩

/-- The columns of the result: a star, or a list. -/
def selection : Parser Selection := do
  if ← accept (·.isKind .star) then return .all
  else return .columns (← list₁ outputColumn .comma)

/-- The name of a table, a string. -/
def tableName : Parser String :=
  Token.name <$> token .tableName (·.isKind .string)

/-- The grouping keys and the condition on groups. -/
def grouping : Parser (Option (List Expr × Option Expr)) :=
  clause "GROUP" do
    let _ ← keyword "BY"
    let keys ← list₁ Expr.parser .comma
    return (keys, ← clause "HAVING" Expr.parser)

/-- A term of an ordering; ascending unless said otherwise. -/
def orderingTerm : Parser OrderingTerm := do
  let expr ← Expr.parser
  if ← acceptKeyword "ASC" then return ⟨expr, .ascending⟩
  else if ← acceptKeyword "DESC" then return ⟨expr, .descending⟩
  else return ⟨expr, .ascending⟩

/-- The terms of an ordering. -/
def ordering : Parser (Option (List OrderingTerm)) :=
  clause "ORDER" do
    let _ ← keyword "BY"
    list₁ orderingTerm .comma

/-- The greatest count of rows. -/
def maxCount : Nat := 0xffffffffffffffff

/-- The count that a number denotes: it must be whole and lie between zero and 2^64, and counts
beyond the greatest one are cut off there. -/
def count? (n : Number) : Option Nat :=
  if n.isWhole && 0 ≤ n.value && n.wholePart ≤ maxCount + 1 then some (min n.wholePart maxCount)
  else none

/-- A count of rows. -/
def count : Parser Nat := fun s =>
  match token .number (·.isKind .number) s with
  | .error f => .error f
  | .ok (t, rest) =>
    match t.number?.bind count? with
    | some n => .ok (n, rest)
    | none => .error ⟨.unexpected .integer, s⟩

/-- A query, up to its end mark. -/
def clauses : Parser Query := do
  let _ ← keyword "SELECT"
  let select ← selection
  let _ ← keyword "FROM"
  let source ← tableName
  let condition ← clause "WHERE" Expr.parser
  let grouping ← grouping
  let orderBy ← ordering
  let limit ← clause "LIMIT" count
  let offset ← clause "OFFSET" count
  return {
    select, source, condition, orderBy, limit, offset
    groupBy := grouping.map (·.1)
    having := grouping.bind (·.2) }

/-- The end of the tokens. -/
def finished : Parser Unit
  | [] => .ok ((), [])
  | s => .error ⟨.unexpected .endOfInput, s⟩

/-- A whole query. -/
def parser : Parser Query := do
  let query ← clauses
  let _ ← accept (·.isKind .semicolon)
  finished
  return query

/-- The query that a list of tokens forms. -/
def ofTokens (tokens : List Token) : Except Error Query :=
  match parser tokens with
  | .ok (query, _) => .ok query
  | .error f => .error f.toError

/-- The query that a text denotes, its aggregates not yet told apart from other calls. -/
def ofText (s : String) : Except Error Query :=
  match Token.ofText s with
  | .ok tokens => ofTokens tokens
  | .error e => .error (.lexical e)

end Query

end TableQuery
