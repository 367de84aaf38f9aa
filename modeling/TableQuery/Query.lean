import TableQuery.Expr.Encoding
import TableQuery.Expr.Printer

/-! # Queries

A query selects columns from one table. Its clauses apply in a fixed order: condition, grouping,
condition on groups, ordering, offset, limit, and the selection of columns last. -/

namespace TableQuery

/-- An aggregate function applied to an argument, with its identity. -/
structure Aggregate where
  /-- The function. -/
  function : AggregateFunction
  /-- The argument, evaluated on each row of a group. -/
  argument : Expr
  /-- The identity. -/
  id : AggregateId

namespace Aggregate

/-- The aggregate of a function and an argument, with the identity that belongs to them. -/
def ofCall (function : AggregateFunction) (argument : Expr) : Aggregate :=
  ⟨function, argument, .ofCall function argument⟩

/-- The expression that stands for the value of the aggregate. -/
def toExpr (a : Aggregate) : Expr := .aggregate a.function a.argument a.id

end Aggregate

/-- A column of the result. -/
structure OutputColumn where
  /-- The expression evaluated on each row. -/
  expr : Expr
  /-- The name of the column. -/
  name : String

/-- The name of a column that is given none: that of a selected column, else the text of the
expression. -/
def OutputColumn.defaultName : Expr → String
  | .identifier name => name
  | e => e.text

/-- The columns of the result. -/
inductive Selection where
  /-- All columns of a row as they are. -/
  | all
  /-- The given columns. -/
  | columns (l : List OutputColumn)

/-- The direction of an ordering. -/
inductive Direction where
  | ascending | descending
deriving DecidableEq, Repr

/-- The keyword for a direction. -/
def Direction.keyword : Direction → String
  | ascending => "ASC"
  | descending => "DESC"

/-- A term of an ordering. -/
structure OrderingTerm where
  /-- The expression that rows are compared by. -/
  expr : Expr
  /-- The direction. -/
  direction : Direction

/-- The text of a term. -/
def OrderingTerm.text (t : OrderingTerm) : String :=
  t.expr.text ++ " " ++ t.direction.keyword

/-- A query. -/
structure Query where
  /-- The columns of the result. -/
  select : Selection
  /-- The name of the table. -/
  source : String
  /-- The condition on rows. -/
  condition : Option Expr := none
  /-- The keys that rows are grouped by. -/
  groupBy : Option (List Expr) := none
  /-- The condition on groups. -/
  having : Option Expr := none
  /-- The terms that the result is ordered by. -/
  orderBy : Option (List OrderingTerm) := none
  /-- The greatest number of rows of the result. -/
  limit : Option Nat := none
  /-- The number of rows left out at the start. -/
  offset : Option Nat := none
  /-- The distinct aggregates, in the order in which they first occur. -/
  aggregates : List Aggregate := []

/-- Whether rows are grouped: by keys, or all into one group for the sake of an aggregate. -/
def Query.isGrouped (q : Query) : Bool :=
  q.groupBy.isSome || !q.aggregates.isEmpty

end TableQuery
