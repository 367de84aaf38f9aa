import TableQuery.Evaluation
import TableQuery.Query

/-! # Projection

A row of the result holds the selected columns. Of two columns with one name the first gives
the place and the last the value. -/

namespace TableQuery

variable [PatternEngine]

namespace Selection

/-- Adds columns to a row of the result. -/
def fill (row : Row) : List OutputColumn → Row → Evaluation Row
  | [], result => pure result
  | c :: rest, result => do
    let v ← c.expr.eval row
    fill row rest (result.insert c.name v)

/-- The row of the result for a row; it carries no values of aggregates. -/
def project (select : Selection) (row : Row) : Evaluation Row :=
  match select with
  | all => pure row.dropAggregates
  | columns l => fill row l {}

end Selection

end TableQuery
