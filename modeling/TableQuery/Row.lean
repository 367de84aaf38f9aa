import TableQuery.AggregateFunction
import TableQuery.OrderedMap

/-! # Rows

A row maps column names to values in column order. The row that stands for a group also carries
the values of the query's aggregates on that group. -/

namespace TableQuery

/-- The values of aggregates on one group. -/
abbrev AggregateValues := OrderedMap AggregateId Value

/-- A row of a table. -/
structure Row where
  /-- The values of the columns, in column order. -/
  columns : OrderedMap String Value := ∅
  /-- The values of the aggregates, on a row that stands for a group. -/
  aggregates : Option AggregateValues := none
deriving DecidableEq

namespace Row

instance : Inhabited Row := ⟨{}⟩

/-- The row with the given cells, inserted one after another. -/
def ofList (cells : List (String × Value)) : Row :=
  { columns := .ofList cells }

/-- The value of a column. -/
def get? (row : Row) (column : String) : Option Value :=
  row.columns.get? column

/-- The row with `v` in a column. -/
def insert (row : Row) (column : String) (v : Value) : Row :=
  { row with columns := row.columns.insert column v }

/-- The number of columns. -/
def size (row : Row) : Nat := row.columns.size

/-- Whether the row has no column. -/
def isEmpty (row : Row) : Bool := row.columns.isEmpty

/-- The value of an aggregate on the group that the row stands for. -/
def aggregate? (row : Row) (id : AggregateId) : Option Value :=
  row.aggregates.bind (·.get? id)

/-- The row with the given values of aggregates. -/
def withAggregates (row : Row) (values : AggregateValues) : Row :=
  { row with aggregates := some values }

/-- The row without the values of aggregates. -/
def dropAggregates (row : Row) : Row :=
  { row with aggregates := none }

end Row

end TableQuery
