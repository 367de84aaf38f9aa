import TableQuery.Evaluation
import TableQuery.KeyTree
import TableQuery.Query

/-! # Grouping

Rows with the same texts of all keys form a group. A group is represented by its first row,
which carries the values of the query's aggregates on the rows seen so far. Without keys all
rows form one group. -/

namespace TableQuery

variable [PatternEngine]

/-- The groups of the rows seen so far. -/
structure Grouping where
  /-- The keys. -/
  keys : List Expr
  /-- The aggregates. -/
  aggregates : List Aggregate
  /-- The representatives of the groups, under the texts of their keys. -/
  groups : KeyTree Row := ∅

namespace Grouping

/-- The values of aggregates on no rows. -/
def initialValues (aggregates : List Aggregate) : AggregateValues :=
  .ofList (aggregates.map fun a => (a.id, a.function.initial))

/-- Takes the value of an argument into account. -/
def accumulate (values : AggregateValues) (a : Aggregate) (v : Value) : AggregateValues :=
  match values.get? a.id with
  | some acc => values.insert a.id (a.function.reduce acc v)
  | none => values

/-- Takes the values of all arguments on a row into account. -/
def accumulateAll (values : AggregateValues) (inputs : List (Aggregate × Value)) :
    AggregateValues :=
  inputs.foldl (fun values (a, v) => accumulate values a v) values

/-- The representative of a group after one more row: its first row, with the values of the
aggregates brought up to date. -/
def representative (aggregates : List Aggregate) (row : Row) (inputs : List Value)
    (known : Option Row) : Row :=
  let first := known.getD (row.withAggregates (initialValues aggregates))
  match first.aggregates with
  | some values => first.withAggregates (accumulateAll values (aggregates.zip inputs))
  | none => first

/-- Takes a row into its group. -/
def add (row : Row) : Mutation Grouping Unit := do
  let { keys, aggregates, .. } ← Mutation.state
  let keys ← Mutation.eval (Expr.evalAll row keys)
  let inputs ← Mutation.eval (Expr.evalAll row (aggregates.map (·.argument)))
  let update := representative aggregates row inputs
  Mutation.modify fun g => { g with groups := g.groups.alter update (keys.map Value.toText) }

/-- The representatives of the groups. -/
def rows (g : Grouping) : List Row := g.groups.toList

/-- The same grouping before any row. -/
def reset (g : Grouping) : Grouping := { g with groups := ∅ }

end Grouping

end TableQuery
