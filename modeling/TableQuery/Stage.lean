import TableQuery.Grouping
import TableQuery.Projection
import TableQuery.Sorting

/-! # Stages of a query

A stage takes rows one by one and passes rows on. Grouping and sorting hold all rows back until
the input is finished; the other stages pass on at most the row they take. -/

namespace TableQuery

variable [PatternEngine]

/-- A limit on the number of rows. -/
structure Limit where
  /-- The number of rows that may still pass. -/
  remaining : Nat
  /-- Whether the limit has used up its request for the end of the input. -/
  isTerminated : Bool := false
  /-- How often the limit has asked for the end of the input. -/
  signals : Nat := 0
deriving DecidableEq, Repr

namespace Limit

/-- Takes a row, and answers whether it passes. On a row that does not, the limit asks for the end
of the input if it still can. -/
def take (l : Limit) : Bool × Limit :=
  match l.remaining with
  | n + 1 => (true, { l with remaining := n })
  | 0 =>
    if l.isTerminated then (false, l)
    else (false, { l with isTerminated := true, signals := l.signals + 1 })

end Limit

/-- The clauses that filter rows. -/
inductive FilterClause where
  | where | having
deriving DecidableEq, Repr

/-- A stage of a query. -/
inductive Stage where
  /-- Passes the rows on which a condition holds. -/
  | filter (clause : FilterClause) (condition : Expr)
  /-- Passes the representatives of groups. -/
  | group (g : Grouping)
  /-- Passes all rows in order. -/
  | sort (s : Sorting)
  /-- Leaves the given number of rows out. -/
  | skip (count : Nat)
  /-- Passes rows up to a limit. -/
  | limit (l : Limit)
  /-- Passes the rows of the result. -/
  | project (select : Selection)

namespace Stage

/-- The name of a stage. -/
def name : Stage → String
  | filter .where _ => "where"
  | filter .having _ => "having"
  | group _ => "group"
  | sort _ => "order"
  | skip _ => "offset"
  | limit _ => "limit"
  | project _ => "select"

/-- Takes one row, and passes rows on. Behind the answer stand the stage and the patterns
afterwards, also behind an error. -/
def process (row : Row) : Stage → Patterns → Except Error (List Row) × Stage × Patterns
  | filter clause condition, known =>
    let (answer, known) := condition.eval row known
    (answer.map fun v => if v.isTruthy then [row] else [], filter clause condition, known)
  | group g, known =>
    let (answer, g, known) := Grouping.add row (g, known)
    (answer.map fun () => [], group g, known)
  | sort s, known =>
    let (answer, s, known) := Sorting.add row (s, known)
    (answer.map fun () => [], sort s, known)
  | skip 0, known => (.ok [row], skip 0, known)
  | skip (n + 1), known => (.ok [], skip n, known)
  | limit l, known =>
    let (passes, l) := l.take
    (.ok (if passes then [row] else []), limit l, known)
  | project select, known =>
    let (answer, known) := select.project row known
    (answer.map ([·]), project select, known)

/-- Finishes the input: the stage afterwards, and the rows it held back. -/
def finish : Stage → Stage × List Row
  | group g => (group g.reset, g.rows)
  | sort s => (sort s.reset, s.rows)
  | stage => (stage, [])

/-- How often the stage has asked for the end of the input. -/
def signals : Stage → Nat
  | limit l => l.signals
  | _ => 0

/-- Takes rows one after another up to the first error. -/
def feed : List Row → Stage → Patterns → Except Error (List Row) × Stage × Patterns
  | [], stage, known => (.ok [], stage, known)
  | row :: rows, stage, known =>
    match stage.process row known with
    | (.error e, stage, known) => (.error e, stage, known)
    | (.ok out, stage, known) =>
      let (answer, stage, known) := feed rows stage known
      (answer.map (out ++ ·), stage, known)

end Stage

end TableQuery
