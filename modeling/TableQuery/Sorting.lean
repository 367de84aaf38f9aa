import TableQuery.Evaluation
import TableQuery.Query

/-! # Sorting

Rows are sorted by a list of terms: the first term on which two rows differ decides, and rows
that differ on none keep the order in which they came. -/

namespace TableQuery

variable [PatternEngine]

/-- The order of two values under a direction. -/
def Direction.apply : Direction → Ordering → Ordering
  | ascending, o => o
  | descending, o => o.swap

/-- The rows seen so far, each with the values it is sorted by. -/
structure Sorting where
  /-- The terms. -/
  terms : List OrderingTerm
  /-- The values of the terms and the rows, in the order in which they came. -/
  buffer : Array (List Value × Row) := #[]

namespace Sorting

/-- Compares two lists of values, term by term. -/
def compareKeys : List OrderingTerm → List Value → List Value → Ordering
  | t :: terms, v :: vs, w :: ws =>
    (t.direction.apply (v.sortCompare w)).then (compareKeys terms vs ws)
  | _, _, _ => .eq

/-- Takes a row in. -/
def add (row : Row) : Mutation Sorting Unit := do
  let { terms, .. } ← Mutation.state
  let keys ← Mutation.eval (Expr.evalAll row (terms.map (·.expr)))
  Mutation.modify fun s => { s with buffer := s.buffer.push (keys, row) }

/-- The rows in order. -/
def rows (s : Sorting) : List Row :=
  (s.buffer.toList.mergeSort fun a b => (compareKeys s.terms a.1 b.1).isLE).map (·.2)

/-- The same sorting before any row. -/
def reset (s : Sorting) : Sorting := { s with buffer := #[] }

end Sorting

end TableQuery
