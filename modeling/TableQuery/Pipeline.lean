import TableQuery.Stage

/-! # Pipelines

A pipeline runs rows through the stages of a query, one behind the other. An error stops a row
where it is: what earlier stages have taken in stays, and later stages have not seen it. -/

namespace TableQuery

variable [PatternEngine]

namespace Stages

/-- Feeds rows to the first stage and what it passes on to the next. -/
def push : List Stage → List Row → Patterns → Except Error (List Row) × List Stage × Patterns
  | [], rows, known => (.ok rows, [], known)
  | stage :: rest, rows, known =>
    match stage.feed rows known with
    | (.error e, stage, known) => (.error e, stage :: rest, known)
    | (.ok out, stage, known) =>
      let (answer, rest, known) := push rest out known
      (answer, stage :: rest, known)

/-- Finishes the input of the first stage, after feeding it the rows that come from the stages
before it; then that of the next one. -/
def finish : List Stage → List Row → Patterns → Except Error (List Row) × List Stage × Patterns
  | [], rows, known => (.ok rows, [], known)
  | stage :: rest, rows, known =>
    match stage.feed rows known with
    | (.error e, stage, known) => (.error e, stage :: rest, known)
    | (.ok out, stage, known) =>
      let (stage, held) := stage.finish
      let (answer, rest, known) := finish rest (out ++ held) known
      (answer, stage :: rest, known)

end Stages

/-- The stages of a running query, and the patterns read so far. -/
structure Pipeline where
  /-- The stages, first to last. -/
  stages : List Stage
  /-- The patterns that all stages share. -/
  patterns : Patterns := ∅

/-- The stages of a query, before any row. -/
def Query.stages (q : Query) : List Stage :=
  (q.condition.map (Stage.filter .where)).toList ++
  (if q.isGrouped then [.group { keys := q.groupBy.getD [], aggregates := q.aggregates }]
    else []) ++
  (q.having.map (Stage.filter .having)).toList ++
  (q.orderBy.map fun terms => Stage.sort { terms }).toList ++
  (q.offset.map Stage.skip).toList ++
  (q.limit.map fun n => Stage.limit { remaining := n }).toList ++
  [.project q.select]

namespace Pipeline

/-- The pipeline of a query. -/
def ofQuery (q : Query) : Pipeline := { stages := q.stages }

/-- Takes one row: the rows of the result that it brings forth, and the pipeline afterwards. -/
def push (p : Pipeline) (row : Row) : Except Error (List Row) × Pipeline :=
  let (answer, stages, patterns) := Stages.push p.stages [row] p.patterns
  (answer, { stages, patterns })

/-- Finishes the input: the rows of the result that were held back, and the pipeline
afterwards. -/
def finish (p : Pipeline) : Except Error (List Row) × Pipeline :=
  let (answer, stages, patterns) := Stages.finish p.stages [] p.patterns
  (answer, { stages, patterns })

/-- How often a limit has asked for the end of the input. -/
def signals (p : Pipeline) : Nat :=
  (p.stages.map Stage.signals).foldl (· + ·) 0

/-- Whether a limit has asked for the end of the input. -/
def isStopped (p : Pipeline) : Bool := 0 < p.signals

end Pipeline

end TableQuery
