import TableQuery.Pipeline
import TableQuery.Query.Aggregation

/-! # Running a query

A query is run over a source of rows, some of which may be errors. Rows of the result are
written as soon as they come; the source is read no further once a limit asks for its end. -/

namespace TableQuery

variable [PatternEngine]

/-- A destination of rows: how to write a row and how to finish, each with what is written
afterwards even where it fails. -/
structure Sink (σ : Type) where
  /-- Writes a row. -/
  write : Row → σ → Except Error Unit × σ
  /-- Called after the last row. -/
  finish : σ → Except Error Unit × σ := fun s => (.ok (), s)

namespace Sink

variable {σ : Type}

/-- Writes rows up to the first error. -/
def writeAll (sink : Sink σ) : List Row → σ → Except Error Unit × σ
  | [], s => (.ok (), s)
  | row :: rows, s =>
    match sink.write row s with
    | (.error e, s) => (.error e, s)
    | (.ok (), s) => sink.writeAll rows s

/-- Collects rows. -/
def rows : Sink (Array Row) where
  write row collected := (.ok (), collected.push row)

end Sink

/-- How a run ends. -/
structure Outcome (σ : Type) where
  /-- Whether it fails. -/
  result : Except Error Unit
  /-- The number of items taken from the source. -/
  pulled : Nat
  /-- What is written. -/
  output : σ

namespace Pipeline

variable {σ : Type}

/-- Finishes the input and writes the rows that were held back. -/
def drain (sink : Sink σ) (p : Pipeline) (s : σ) : Outcome σ :=
  match p.finish.1 with
  | .error e => ⟨.error e, 0, s⟩
  | .ok rows =>
    match sink.writeAll rows s with
    | (.error e, s) => ⟨.error e, 0, s⟩
    | (.ok (), s) =>
      let (result, s) := sink.finish s
      ⟨result, 0, s⟩

/-- Takes the items of a source in turn. -/
def run (sink : Sink σ) : List (Except Error Row) → Pipeline → σ → Outcome σ
  | [], p, s => p.drain sink s
  | .error e :: _, _, s => ⟨.error e, 1, s⟩
  | .ok row :: source, p, s =>
    match p.push row with
    | (.error e, _) => ⟨.error e, 1, s⟩
    | (.ok rows, p) =>
      match sink.writeAll rows s with
      | (.error e, s) => ⟨.error e, 1, s⟩
      | (.ok (), s) =>
        let rest := if p.isStopped then p.drain sink s else run sink source p s
        { rest with pulled := rest.pulled + 1 }

end Pipeline

namespace Query

/-- Runs a query over a source, writing to a sink. -/
def run {σ : Type} (q : Query) (source : List (Except Error Row)) (sink : Sink σ) (s : σ) :
    Outcome σ :=
  (Pipeline.ofQuery q).run sink source s

/-- The rows that a query, given as a text, makes of rows. -/
def rows (text : String) (source : List Row) : Except Error (List Row) := do
  let q ← compile text
  let outcome := q.run (source.map .ok) Sink.rows #[]
  outcome.result
  return outcome.output.toList

end Query

end TableQuery
