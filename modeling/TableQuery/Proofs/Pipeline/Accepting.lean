import TableQuery.Pipeline
import TableQuery.Proofs.Evaluation.Transparency

/-!
# Taking rows in

A stage evaluates all that it needs of a row before it changes. So what a row leads to is given by
an evaluation alone, which answers with the stage that the row is taken in by, and a row that fails
leaves the stage as it was. This holds under every engine of patterns.
-/

namespace TableQuery

/-- What is made of an answer behind an evaluation asks for no patterns. -/
theorem Evaluation.bind_pure_apply {α β : Type} (m : Evaluation α) (f : α → β) (known : Patterns) :
    (m >>= fun a => (pure (f a) : Evaluation β)) known = ((m known).1.map f, (m known).2) := by
  cases hanswer : (m known).1 with
  | error e => exact bind_of_error hanswer
  | ok a => exact bind_of_ok hanswer

namespace Mutation

variable {σ α β : Type} {s : σ} {known : Patterns}

/-- In the state `s` the mutation leaves behind what the evaluation answers with. Where the
evaluation fails, it fails alike and leaves the state as it was. -/
def Commits (u : Mutation σ Unit) (s : σ) (m : Evaluation σ) : Prop :=
  ∀ known, u (s, known) = match m known with
    | (.error e, later) => (.error e, s, later)
    | (.ok after, later) => (.ok (), after, later)

theorem Commits.modify (f : σ → σ) (s : σ) : (modify f).Commits s (pure (f s)) :=
  fun _ => rfl

theorem Commits.state {f : σ → Mutation σ Unit} {m : Evaluation σ} (h : (f s).Commits s m) :
    (state >>= f).Commits s m :=
  h

theorem Commits.eval {m : Evaluation α} {f : α → Mutation σ Unit} {next : α → Evaluation σ}
    (h : ∀ a, (f a).Commits s (next a)) : (eval m >>= f).Commits s (m >>= next) := by
  intro known
  change ExceptT.bindCont f (m known).1 (s, (m known).2) = _
  cases hanswer : (m known).1 with
  | error e =>
      rw [Evaluation.bind_of_error hanswer]
      rfl
  | ok a =>
      rw [Evaluation.bind_of_ok hanswer]
      exact h a (m known).2

end Mutation

variable [PatternEngine]

namespace Grouping

/-- The grouping that a row is taken in by. -/
def accept (row : Row) (g : Grouping) : Evaluation Grouping := do
  let keys ← Expr.evalAll row g.keys
  let inputs ← Expr.evalAll row (g.aggregates.map (·.argument))
  let update := representative g.aggregates row inputs
  return { g with groups := g.groups.alter update (keys.map Value.toText) }

theorem commits_add (row : Row) (g : Grouping) : (add row).Commits g (g.accept row) :=
  .state (.eval fun _ => .eval fun _ => .modify _ g)

end Grouping

namespace Sorting

/-- The sorting that a row is taken in by. -/
def accept (row : Row) (s : Sorting) : Evaluation Sorting := do
  let keys ← Expr.evalAll row (s.terms.map (·.expr))
  return { s with buffer := s.buffer.push (keys, row) }

theorem commits_add (row : Row) (s : Sorting) : (add row).Commits s (s.accept row) :=
  .state (.eval fun _ => .modify _ s)

end Sorting

namespace Stage

open Evaluation

/-- The stage that a row is taken in by, and the rows it passes on. -/
def accept (row : Row) : Stage → Evaluation (Stage × List Row)
  | filter clause condition => do
    let v ← condition.eval row
    return (filter clause condition, if v.isTruthy then [row] else [])
  | group g => return (group (← g.accept row), [])
  | sort s => return (sort (← s.accept row), [])
  | skip 0 => return (skip 0, [row])
  | skip (n + 1) => return (skip n, [])
  | limit l =>
    let (passes, l) := l.take
    return (limit l, if passes then [row] else [])
  | project select => return (project select, [← select.project row])

variable {row : Row} {rows out : List Row} {stage mid after : Stage} {known later : Patterns}
  {e : Error}

/-- A stage becomes what it is taken in by, and an error leaves it as it was. -/
theorem process_eq (row : Row) (stage : Stage) (known : Patterns) :
    stage.process row known = match stage.accept row known with
      | (.error e, later) => (.error e, stage, later)
      | (.ok (after, out), later) => (.ok out, after, later) := by
  cases stage with
  | filter clause condition =>
      rw [accept, bind_pure_apply, process]
      rcases condition.eval row known with ⟨_ | _, later⟩ <;> rfl
  | group g =>
      rw [accept, bind_pure_apply, process, Grouping.commits_add]
      rcases g.accept row known with ⟨_ | _, later⟩ <;> rfl
  | sort s =>
      rw [accept, bind_pure_apply, process, Sorting.commits_add]
      rcases s.accept row known with ⟨_ | _, later⟩ <;> rfl
  | skip count => cases count <;> rfl
  | limit l => rfl
  | project select =>
      rw [accept, bind_pure_apply, process]
      rcases select.project row known with ⟨_ | _, later⟩ <;> rfl

theorem process_of_error (h : stage.accept row known = (.error e, later)) :
    stage.process row known = (.error e, stage, later) := by
  rw [process_eq, h]

theorem process_of_ok (h : stage.accept row known = (.ok (after, out), later)) :
    stage.process row known = (.ok out, after, later) := by
  rw [process_eq, h]

theorem feed_cons_of_error (h : stage.accept row known = (.error e, later)) :
    stage.feed (row :: rows) known = (.error e, stage, later) := by
  rw [feed, process_of_error h]

theorem feed_cons_of_ok (h : stage.accept row known = (.ok (mid, out), later)) :
    stage.feed (row :: rows) known =
      ((mid.feed rows later).1.map (out ++ ·), (mid.feed rows later).2) := by
  rw [feed, process_of_ok h]

end Stage

end TableQuery
