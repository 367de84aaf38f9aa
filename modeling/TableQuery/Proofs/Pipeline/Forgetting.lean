import TableQuery.Proofs.Evaluation.Asking
import TableQuery.Proofs.Pipeline.Clauses
import TableQuery.Run

/-!
# Runs that remember no patterns

The clauses of a query share the patterns that have been read. A run in which every expression is
evaluated afresh, with no pattern known, has the same outcome: it writes the same, fails alike and
reads its source as far. What the shared patterns are is said by the evaluations so far alone. Every
pattern compiles here.
-/

namespace TableQuery

open Evaluation

namespace Selection

/-- The row of the result for a row, where each column is evaluated afresh. -/
def projectAfresh (row : Row) : Selection → Except Error Row
  | all => .ok row.dropAggregates
  | columns l => l.foldlM (fun result c => result.insert c.name <$> c.expr.value row) {}

theorem value_fill (row : Row) (l : List OutputColumn) (result : Row) :
    (fill row l result).value =
      l.foldlM (fun result c => result.insert c.name <$> c.expr.value row) result := by
  induction l generalizing result with
  | nil => rfl
  | cons c rest ih =>
      have hfirst := (Expr.transparent_eval row c.expr).value_bind
        (fun v => fill row rest (result.insert c.name v)) fun v => transparent_fill row rest _
      refine hfirst.trans ?_
      simp only [ih, List.foldlM_cons, bind_map_left]
      rfl

theorem value_project (select : Selection) (row : Row) :
    (select.project row).value = select.projectAfresh row := by
  cases select with
  | all => rfl
  | columns l => exact value_fill row l {}

end Selection

namespace Stage

/-- What a stage does with a row where each expression is evaluated afresh. -/
def stepAfresh (row : Row) : Stage → Except Error (Stage × List Row)
  | filter clause condition => do
    let v ← condition.value row
    return (filter clause condition, if v.isTruthy then [row] else [])
  | group g => do
    let read ← Grouping.inputs g.keys g.aggregates row
    return (group (g.entered (row, read)), [])
  | sort s => do
    let entry ← Sorting.keyed s.terms row
    return (sort { s with buffer := s.buffer.push entry }, [])
  | skip 0 => return (skip 0, [row])
  | skip (n + 1) => return (skip n, [])
  | limit l =>
    let (passes, l) := l.take
    return (limit l, if passes then [row] else [])
  | project select => do
    let out ← select.projectAfresh row
    return (project select, [out])

theorem step_eq_stepAfresh (row : Row) (stage : Stage) : stage.step row = stage.stepAfresh row := by
  rw [step_eq]
  cases stage with
  | filter clause condition =>
      exact (Expr.transparent_eval row condition).value_bind _ fun _ => .pure _
  | group g =>
      refine ((g.transparent_accept row).value_bind _ fun _ => .pure _).trans ?_
      rw [Grouping.value_accept_eq, bind_map_left]
      rfl
  | sort s =>
      refine ((s.transparent_accept row).value_bind _ fun _ => .pure _).trans ?_
      rw [Sorting.value_accept_eq, bind_map_left]
      rfl
  | skip count => cases count <;> rfl
  | limit l => rfl
  | project select =>
      refine ((select.transparent_project row).value_bind _ fun _ => .pure _).trans ?_
      rw [Selection.value_project]
      rfl

/-- A batch that fails without remembered patterns fails alike with them. -/
theorem feed_of_steps_eq_error {rows : List Row} {stage : Stage} {known : Patterns} {e : Error}
    (hknown : known.Sound) (h : stage.steps rows = .error e) :
    ∃ (after : Stage) (later : Patterns), stage.feed rows known = (.error e, after, later) := by
  induction rows generalizing stage known with
  | nil => cases h
  | cons row rows ih =>
      obtain ⟨hanswer, hsound⟩ := accept_of_sound hknown row stage
      rcases except_bind_eq_error.1 h with hrow | ⟨⟨mid, first⟩, hrow, h⟩
      · have haccept : stage.accept row known = (.error e, (stage.accept row known).2) :=
          Prod.ext (hanswer.trans hrow) rfl
        exact ⟨stage, _, feed_cons_of_error haccept⟩
      · have haccept : stage.accept row known = (.ok (mid, first), (stage.accept row known).2) :=
          Prod.ext (hanswer.trans hrow) rfl
        have hrows : mid.steps rows = .error e :=
          error_of_bind_eq_error (fun _ => ⟨_, rfl⟩) h
        obtain ⟨after, later, hfeed⟩ := ih hsound hrows
        refine ⟨after, later, ?_⟩
        rw [feed_cons_of_ok haccept, hfeed]
        rfl

end Stage

namespace Stages

theorem push_of_pushes_eq_error {rows : List Row} {stages : List Stage} {known : Patterns}
    {e : Error} (hknown : known.Sound) (h : pushes rows stages = .error e) :
    ∃ (after : List Stage) (later : Patterns),
      push stages rows known = (.error e, after, later) := by
  induction stages generalizing rows known with
  | nil => cases h
  | cons stage rest ih =>
      rcases except_bind_eq_error.1 h with hstage | ⟨⟨next, out⟩, hstage, h⟩
      · obtain ⟨after, later, hfeed⟩ := Stage.feed_of_steps_eq_error hknown hstage
        exact ⟨after :: rest, later, by rw [push, hfeed]⟩
      · have hrest : pushes out rest = .error e :=
          error_of_bind_eq_error (fun _ => ⟨_, rfl⟩) h
        obtain ⟨later, hlater, hfeed⟩ := Stage.feed_of_steps hknown hstage
        obtain ⟨others, final, hpush⟩ := ih hlater hrest
        refine ⟨next :: others, final, ?_⟩
        rw [push, hfeed]
        simp only [hpush]

theorem finish_of_whole_eq_error {rows : List Row} {stages : List Stage} {known : Patterns}
    {e : Error} (hknown : known.Sound) (h : whole rows stages = .error e) :
    (finish stages rows known).1 = .error e := by
  induction stages generalizing rows known with
  | nil => cases h
  | cons stage rest ih =>
      rcases except_bind_eq_error.1 h with hstage | ⟨out, hstage, hrest⟩
      · have hsteps : stage.steps rows = .error e :=
          error_of_bind_eq_error (fun _ => ⟨_, rfl⟩) hstage
        obtain ⟨after, later, hfeed⟩ := Stage.feed_of_steps_eq_error hknown hsteps
        rw [finish, hfeed]
      · obtain ⟨⟨next, passed⟩, hsteps, hout⟩ := except_bind_eq_ok.1 hstage
        cases hout
        obtain ⟨later, hlater, hfeed⟩ := Stage.feed_of_steps hknown hsteps
        rw [finish, hfeed]
        exact ih hlater hrest

variable {σ : Type}

/-- Finishes the input and writes the rows that were held back, with every row taken afresh. -/
def drainAfresh (sink : Sink σ) (stages : List Stage) (s : σ) : Outcome σ :=
  match whole [] stages with
  | .error e => ⟨.error e, 0, s⟩
  | .ok rows =>
    match sink.writeAll rows s with
    | (.error e, s) => ⟨.error e, 0, s⟩
    | (.ok (), s) =>
      let (result, s) := sink.finish s
      ⟨result, 0, s⟩

/-- Takes the items of a source in turn, every row afresh. -/
def runAfresh (sink : Sink σ) : List (Except Error Row) → List Stage → σ → Outcome σ
  | [], stages, s => drainAfresh sink stages s
  | .error e :: _, _, s => ⟨.error e, 1, s⟩
  | .ok row :: source, stages, s =>
    match pushes [row] stages with
    | .error e => ⟨.error e, 1, s⟩
    | .ok (stages, rows) =>
      match sink.writeAll rows s with
      | (.error e, s) => ⟨.error e, 1, s⟩
      | (.ok (), s) =>
        let rest := if Pipeline.isStopped { stages } then drainAfresh sink stages s
          else runAfresh sink source stages s
        { rest with pulled := rest.pulled + 1 }

end Stages

namespace Pipeline

variable {σ : Type} {sink : Sink σ} {known : Patterns}

theorem drain_eq_drainAfresh (hknown : known.Sound) (stages : List Stage) (s : σ) :
    drain sink ⟨stages, known⟩ s = Stages.drainAfresh sink stages s := by
  have hfinish : (finish ⟨stages, known⟩).1 = Stages.whole [] stages := by
    cases h : Stages.whole [] stages with
    | error e => exact Stages.finish_of_whole_eq_error hknown h
    | ok rows => exact Stages.finish_of_whole hknown h
  unfold drain Stages.drainAfresh
  exact hfinish ▸ rfl

theorem run_eq_runAfresh (source : List (Except Error Row)) (hknown : known.Sound)
    (stages : List Stage) (s : σ) :
    run sink source ⟨stages, known⟩ s = Stages.runAfresh sink source stages s := by
  induction source generalizing stages known s with
  | nil => exact drain_eq_drainAfresh hknown stages s
  | cons item source ih =>
      cases item with
      | error e => rfl
      | ok row =>
          rw [run, Stages.runAfresh]
          cases h : Stages.pushes [row] stages with
          | error e =>
              obtain ⟨after, later, hstages⟩ := Stages.push_of_pushes_eq_error hknown h
              have hpush : push ⟨stages, known⟩ row = (.error e, ⟨after, later⟩) := by
                rw [push, hstages]
              rw [hpush]
          | ok pushed =>
              obtain ⟨after, out⟩ := pushed
              obtain ⟨later, hlater, hstages⟩ := Stages.push_of_pushes hknown h
              have hpush : push ⟨stages, known⟩ row = (.ok out, ⟨after, later⟩) := by
                rw [push, hstages]
              -- the stages have become the same; only the patterns behind them differ
              rw [hpush]
              simp only [ih hlater, drain_eq_drainAfresh hlater]
              rfl

end Pipeline

/-- A run of a query in which every expression is evaluated afresh. -/
def Query.runAfresh {σ : Type} (q : Query) (source : List (Except Error Row)) (sink : Sink σ)
    (s : σ) : Outcome σ :=
  Stages.runAfresh sink source q.stages s

/-- After any evaluations, an expression has the value or the error that it has when no pattern is
known, and as many patterns are known as there are different texts that these evaluations asked for.
A stage that knows no patterns does with a row what it does with every expression evaluated afresh,
and a run in which all stages do so is the run of the query. -/
theorem Patterns.sharing_changes_nothing :
    (∀ earlier : List (Row × Expr),
      (∀ (row : Row) (e : Expr), (e.eval row (evaluated earlier)).1 = e.value row) ∧
      (evaluated earlier).size =
        (earlier.flatMap fun (row, e) => e.asked row).toFinset.card) ∧
    (∀ (row : Row) (stage : Stage), stage.step row = stage.stepAfresh row) ∧
    ∀ {σ : Type} (q : Query) (source : List (Except Error Row)) (sink : Sink σ) (s : σ),
      q.run source sink s = q.runAfresh source sink s := by
  refine ⟨fun earlier => ?_, fun row stage => stage.step_eq_stepAfresh row, ?_⟩
  · obtain ⟨hsound, hread⟩ := evaluated_spec earlier
    refine ⟨fun row e => (e.transparent_eval row _ hsound).1, ?_⟩
    rw [hread, size_read]
  · intro σ q source sink s
    exact Pipeline.run_eq_runAfresh source sound_empty q.stages s

/-- The pattern of a branch that is not taken is not asked for, nor is one behind a failure; one
that is asked for again counts once. -/
example :
    let like pattern := Expr.binary .like (.string "ab") (.string pattern)
    let branch := Expr.case none [(like "a%", like "%b"), (like "c%", like "%d")] none
    let failing := Expr.binary .and (like "a%") (.binary .or (.identifier "x") (like "e"))
    (Patterns.evaluated [({}, branch), ({}, failing)]).keys = ["a%", "%b"] := by
  decide +kernel

end TableQuery
