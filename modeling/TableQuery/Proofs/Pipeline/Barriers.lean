import TableQuery.Proofs.Pipeline.Calls

/-!
# Stages that hold rows back

A grouping or a sorting evaluates all it needs of a row before it takes the row in. So a row that
fails changes nothing of what is held, and each time the input is finished, what is passed on is
what a new stage would pass on that had taken only the rows accepted since the time before.
-/

namespace TableQuery

/-- A call and the answer to it. -/
abbrev Answered := Call × Except Error (List Row)

/-- The rows accepted since the input was last finished. -/
def accepted (history : List Answered) : List Row :=
  history.foldl (fun rows entry =>
    match entry with
    | (.finish, _) => []
    | (.take row, .ok _) => rows ++ [row]
    | (.take _, .error _) => rows) []

namespace Stage

open Evaluation

/-- The expressions that a stage evaluates on a row that it takes, in order. -/
def reads : Stage → List Expr
  | filter _ condition => [condition]
  | group g => g.keys ++ g.aggregates.map (·.argument)
  | sort s => s.terms.map (·.expr)
  | skip _ | limit _ => []
  | project select => select.exprs

theorem reads_finish (stage : Stage) : stage.finish.1.reads = stage.reads := by
  cases stage <;> rfl

theorem Initial.finish {stage : Stage} (h : stage.Initial) : stage.finish = (stage, []) := by
  cases h with
  | sort terms => simp [Stage.finish, Sorting.rows, Sorting.reset]
  | _ => rfl

theorem Alike.finish {stage after : Stage} (h : stage.Alike after)
    (hbarrier : stage.role = .barrier) : after.finish.1 = stage.finish.1 := by
  cases h with
  | group g groups => rfl
  | sort s buffer => rfl
  | _ => cases hbarrier

section Reuse

variable [PatternEngine] {stage after fresh held : Stage} {row : Row} {out : List Row}
  {history : List Answered} {known : Patterns} {e : Error}

/-- Answers a call. Behind the answer stand the stage and the patterns afterwards. -/
def call : Call → Stage → Patterns → Except Error (List Row) × Stage × Patterns
  | .take row, stage, known => stage.process row known
  | .finish, stage, known => (.ok stage.finish.2, stage.finish.1, known)

/-- A stage answers calls one after another, whatever its answers are. In between, other stages
may have read further patterns. -/
inductive Serves (stage : Stage) : List Answered → Stage → Prop where
  | start : Serves stage [] stage
  | call {held after : Stage} {history : List Answered} {c : Call}
      {answer : Except Error (List Row)} {known later : Patterns} (h : Serves stage history held)
      (hknown : known.Sound) (hcall : held.call c known = (answer, after, later)) :
      Serves stage (history ++ [(c, answer)]) after

/-- What a stage that holds rows back evaluates of a row decides whether it takes the row. -/
theorem step_barrier {stage : Stage} (h : stage.role = .barrier) (row : Row) :
    (fun _ => ()) <$> stage.step row = (fun _ => ()) <$> stage.reads.mapM (Expr.value row) := by
  cases stage with
  | group g =>
      have hstep : (group g).step row = (g.accept row).value >>= fun g => .ok (group g, []) :=
        (step_eq row (group g)).trans ((g.transparent_accept row).value_bind _ fun _ => .pure _)
      rw [hstep, Grouping.value_accept_eq, Grouping.inputs, reads, List.mapM_append, List.mapM_map]
      simp only [map_eq_pure_bind, bind_assoc, pure_bind]
      rfl
  | sort s =>
      have hstep : (sort s).step row = (s.accept row).value >>= fun s => .ok (sort s, []) :=
        (step_eq row (sort s)).trans ((s.transparent_accept row).value_bind _ fun _ => .pure _)
      rw [hstep, Sorting.value_accept_eq, Sorting.keyed, reads, List.mapM_map]
      simp only [map_eq_pure_bind, bind_assoc, pure_bind]
      rfl
  | _ => cases h

/-- Taking rows does not change what becomes of a stage at the end. -/
theorem finish_of_steps {rows : List Row} (h : stage.role = .barrier)
    (hsteps : stage.steps rows = .ok (after, out)) : after.finish.1 = stage.finish.1 := by
  induction rows generalizing stage out with
  | nil =>
      cases hsteps
      rfl
  | cons row rows ih =>
      obtain ⟨mid, first, more, hfirst, hmore, rfl⟩ := steps_cons_eq_ok.1 hsteps
      have halike := (accept_cases (Prod.ext ((stage.step_eq row).symm.trans hfirst) rfl)).1
      exact (ih (halike.role.trans h) hmore).trans (halike.finish h)

theorem call_take_of_error (hknown : known.Sound) (h : stage.step row = .error e) :
    ∃ later, stage.call (.take row) known = (.error e, stage, later) := by
  have hanswer := (accept_of_sound hknown row stage).1.trans h
  exact ⟨_, process_of_error (Prod.ext hanswer rfl)⟩

theorem call_take_of_ok (hknown : known.Sound) (h : stage.step row = .ok (after, out)) :
    ∃ later, stage.call (.take row) known = (.ok out, after, later) := by
  have hanswer := (accept_of_sound hknown row stage).1.trans h
  exact ⟨_, process_of_ok (Prod.ext hanswer rfl)⟩

/-- What a stage holds is what a new one holds that has taken the accepted rows alone. -/
theorem Serves.steps (h : fresh.Serves history held) (hinitial : fresh.Initial)
    (hbarrier : fresh.role = .barrier) :
    fresh.steps (accepted history) = .ok (held, []) := by
  induction h with
  | start => rfl
  | @call held after history c answer known later h hknown hcall ih =>
      have hrole : held.role = .barrier := (steps_cases ih).1.trans hbarrier
      rw [accepted, List.foldl_append]
      cases c with
      | finish =>
          -- what is left is a new stage
          cases hcall
          have hreset := (finish_of_steps hbarrier ih).trans (congrArg Prod.fst hinitial.finish)
          rw [hreset]
          rfl
      | take row =>
          cases hstep : held.step row with
          | error e =>
              obtain ⟨_, herror⟩ := call_take_of_error hknown hstep
              cases hcall.symm.trans herror
              exact ih
          | ok result =>
              obtain ⟨next, out⟩ := result
              obtain ⟨_, hok⟩ := call_take_of_ok hknown hstep
              cases hcall.symm.trans hok
              obtain rfl : out = [] := (step_cases hstep).2.1 hrole
              exact steps_append_eq_ok ih (steps_cons_eq_ok.2 ⟨after, [], [], hstep, rfl, rfl⟩)

/-- After any calls, a grouping or a sorting takes a row just when all that it evaluates of the row
has a value, and then passes nothing on; otherwise it answers with the first error and is left as it
was. It is what a new stage becomes with the rows accepted since the last end alone, so at the next
end it passes on what that stage would, and it is new again. -/
theorem barrier_keeps_accepted (hinitial : fresh.Initial) (hbarrier : fresh.role = .barrier)
    (h : fresh.Serves history held) (hknown : known.Sound) :
    (∀ row e, fresh.reads.mapM (Expr.value row) = .error e →
      ∃ later, held.call (.take row) known = (.error e, held, later)) ∧
    (∀ row values, fresh.reads.mapM (Expr.value row) = .ok values →
      ∃ after later, held.call (.take row) known = (.ok [], after, later)) ∧
    (∃ later, fresh.feed (accepted history) known = (.ok [], held, later)) ∧
    held.call .finish known = (.ok held.finish.2, fresh, known) := by
  have hsteps := h.steps hinitial hbarrier
  have hrole : held.role = .barrier := (steps_cases hsteps).1.trans hbarrier
  have hreset : held.finish.1 = fresh :=
    (finish_of_steps hbarrier hsteps).trans (congrArg Prod.fst hinitial.finish)
  have hreads : held.reads = fresh.reads := by rw [← held.reads_finish, hreset]
  obtain ⟨later, -, hfed⟩ := feed_of_steps hknown hsteps
  refine ⟨fun row e herror => ?_, fun row values hvalues => ?_, ⟨later, hfed⟩, ?_⟩
  · have hstep := step_barrier hrole row
    rw [hreads, herror] at hstep
    cases hheld : held.step row with
    | error e' =>
        rw [hheld] at hstep
        cases hstep
        exact call_take_of_error hknown hheld
    | ok result =>
        rw [hheld] at hstep
        cases hstep
  · have hstep := step_barrier hrole row
    rw [hreads, hvalues] at hstep
    obtain ⟨⟨after, out⟩, hheld, -⟩ := except_map_eq_ok.1 hstep
    obtain rfl : out = [] := (step_cases hheld).2.1 hrole
    obtain ⟨last, hcall⟩ := call_take_of_ok hknown hheld
    exact ⟨after, last, hcall⟩
  · rw [call, hreset]

end Reuse

/-- The second row fails for its second key and the third one for the argument of the aggregate.
Neither leaves a trace in the group that is passed on, and the group after it starts anew. -/
theorem barrier_keeps_accepted_past_failures :
    let fresh : Stage := .group {
      keys := [.identifier "a", .identifier "b"]
      aggregates := [⟨.groupConcat, .identifier "v", ⟨7⟩⟩] }
    let row (v : String) : Row := .ofList [("a", .text "x"), ("b", .text "1"), ("v", .text v)]
    let keyless : Row := .ofList [("a", .text "y"), ("v", .text "q")]
    let bare : Row := .ofList [("a", .text "x"), ("b", .text "1")]
    let sum (v joined : String) : Row := (row v).withAggregates (.ofList [(⟨7⟩, .text joined)])
    let history : List Answered := [(.take (row "p"), .ok []),
      (.take keyless, .error (.columnNotFound "b")), (.take bare, .error (.columnNotFound "v")),
      (.take (row "r"), .ok []), (.finish, .ok [sum "p" "pr"]), (.take (row "s"), .ok [])]
    ∃ held, fresh.Serves history held ∧ accepted history = [row "s"] ∧
      (∃ later, held.call (.take bare) ∅ = (.error (.columnNotFound "v"), held, later)) ∧
      (∃ later, fresh.feed [row "s"] ∅ = (.ok [], held, later)) ∧
      held.call .finish ∅ = (.ok [sum "s" "s"], fresh, ∅) := by
  intro fresh row keyless bare sum history
  have hsound := Patterns.sound_empty
  have hserves : fresh.Serves history _ :=
    (((((Serves.start.call hsound rfl).call hsound rfl).call hsound rfl).call hsound rfl).call
      hsound rfl).call hsound rfl
  obtain ⟨hrefuses, -, hfed, hfinish⟩ :=
    barrier_keeps_accepted (.group ..) rfl hserves hsound
  exact ⟨_, hserves, rfl, hrefuses bare _ rfl, hfed, hfinish⟩

end Stage

end TableQuery
