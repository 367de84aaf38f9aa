import TableQuery.Proofs.Pipeline.Batches
import TableQuery.Proofs.Query.Meaning

/-! # What each stage does to a batch

A filter keeps the rows on which its condition holds, an offset drops a prefix, a limit keeps one,
a projection maps, and a sorting or a grouping passes on nothing before the end. -/

namespace TableQuery

open Evaluation

variable [PatternEngine]

namespace Sorting

/-- A row with the values it is sorted by. -/
def keyed (terms : List OrderingTerm) (row : Row) : Except Error (List Value × Row) :=
  (fun keys => (keys, row)) <$> terms.mapM fun t => t.expr.value row

/-- Rows with their keys, in the order of their keys. -/
def sorted {α : Type} (terms : List OrderingTerm) (l : List (List Value × α)) : List α :=
  (l.mergeSort fun a b => (compareKeys terms a.1 b.1).isLE).map (·.2)

theorem value_accept_eq (s : Sorting) (row : Row) :
    (s.accept row).value =
      (fun entry => { s with buffer := s.buffer.push entry }) <$> keyed s.terms row := by
  have hbind := (Expr.transparent_evalAll row (s.terms.map OrderingTerm.expr)).value_bind
    (fun keys => (pure { s with buffer := s.buffer.push (keys, row) } : Evaluation Sorting))
    fun _ => .pure _
  refine hbind.trans ?_
  rw [Expr.value_evalAll, List.mapM_map, keyed, ← comp_map, map_eq_pure_bind]
  rfl

theorem value_accept {s : Sorting} {row : Row} {entry : List Value × Row}
    (h : keyed s.terms row = .ok entry) :
    (s.accept row).value = .ok { s with buffer := s.buffer.push entry } := by
  rw [value_accept_eq, h]
  rfl

end Sorting

namespace Grouping

/-- The texts of the keys and the values of the arguments on a row. -/
def inputs (keys : List Expr) (aggregates : List Aggregate) (row : Row) :
    Except Error (List String × List Value) := do
  let texts ← keys.mapM (Expr.value row)
  let values ← aggregates.mapM fun a => a.argument.value row
  return (texts.map Value.toText, values)

/-- The tree of groups with one more row. -/
def enter (aggregates : List Aggregate) (groups : KeyTree Row)
    (entry : Row × List String × List Value) : KeyTree Row :=
  groups.alter (representative aggregates entry.1 entry.2.2) entry.2.1

/-- The grouping with one more row. -/
def entered (g : Grouping) (entry : Row × List String × List Value) : Grouping :=
  { g with groups := enter g.aggregates g.groups entry }

omit [PatternEngine] in
theorem foldl_entered (g : Grouping) (l : List (Row × List String × List Value)) :
    l.foldl entered g = { g with groups := l.foldl (enter g.aggregates) g.groups } := by
  induction l generalizing g with
  | nil => rfl
  | cons entry l ih => exact ih (g.entered entry)

theorem value_accept_eq (g : Grouping) (row : Row) :
    (g.accept row).value =
      (fun read => g.entered (row, read)) <$> inputs g.keys g.aggregates row := by
  have hinner := fun keys : List Value =>
    (Expr.transparent_evalAll row (g.aggregates.map Aggregate.argument)).value_bind
      (fun values => (pure (g.entered (row, keys.map Value.toText, values)) : Evaluation Grouping))
      fun _ => .pure _
  have houter := (Expr.transparent_evalAll row g.keys).value_bind
    (fun keys => do
      let values ← Expr.evalAll row (g.aggregates.map Aggregate.argument)
      (pure (g.entered (row, keys.map Value.toText, values)) : Evaluation Grouping))
    fun _ => (Expr.transparent_evalAll row _).bind fun _ => .pure _
  refine houter.trans ?_
  simp only [hinner, Expr.value_evalAll, List.mapM_map, inputs, map_bind, map_pure]
  rfl

theorem value_accept {g : Grouping} {row : Row} {read : List String × List Value}
    (h : inputs g.keys g.aggregates row = .ok read) :
    (g.accept row).value = .ok (g.entered (row, read)) := by
  rw [value_accept_eq, h]
  rfl

end Grouping

namespace Stage

theorem step_filter {clause : FilterClause} {condition : Expr} {row : Row} {keep : Bool}
    (h : condition.holds row = .ok keep) :
    (filter clause condition).step row =
      .ok (filter clause condition, if keep then [row] else []) := by
  obtain ⟨v, hv, rfl⟩ := except_map_eq_ok.1 h
  rw [step_eq]
  exact ((Expr.transparent_eval row condition).value_bind _ fun _ => .pure _).trans
    (except_bind_eq_ok.2 ⟨v, hv, rfl⟩)

theorem steps_filter {clause : FilterClause} {condition : Expr} {rows kept : List Row}
    (h : (rows.filterM fun row => condition.holds row) = .ok kept) :
    (filter clause condition).steps rows = .ok (filter clause condition, kept) := by
  induction rows generalizing kept with
  | nil =>
      cases h
      rfl
  | cons row rows ih =>
      rw [filterM_cons] at h
      obtain ⟨keep, hkeep, h⟩ := except_bind_eq_ok.1 h
      obtain ⟨rest, hrest, h⟩ := except_bind_eq_ok.1 h
      cases h
      refine steps_cons_eq_ok.2 ⟨_, _, rest, step_filter hkeep, ih hrest, ?_⟩
      cases keep <;> rfl

theorem whole_filter {clause : FilterClause} {condition : Expr} {rows kept : List Row}
    (h : (rows.filterM fun row => condition.holds row) = .ok kept) :
    (filter clause condition).whole rows = .ok kept := by
  refine except_bind_eq_ok.2 ⟨_, steps_filter h, ?_⟩
  exact congrArg Except.ok (List.append_nil kept)

theorem steps_skip (count : Nat) (rows : List Row) :
    (skip count).steps rows = .ok (skip (count - rows.length), rows.drop count) := by
  induction rows generalizing count with
  | nil => simp [steps]
  | cons row rows ih =>
      cases count with
      | zero => exact steps_cons_eq_ok.2 ⟨skip 0, [row], rows, rfl, by simpa using ih 0, rfl⟩
      | succ n =>
          refine steps_cons_eq_ok.2 ⟨skip n, [], rows.drop n, rfl, ?_, rfl⟩
          simpa using ih n

theorem whole_skip (count : Nat) (rows : List Row) :
    (skip count).whole rows = .ok (rows.drop count) := by
  refine except_bind_eq_ok.2 ⟨_, steps_skip count rows, ?_⟩
  exact congrArg Except.ok (List.append_nil _)

/-- A limit passes a prefix on and never fails. The first row behind that prefix makes it ask for
the end, unless it has done so before. -/
theorem feed_limit (l : Limit) (rows : List Row) (known : Patterns) :
    ∃ after : Limit, (limit l).feed rows known = (.ok (rows.take l.remaining), limit after, known) ∧
      after.remaining = l.remaining - rows.length ∧
      after.isTerminated = (l.isTerminated || decide (l.remaining < rows.length)) ∧
      after.signals =
        l.signals + if l.remaining < rows.length ∧ l.isTerminated = false then 1 else 0 := by
  induction rows generalizing l with
  | nil => exact ⟨l, by simp [feed], by simp, by simp, by simp⟩
  | cons row rows ih =>
      obtain ⟨after, hfeed, hremaining, hterminated, hsignals⟩ := ih l.take.2
      have hcons : (limit l).feed (row :: rows) known =
          ((Except.ok (rows.take l.take.2.remaining)).map
            ((if l.take.1 then [row] else []) ++ ·), limit after, known) := by
        have haccept : (limit l).accept row known =
            (.ok (limit l.take.2, if l.take.1 then [row] else []), known) := rfl
        rw [feed_cons_of_ok haccept, hfeed]
      refine ⟨after, ?_⟩
      rw [hcons, hremaining, hterminated, hsignals]
      obtain ⟨_ | n, isTerminated, signals⟩ := l
      · cases isTerminated <;> simp [Limit.take, Except.map]
      · have hlonger : n + 1 < (row :: rows).length ↔ n < rows.length := by simp
        simp only [Limit.take, hlonger]
        exact ⟨rfl, (Nat.succ_sub_succ n rows.length).symm, rfl, rfl⟩

theorem steps_limit (l : Limit) (rows : List Row) :
    ∃ after : Limit, (limit l).steps rows = .ok (limit after, rows.take l.remaining) ∧
      after.remaining = l.remaining - rows.length ∧
      after.isTerminated = (l.isTerminated || decide (l.remaining < rows.length)) ∧
      after.signals =
        l.signals + if l.remaining < rows.length ∧ l.isTerminated = false then 1 else 0 := by
  obtain ⟨after, hfeed, hafter⟩ := feed_limit l rows ∅
  exact ⟨after, (steps_of_feed Patterns.sound_empty hfeed).1, hafter⟩

theorem whole_limit (l : Limit) (rows : List Row) :
    (limit l).whole rows = .ok (rows.take l.remaining) := by
  obtain ⟨after, hsteps, -⟩ := steps_limit l rows
  refine except_bind_eq_ok.2 ⟨_, hsteps, ?_⟩
  exact congrArg Except.ok (List.append_nil _)

theorem steps_project {select : Selection} {rows out : List Row}
    (h : (rows.mapM fun row => (select.project row).value) = .ok out) :
    (project select).steps rows = .ok (project select, out) := by
  induction rows generalizing out with
  | nil =>
      cases h
      rfl
  | cons row rows ih =>
      obtain ⟨first, rest, hfirst, hrest, rfl⟩ := mapM_cons_eq_ok.1 h
      refine steps_cons_eq_ok.2 ⟨_, [first], rest, ?_, ih hrest, rfl⟩
      rw [step_eq]
      exact ((select.transparent_project row).value_bind _ fun _ => .pure _).trans
        (except_bind_eq_ok.2 ⟨first, hfirst, rfl⟩)

theorem whole_project {select : Selection} {rows out : List Row}
    (h : (rows.mapM fun row => (select.project row).value) = .ok out) :
    (project select).whole rows = .ok out := by
  refine except_bind_eq_ok.2 ⟨_, steps_project h, ?_⟩
  exact congrArg Except.ok (List.append_nil out)

theorem steps_sort {s : Sorting} {rows : List Row} {entries : List (List Value × Row)}
    (h : rows.mapM (Sorting.keyed s.terms) = .ok entries) :
    (sort s).steps rows = .ok (sort { s with buffer := s.buffer ++ entries.toArray }, []) := by
  induction rows generalizing s entries with
  | nil =>
      cases h
      simp [steps]
  | cons row rows ih =>
      obtain ⟨first, rest, hfirst, hrest, rfl⟩ := mapM_cons_eq_ok.1 h
      refine steps_cons_eq_ok.2
        ⟨sort { s with buffer := s.buffer.push first }, [], [], ?_, ?_, rfl⟩
      · rw [step_eq]
        exact ((s.transparent_accept row).value_bind _ fun _ => .pure _).trans
          (except_bind_eq_ok.2 ⟨_, Sorting.value_accept hfirst, rfl⟩)
      · rw [ih (s := { s with buffer := s.buffer.push first }) hrest]
        simp

theorem whole_sort {terms : List OrderingTerm} {rows : List Row}
    {entries : List (List Value × Row)} (h : rows.mapM (Sorting.keyed terms) = .ok entries) :
    (sort { terms }).whole rows = .ok (Sorting.sorted terms entries) := by
  refine except_bind_eq_ok.2 ⟨_, steps_sort h, ?_⟩
  simp only [finish, Sorting.rows, Array.empty_append, List.nil_append]
  rfl

theorem steps_group {g : Grouping} {rows : List Row} {read : List (List String × List Value)}
    (h : rows.mapM (Grouping.inputs g.keys g.aggregates) = .ok read) :
    (group g).steps rows = .ok (group ((rows.zip read).foldl Grouping.entered g), []) := by
  induction rows generalizing g read with
  | nil => rfl
  | cons row rows ih =>
      obtain ⟨first, rest, hfirst, hrest, rfl⟩ := mapM_cons_eq_ok.1 h
      refine steps_cons_eq_ok.2 ⟨group (g.entered (row, first)), [], [], ?_, ih hrest, rfl⟩
      rw [step_eq]
      exact ((g.transparent_accept row).value_bind _ fun _ => .pure _).trans
        (except_bind_eq_ok.2 ⟨_, Grouping.value_accept hfirst, rfl⟩)

theorem whole_group {keys : List Expr} {aggregates : List Aggregate} {rows : List Row}
    {read : List (List String × List Value)}
    (h : rows.mapM (Grouping.inputs keys aggregates) = .ok read) :
    (group { keys, aggregates }).whole rows =
      .ok ((rows.zip read).foldl (Grouping.enter aggregates) ∅).toList := by
  refine except_bind_eq_ok.2 ⟨_, steps_group (g := { keys, aggregates }) h, ?_⟩
  rw [Grouping.foldl_entered]
  rfl

end Stage

end TableQuery
