import TableQuery.Proofs.Failure
import TableQuery.Proofs.Pipeline.Accepting

/-! # Rows in batches

What stages make of a batch of rows, apart from the patterns they remember. A batch may be cut
anywhere: its rows can be pushed one part after the other, and what comes out is the same. -/

namespace TableQuery

open Evaluation

variable [PatternEngine]

namespace Grouping

theorem transparent_accept (g : Grouping) (row : Row) : (g.accept row).Transparent :=
  (Expr.transparent_evalAll row g.keys).bind fun _ =>
    (Expr.transparent_evalAll row (g.aggregates.map (·.argument))).bind fun _ => .pure _

end Grouping

namespace Sorting

theorem transparent_accept (s : Sorting) (row : Row) : (s.accept row).Transparent :=
  (Expr.transparent_evalAll row (s.terms.map OrderingTerm.expr)).bind fun _ => .pure _

end Sorting

namespace Selection

theorem transparent_fill (row : Row) (l : List OutputColumn) (result : Row) :
    (fill row l result).Transparent := by
  induction l generalizing result with
  | nil => exact .pure _
  | cons c rest ih => exact (Expr.transparent_eval row c.expr).bind fun v => ih _

theorem transparent_project (select : Selection) (row : Row) :
    (select.project row).Transparent := by
  cases select with
  | all => exact .pure _
  | columns l => exact transparent_fill row l {}

end Selection

namespace Stage

theorem transparent_accept (row : Row) (stage : Stage) : (stage.accept row).Transparent := by
  cases stage with
  | filter clause condition =>
      exact (Expr.transparent_eval row condition).bind fun v => .pure _
  | group g => exact (g.transparent_accept row).bind fun g => .pure _
  | sort s => exact (s.transparent_accept row).bind fun s => .pure _
  | skip count =>
      cases count with
      | zero => exact .pure _
      | succ n => exact .pure _
  | limit l => exact .pure _
  | project select => exact (select.transparent_project row).bind fun out => .pure _

/-- The stage after a row, and the rows it passes on. -/
def step (row : Row) (stage : Stage) : Except Error (Stage × List Row) :=
  match stage.process row ∅ with
  | (.error e, _, _) => .error e
  | (.ok out, after, _) => .ok (after, out)

theorem step_eq (row : Row) (stage : Stage) : stage.step row = (stage.accept row).value := by
  rw [step, process_eq, value]
  rcases stage.accept row ∅ with ⟨_ | _, later⟩ <;> rfl

theorem accept_of_sound {known : Patterns} (hknown : known.Sound) (row : Row) (stage : Stage) :
    (stage.accept row known).1 = stage.step row ∧ Patterns.Sound (stage.accept row known).2 := by
  rw [step_eq]
  exact stage.transparent_accept row known hknown

/-- The stage after a batch of rows, and all rows it passes on. -/
def steps : List Row → Stage → Except Error (Stage × List Row)
  | [], stage => .ok (stage, [])
  | row :: rows, stage => do
    let (stage, out) ← stage.step row
    let (stage, more) ← stage.steps rows
    return (stage, out ++ more)

/-- What a stage passes on of a batch of rows, when no other rows follow. -/
def whole (rows : List Row) (stage : Stage) : Except Error (List Row) := do
  let (stage, out) ← stage.steps rows
  return out ++ stage.finish.2

theorem steps_cons_eq_ok {row : Row} {rows out : List Row} {stage after : Stage} :
    stage.steps (row :: rows) = .ok (after, out) ↔ ∃ mid first more,
      stage.step row = .ok (mid, first) ∧ mid.steps rows = .ok (after, more) ∧
        out = first ++ more := by
  rw [steps, except_bind_eq_ok]
  constructor
  · rintro ⟨⟨mid, first⟩, hfirst, h⟩
    obtain ⟨⟨last, more⟩, hmore, h⟩ := except_bind_eq_ok.1 h
    cases h
    exact ⟨mid, first, more, hfirst, hmore, rfl⟩
  · rintro ⟨mid, first, more, hfirst, hmore, rfl⟩
    exact ⟨(mid, first), hfirst, except_bind_eq_ok.2 ⟨(after, more), hmore, rfl⟩⟩

/-- A batch is taken in two parts, the second by the stage that the first leaves behind. -/
theorem steps_append {early late out : List Row} {stage after : Stage}
    (h : stage.steps (early ++ late) = .ok (after, out)) :
    ∃ mid first more, stage.steps early = .ok (mid, first) ∧
      mid.steps late = .ok (after, more) ∧ out = first ++ more := by
  induction early generalizing stage out with
  | nil => exact ⟨stage, [], out, rfl, h, rfl⟩
  | cons row early ih =>
      obtain ⟨next, first, more, hfirst, hmore, rfl⟩ := steps_cons_eq_ok.1 h
      obtain ⟨mid, second, rest, hsecond, hrest, rfl⟩ := ih hmore
      refine ⟨mid, first ++ second, rest, ?_, hrest, (List.append_assoc ..).symm⟩
      exact steps_cons_eq_ok.2 ⟨next, first, second, hfirst, hsecond, rfl⟩

theorem steps_append_eq_ok {early late first more : List Row} {stage mid after : Stage}
    (hearly : stage.steps early = .ok (mid, first)) (hlate : mid.steps late = .ok (after, more)) :
    stage.steps (early ++ late) = .ok (after, first ++ more) := by
  induction early generalizing stage first with
  | nil =>
      cases hearly
      exact hlate
  | cons row early ih =>
      obtain ⟨next, one, rest, hone, hrest, rfl⟩ := steps_cons_eq_ok.1 hearly
      exact steps_cons_eq_ok.2 ⟨next, one, rest ++ more, hone, ih hrest, List.append_assoc ..⟩

/-- Patterns known before do not change what a batch leads to. -/
theorem feed_of_steps {rows out : List Row} {stage after : Stage} {known : Patterns}
    (hknown : known.Sound) (h : stage.steps rows = .ok (after, out)) :
    ∃ later : Patterns, later.Sound ∧ stage.feed rows known = (.ok out, after, later) := by
  induction rows generalizing stage out known with
  | nil =>
      cases h
      exact ⟨known, hknown, rfl⟩
  | cons row rows ih =>
      obtain ⟨mid, first, more, hfirst, hmore, rfl⟩ := steps_cons_eq_ok.1 h
      obtain ⟨hanswer, hsound⟩ := accept_of_sound hknown row stage
      have haccept : stage.accept row known =
          (.ok (mid, first), (stage.accept row known).2) :=
        Prod.ext (hanswer.trans hfirst) rfl
      obtain ⟨later, hlater, hfeed⟩ := ih hsound hmore
      refine ⟨later, hlater, ?_⟩
      rw [feed_cons_of_ok haccept, hfeed]
      rfl

/-- What a stage that remembers patterns makes of a batch, it makes of it without them. -/
theorem steps_of_feed {rows out : List Row} {stage after : Stage} {known later : Patterns}
    (hknown : known.Sound) (h : stage.feed rows known = (.ok out, after, later)) :
    stage.steps rows = .ok (after, out) ∧ later.Sound := by
  induction rows generalizing stage out known with
  | nil =>
      cases h
      exact ⟨rfl, hknown⟩
  | cons row rows ih =>
      obtain ⟨hanswer, hsound⟩ := accept_of_sound hknown row stage
      rcases haccept : stage.accept row known with ⟨_ | ⟨mid, first⟩, remembered⟩
      · rw [feed_cons_of_error haccept] at h
        cases h
      · rw [feed_cons_of_ok haccept] at h
        rw [haccept] at hanswer hsound
        rcases hfeed : mid.feed rows remembered with ⟨_ | more, last, final⟩
        · rw [hfeed] at h
          cases h
        · rw [hfeed] at h
          cases h
          obtain ⟨hsteps, hfinal⟩ := ih hsound hfeed
          exact ⟨steps_cons_eq_ok.2 ⟨mid, first, more, hanswer.symm, hsteps, rfl⟩, hfinal⟩

end Stage

namespace Stages

/-- The stages after a batch of rows, and the rows that come out. -/
def pushes : List Row → List Stage → Except Error (List Stage × List Row)
  | rows, [] => .ok ([], rows)
  | rows, stage :: rest => do
    let (stage, out) ← stage.steps rows
    let (rest, out) ← pushes out rest
    return (stage :: rest, out)

theorem pushes_cons_eq_ok {rows out : List Row} {stage : Stage} {rest after : List Stage} :
    pushes rows (stage :: rest) = .ok (after, out) ↔ ∃ next mid others,
      stage.steps rows = .ok (next, mid) ∧ pushes mid rest = .ok (others, out) ∧
        after = next :: others := by
  rw [pushes, except_bind_eq_ok]
  constructor
  · rintro ⟨⟨next, mid⟩, hsteps, h⟩
    obtain ⟨⟨others, last⟩, hrest, h⟩ := except_bind_eq_ok.1 h
    cases h
    exact ⟨next, mid, others, hsteps, hrest, rfl⟩
  · rintro ⟨next, mid, others, hsteps, hrest, rfl⟩
    exact ⟨(next, mid), hsteps, except_bind_eq_ok.2 ⟨(others, out), hrest, rfl⟩⟩

/-- The rows that come out of a batch of rows, when no other rows follow. -/
def whole : List Row → List Stage → Except Error (List Row)
  | rows, [] => .ok rows
  | rows, stage :: rest => do
    let out ← stage.whole rows
    whole out rest

theorem whole_append (rows : List Row) (front back : List Stage) :
    whole rows (front ++ back) = whole rows front >>= fun out => whole out back := by
  induction front generalizing rows with
  | nil => rfl
  | cons stage front ih =>
      simp only [List.cons_append, whole, ih, bind_assoc]

theorem push_of_pushes {rows out : List Row} {stages after : List Stage} {known : Patterns}
    (hknown : known.Sound) (h : pushes rows stages = .ok (after, out)) :
    ∃ later : Patterns, later.Sound ∧ push stages rows known = (.ok out, after, later) := by
  induction stages generalizing rows after known with
  | nil =>
      cases h
      exact ⟨known, hknown, rfl⟩
  | cons stage rest ih =>
      obtain ⟨next, mid, others, hsteps, hrest, rfl⟩ := pushes_cons_eq_ok.1 h
      obtain ⟨later, hlater, hfeed⟩ := Stage.feed_of_steps hknown hsteps
      obtain ⟨final, hfinal, hpush⟩ := ih hlater hrest
      refine ⟨final, hfinal, ?_⟩
      rw [push, hfeed]
      simp only [hpush]

theorem pushes_of_push {rows out : List Row} {stages after : List Stage} {known later : Patterns}
    (hknown : known.Sound) (h : push stages rows known = (.ok out, after, later)) :
    pushes rows stages = .ok (after, out) ∧ later.Sound := by
  induction stages generalizing rows after known with
  | nil =>
      cases h
      exact ⟨rfl, hknown⟩
  | cons stage rest ih =>
      rw [push] at h
      split at h
      · cases h
      · next mid next remembered hfeed =>
        obtain ⟨hsteps, hsound⟩ := Stage.steps_of_feed hknown hfeed
        generalize hpush : push rest mid remembered = pushed at h
        obtain ⟨answer, others, final⟩ := pushed
        cases h
        obtain ⟨hrest, hfinal⟩ := ih hsound hpush
        exact ⟨pushes_cons_eq_ok.2 ⟨next, mid, others, hsteps, hrest, rfl⟩, hfinal⟩

/-- Two batches, one after the other, are one batch. -/
theorem pushes_append {early late first more : List Row} {stages mid after : List Stage}
    (hearly : pushes early stages = .ok (mid, first))
    (hlate : pushes late mid = .ok (after, more)) :
    pushes (early ++ late) stages = .ok (after, first ++ more) := by
  induction stages generalizing early late mid after with
  | nil =>
      cases hearly
      cases hlate
      rfl
  | cons stage rest ih =>
      obtain ⟨next, passed, others, hsteps, hrest, rfl⟩ := pushes_cons_eq_ok.1 hearly
      obtain ⟨last, passed', others', hsteps', hrest', rfl⟩ := pushes_cons_eq_ok.1 hlate
      have hboth := Stage.steps_append_eq_ok hsteps hsteps'
      exact pushes_cons_eq_ok.2 ⟨last, passed ++ passed', others', hboth, ih hrest hrest', rfl⟩

/-- A row goes through the first stages and then through the others. -/
theorem pushes_stages_append {rows out : List Row} {front back after : List Stage}
    (h : pushes rows (front ++ back) = .ok (after, out)) : ∃ front' mid back',
      pushes rows front = .ok (front', mid) ∧ pushes mid back = .ok (back', out) ∧
        after = front' ++ back' := by
  induction front generalizing rows after with
  | nil => exact ⟨[], rows, after, rfl, h, rfl⟩
  | cons stage front ih =>
      obtain ⟨next, passed, others, hsteps, hrest, rfl⟩ := pushes_cons_eq_ok.1 h
      obtain ⟨front', mid, back', hfront, hback, rfl⟩ := ih hrest
      exact ⟨next :: front', mid, back', pushes_cons_eq_ok.2 ⟨next, passed, front', hsteps, hfront,
        rfl⟩, hback, rfl⟩

theorem finish_of_whole {rows out : List Row} {stages : List Stage} {known : Patterns}
    (hknown : known.Sound) (h : whole rows stages = .ok out) :
    (finish stages rows known).1 = .ok out := by
  induction stages generalizing rows known with
  | nil => exact h
  | cons stage rest ih =>
      obtain ⟨mid, hstage, hrest⟩ := except_bind_eq_ok.1 h
      obtain ⟨⟨next, passed⟩, hsteps, hmid⟩ := except_bind_eq_ok.1 hstage
      cases hmid
      obtain ⟨later, hlater, hfeed⟩ := Stage.feed_of_steps hknown hsteps
      rw [finish, hfeed]
      exact ih hlater hrest

/-- A batch can be pushed in part before its last rows come: nothing is lost, doubled or moved. -/
theorem whole_split {early late out : List Row} {stages : List Stage}
    (h : whole (early ++ late) stages = .ok out) :
    ∃ after first last, pushes early stages = .ok (after, first) ∧
      whole late after = .ok last ∧ out = first ++ last := by
  induction stages generalizing early late with
  | nil =>
      cases h
      exact ⟨[], early, late, rfl, rfl, rfl⟩
  | cons stage rest ih =>
      obtain ⟨all, hstage, hrest⟩ := except_bind_eq_ok.1 h
      obtain ⟨⟨final, passed⟩, hsteps, hall⟩ := except_bind_eq_ok.1 hstage
      cases hall
      obtain ⟨mid, front, back, hfront, hback, rfl⟩ := Stage.steps_append hsteps
      rw [List.append_assoc] at hrest
      obtain ⟨after, first, last, hfirst, hlast, hout⟩ := ih hrest
      refine ⟨mid :: after, first, last, ?_, ?_, hout⟩
      · exact pushes_cons_eq_ok.2 ⟨mid, front, after, hfront, hfirst, rfl⟩
      · refine except_bind_eq_ok.2 ⟨back ++ final.finish.2, ?_, hlast⟩
        exact except_bind_eq_ok.2 ⟨(final, back), hback, rfl⟩

end Stages

end TableQuery
