import TableQuery.Proofs.Pipeline.Runs

/-!
# Calls in any order

A pipeline is used by calls that take a row or finish the input, in any order and also behind a call
that failed. Whatever is called, the stages keep their roles, and rows go through the first stages
before they come to the others.
-/

namespace TableQuery

/-- A call of a stage or of a pipeline. -/
inductive Call where
  /-- Takes a row. -/
  | take (row : Row)
  /-- Finishes the input. -/
  | finish

/-- The rows that a call brings. -/
def Call.rows : Call → List Row
  | take row => [row]
  | finish => []

namespace Stage

/-- What becomes of a stage in a call when it has been fed all rows, and the rows it held back. -/
def close : Call → Stage → Stage × List Row
  | .take _, stage => (stage, [])
  | .finish, stage => stage.finish

theorem role_finish (stage : Stage) : stage.finish.1.role = stage.role := by
  cases stage <;> rfl

theorem role_close (c : Call) (stage : Stage) : (stage.close c).1.role = stage.role := by
  cases c with
  | take row => rfl
  | finish => exact stage.role_finish

theorem close_of_role {c : Call} {stage : Stage} (h : stage.role ≠ .barrier) :
    (stage.close c).2 = [] := by
  cases c with
  | take row => rfl
  | finish => exact finish_of_role h

theorem signals_of_role {stage : Stage} (h : stage.role ≠ .limit) : stage.signals = 0 := by
  cases stage with
  | limit l => exact absurd rfl h
  | _ => rfl

variable [PatternEngine]

/-- What is known of a stage that was fed rows, also when one of them failed. -/
theorem feed_cases (rows : List Row) (stage : Stage) (known : Patterns) :
    (stage.feed rows known).2.1.role = stage.role ∧
      ∀ out, (stage.feed rows known).1 = .ok out → out.length ≤ rows.length := by
  induction rows generalizing stage known with
  | nil =>
      refine ⟨rfl, fun out hout => ?_⟩
      cases hout
      exact Nat.le_refl _
  | cons row rows ih =>
      generalize haccept : stage.accept row known = taken
      obtain ⟨answer, later⟩ := taken
      cases answer with
      | error e =>
          rw [feed_cons_of_error haccept]
          exact ⟨rfl, nofun⟩
      | ok result =>
          obtain ⟨mid, first⟩ := result
          obtain ⟨halike, -, -, hfirst⟩ := accept_cases haccept
          obtain ⟨hagain, hmore⟩ := ih mid later
          rw [feed_cons_of_ok haccept]
          refine ⟨hagain.trans halike.role, fun out hout => ?_⟩
          obtain ⟨more, heq, rfl⟩ := except_map_eq_ok.1 hout
          have hlength := hmore more heq
          rw [List.length_append, List.length_cons]
          omega

end Stage

namespace Stages

variable [PatternEngine]

/-- Feeds rows to stages, one behind the other, as a call does. -/
def serve : Call → List Stage → List Row → Patterns →
    Except Error (List Row) × List Stage × Patterns
  | .take _ => push
  | .finish => finish

variable {c : Call} {rows out : List Row} {stage next : Stage} {rest front back : List Stage}
  {known later : Patterns} {e : Error}

theorem serve_cons_of_error (h : stage.feed rows known = (.error e, next, later)) :
    serve c (stage :: rest) rows known = (.error e, next :: rest, later) := by
  cases c with
  | take row => rw [serve, push, h]
  | finish => rw [serve, finish, h]

theorem serve_cons_of_ok (h : stage.feed rows known = (.ok out, next, later)) :
    serve c (stage :: rest) rows known =
      ((serve c rest (out ++ (next.close c).2) later).1,
        (next.close c).1 :: (serve c rest (out ++ (next.close c).2) later).2.1,
        (serve c rest (out ++ (next.close c).2) later).2.2) := by
  cases c with
  | take row => rw [serve, push, h, Stage.close, List.append_nil]
  | finish => rw [serve, finish, h, Stage.close]

@[simp] theorem serve_nil : serve c [] rows known = (.ok rows, [], known) := by
  cases c <;> rfl

theorem serve_role (c : Call) (stages : List Stage) (rows : List Row) (known : Patterns) :
    (serve c stages rows known).2.1.map Stage.role = stages.map Stage.role := by
  induction stages generalizing rows known with
  | nil => rw [serve_nil]
  | cons stage rest ih =>
      have hrole := (Stage.feed_cases rows stage known).1
      generalize hfeed : stage.feed rows known = fed at hrole
      obtain ⟨answer, next, later⟩ := fed
      cases answer with
      | error e =>
          rw [serve_cons_of_error hfeed]
          exact congrArg (· :: rest.map Stage.role) hrole
      | ok out =>
          rw [serve_cons_of_ok hfeed, List.map_cons, List.map_cons, ih, Stage.role_close]
          exact congrArg (· :: rest.map Stage.role) hrole

/-- Stages that hold no rows back pass on at most as many rows as come to them. -/
theorem length_serve_le (c : Call) {stages : List Stage}
    (hstages : ∀ stage ∈ stages, stage.role ≠ .barrier) {rows out : List Row} {known : Patterns}
    (h : (serve c stages rows known).1 = .ok out) : out.length ≤ rows.length := by
  induction stages generalizing rows known with
  | nil =>
      rw [serve_nil] at h
      cases h
      exact Nat.le_refl _
  | cons stage rest ih =>
      obtain ⟨hstage, hrest⟩ := List.forall_mem_cons.1 hstages
      obtain ⟨hrole, hlength⟩ := Stage.feed_cases rows stage known
      generalize hfeed : stage.feed rows known = fed at hrole hlength
      obtain ⟨answer, next, later⟩ := fed
      cases answer with
      | error e =>
          rw [serve_cons_of_error hfeed] at h
          cases h
      | ok mid =>
          have hnext : next.role ≠ .barrier := fun heq => hstage (hrole.symm.trans heq)
          rw [serve_cons_of_ok hfeed, Stage.close_of_role hnext, List.append_nil] at h
          exact Nat.le_trans (ih hrest h) (hlength mid rfl)

theorem serve_append_of_error {after : List Stage}
    (h : serve c front rows known = (.error e, after, later)) :
    serve c (front ++ back) rows known = (.error e, after ++ back, later) := by
  induction front generalizing rows known after with
  | nil =>
      rw [serve_nil] at h
      cases h
  | cons stage front ih =>
      generalize hfeed : stage.feed rows known = fed
      obtain ⟨answer, next, mid⟩ := fed
      cases answer with
      | error e' =>
          rw [serve_cons_of_error hfeed] at h
          rw [List.cons_append, serve_cons_of_error hfeed]
          cases h
          rfl
      | ok out =>
          rw [serve_cons_of_ok hfeed] at h
          rw [List.cons_append, serve_cons_of_ok hfeed]
          obtain ⟨hanswer, hstages⟩ := Prod.mk.inj h
          obtain ⟨hafter, hlater⟩ := Prod.mk.inj hstages
          rw [ih (Prod.ext hanswer (Prod.ext rfl hlater)), ← hafter]
          rfl

/-- What comes out of the first stages comes to the others. -/
theorem serve_append_of_ok {after : List Stage}
    (h : serve c front rows known = (.ok out, after, later)) :
    serve c (front ++ back) rows known =
      ((serve c back out later).1, after ++ (serve c back out later).2.1,
        (serve c back out later).2.2) := by
  induction front generalizing rows known after with
  | nil =>
      rw [serve_nil] at h
      cases h
      rfl
  | cons stage front ih =>
      generalize hfeed : stage.feed rows known = fed
      obtain ⟨answer, next, mid⟩ := fed
      cases answer with
      | error e' =>
          rw [serve_cons_of_error hfeed] at h
          cases h
      | ok passed =>
          rw [serve_cons_of_ok hfeed] at h
          rw [List.cons_append, serve_cons_of_ok hfeed]
          obtain ⟨hanswer, hstages⟩ := Prod.mk.inj h
          obtain ⟨hafter, hlater⟩ := Prod.mk.inj hstages
          rw [ih (Prod.ext hanswer (Prod.ext rfl hlater)), ← hafter]
          rfl

end Stages

namespace Pipeline

variable [PatternEngine]

/-- Answers a call: the rows of the result that it brings forth, and the pipeline afterwards. -/
def call : Call → Pipeline → Except Error (List Row) × Pipeline
  | .take row, p => p.push row
  | .finish, p => p.finish

theorem call_eq (c : Call) (p : Pipeline) :
    p.call c = ((Stages.serve c p.stages c.rows p.patterns).1,
      ⟨(Stages.serve c p.stages c.rows p.patterns).2.1,
        (Stages.serve c p.stages c.rows p.patterns).2.2⟩) := by
  cases c <;> rfl

/-- The answers to calls, one after another. -/
def answers : List Call → Pipeline → List (Except Error (List Row))
  | [], _ => []
  | c :: rest, p => (p.call c).1 :: answers rest (p.call c).2

/-- The pipeline after calls, one after another. -/
def after (p : Pipeline) (calls : List Call) : Pipeline :=
  calls.foldl (fun p c => (p.call c).2) p

end Pipeline

end TableQuery
