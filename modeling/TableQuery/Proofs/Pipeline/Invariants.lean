import TableQuery.Proofs.Pipeline.Calls

/-!
# What is known of rows along a pipeline

Something may be known of the rows that come to a stage, and something else, behind it, of the rows
it passes on. What every stage keeps with a single row is kept with all rows and by all calls of a
pipeline, and only the errors that may occur with a single row occur.
-/

namespace TableQuery

/-- What is known of the rows at a place of a pipeline, as a value of type `τ`, and what follows for
the stage at that place. -/
structure RowInvariant (τ : Type) where
  /-- What is known of a row. -/
  row : τ → Row → Prop
  /-- What is known of a stage that such rows come to. -/
  stage : τ → Stage → Prop
  /-- What is known behind a stage. -/
  next : τ → Stage → τ
  /-- The errors that may occur. -/
  error : Error → Prop

namespace RowInvariant

variable {τ : Type} (I : RowInvariant τ)

/-- The stage afterwards can stand in the place of the one before, and the rows passed on are as
they should be. -/
def Keeps (t : τ) (before after : Stage) (out : List Row) : Prop :=
  I.stage t after ∧ I.next t after = I.next t before ∧ ∀ row ∈ out, I.row (I.next t before) row

/-- The invariant is kept by every stage, with each row and where the input is finished. -/
structure Kept [PatternEngine] : Prop where
  accept {t : τ} {stage after : Stage} {row : Row} {out : List Row} {known later : Patterns}
    (hstage : I.stage t stage) (hrow : I.row t row)
    (h : stage.accept row known = (.ok (after, out), later)) : I.Keeps t stage after out
  fail {t : τ} {stage : Stage} {row : Row} {known later : Patterns} {e : Error}
    (hstage : I.stage t stage) (hrow : I.row t row)
    (h : stage.accept row known = (.error e, later)) : I.error e
  finish {t : τ} {stage : Stage} (hstage : I.stage t stage) :
    I.Keeps t stage stage.finish.1 stage.finish.2

/-- The rows of an answer are as they should be, or the error may occur. -/
def Answers (t : τ) : Except Error (List Row) → Prop
  | .ok out => ∀ row ∈ out, I.row t row
  | .error e => I.error e

/-- Each of the stages is as it should be behind those before it. -/
def Chain : τ → List Stage → Prop
  | _, [] => True
  | t, stage :: rest => I.stage t stage ∧ Chain (I.next t stage) rest

/-- What is known behind all stages. -/
def last (t : τ) (stages : List Stage) : τ := stages.foldl I.next t

variable {I} {t : τ} {stage : Stage} {stages : List Stage} {rows : List Row}

theorem chain_of_initial (hinitial : ∀ {stage : Stage}, stage.Initial → ∀ t, I.stage t stage)
    (h : ∀ stage ∈ stages, stage.Initial) (t : τ) : I.Chain t stages := by
  induction stages generalizing t with
  | nil => trivial
  | cons stage rest ih =>
      obtain ⟨hstage, hrest⟩ := List.forall_mem_cons.1 h
      exact ⟨hinitial hstage t, ih hrest _⟩

variable [PatternEngine]

theorem Kept.feed (hI : I.Kept) (h : I.stage t stage) (hrows : ∀ row ∈ rows, I.row t row)
    (known : Patterns) :
    I.Keeps t stage (stage.feed rows known).2.1 [] ∧
      I.Answers (I.next t stage) (stage.feed rows known).1 := by
  induction rows generalizing stage known with
  | nil => exact ⟨⟨h, rfl, List.forall_mem_nil _⟩, List.forall_mem_nil _⟩
  | cons row rows ih =>
      obtain ⟨hrow, hrows⟩ := List.forall_mem_cons.1 hrows
      generalize haccept : stage.accept row known = taken
      obtain ⟨answer, later⟩ := taken
      cases answer with
      | error e =>
          rw [Stage.feed_cons_of_error haccept]
          exact ⟨⟨h, rfl, List.forall_mem_nil _⟩, hI.fail h hrow haccept⟩
      | ok result =>
          obtain ⟨mid, first⟩ := result
          obtain ⟨hmid, hnext, hfirst⟩ := hI.accept h hrow haccept
          obtain ⟨⟨hafter, hagain, -⟩, hmore⟩ := ih hmid hrows later
          rw [Stage.feed_cons_of_ok haccept]
          refine ⟨⟨hafter, hagain.trans hnext, List.forall_mem_nil _⟩, ?_⟩
          rw [hnext] at hmore
          cases hanswer : (mid.feed rows later).1 with
          | error e =>
              rw [hanswer] at hmore
              exact hmore
          | ok more =>
              rw [hanswer] at hmore
              exact List.forall_mem_append.2 ⟨hfirst, hmore⟩

theorem Kept.close (hI : I.Kept) (c : Call) (h : I.stage t stage) :
    I.Keeps t stage (stage.close c).1 (stage.close c).2 := by
  cases c with
  | take row => exact ⟨h, rfl, List.forall_mem_nil _⟩
  | finish => exact hI.finish h

/-- Rows that come to stages in a call leave stages behind that are as they should be. -/
theorem Kept.serve (hI : I.Kept) (c : Call) (h : I.Chain t stages)
    (hrows : ∀ row ∈ rows, I.row t row) (known : Patterns) :
    I.Chain t (Stages.serve c stages rows known).2.1 ∧
      I.last t (Stages.serve c stages rows known).2.1 = I.last t stages ∧
      I.Answers (I.last t stages) (Stages.serve c stages rows known).1 := by
  induction stages generalizing t rows known with
  | nil =>
      rw [Stages.serve_nil]
      exact ⟨trivial, rfl, hrows⟩
  | cons stage rest ih =>
      obtain ⟨hstage, hrest⟩ := h
      obtain ⟨⟨hfed, hsame, -⟩, hanswer⟩ := hI.feed hstage hrows known
      generalize hfeed : stage.feed rows known = fed at hfed hsame hanswer
      obtain ⟨answer, after, later⟩ := fed
      simp only at hfed hsame hanswer
      cases answer with
      | error e =>
          rw [Stages.serve_cons_of_error hfeed]
          refine ⟨⟨hfed, hsame ▸ hrest⟩, ?_, hanswer⟩
          rw [last, last, List.foldl_cons, List.foldl_cons, hsame]
      | ok out =>
          obtain ⟨hclosed, hagain, hheld⟩ := hI.close c hfed
          rw [hsame] at hagain hheld
          obtain ⟨hothers, hlast, hresult⟩ :=
            ih hrest (List.forall_mem_append.2 ⟨hanswer, hheld⟩) later
          rw [Stages.serve_cons_of_ok hfeed]
          refine ⟨⟨hclosed, hagain ▸ hothers⟩, ?_, hresult⟩
          rw [last, List.foldl_cons, hagain]
          exact hlast

theorem Kept.call (hI : I.Kept) (c : Call) {p : Pipeline} (h : I.Chain t p.stages)
    (hrows : ∀ row ∈ c.rows, I.row t row) :
    I.Chain t (p.call c).2.stages ∧ I.last t (p.call c).2.stages = I.last t p.stages ∧
      I.Answers (I.last t p.stages) (p.call c).1 := by
  rw [Pipeline.call_eq]
  exact hI.serve c h hrows p.patterns

end RowInvariant

end TableQuery
