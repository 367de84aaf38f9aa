import TableQuery.Execution
import TableQuery.Proofs.Evaluation.Transparency

/-!
# Patterns that are refused

An engine has a part in a query only by the patterns that it refuses. A run under an engine ends as
under the engine that compiles every pattern, unless it fails over a pattern that is refused; so
what holds of all runs where nothing is refused holds of every run that does not fail so.
-/

namespace TableQuery

variable [engine : PatternEngine]

/-- The engine refuses a pattern, and the error gives its reason. -/
def Error.IsRefusal (e : Error) : Prop :=
  ∃ pattern reason, engine.refusal? pattern = some reason ∧
    e = .semantic (.invalidPattern pattern reason)

namespace PatternEngine

variable {α β τ υ : Type} {r r' : Except Error α × τ}

/-- An answer and the state behind it are the same as others, unless the answer is a refusal. -/
def Refines (r r' : Except Error α × τ) : Prop :=
  r = r' ∨ ∃ e : Error, r.1 = .error e ∧ e.IsRefusal

/-- Goes on from an answer and the state behind it; an error stays. -/
def next (stop : τ → υ) (go : α → τ → Except Error β × υ) :
    Except Error α × τ → Except Error β × υ
  | (.error e, t) => (.error e, stop t)
  | (.ok a, t) => go a t

namespace Refines

theorem refl (r : Except Error α × τ) : Refines r r := .inl rfl

theorem next {stop : τ → υ} {go go' : α → τ → Except Error β × υ} (h : Refines r r')
    (hgo : ∀ a t, Refines (go a t) (go' a t)) :
    Refines (PatternEngine.next stop go r) (PatternEngine.next stop go' r') := by
  rcases h with rfl | ⟨e, he, hrefusal⟩
  · obtain ⟨_ | a, t⟩ := r
    · exact refl _
    · exact hgo a t
  · obtain ⟨answer, t⟩ := r
    obtain rfl : answer = .error e := he
    exact .inr ⟨e, rfl, hrefusal⟩

theorem map (h : Refines r r') (g : α → β) (k : τ → υ) :
    Refines (r.1.map g, k r.2) (r'.1.map g, k r'.2) := by
  rcases h with rfl | ⟨e, he, hrefusal⟩
  · exact refl _
  · exact .inr ⟨e, congrArg (Except.map g) he, hrefusal⟩

theorem carry (h : Refines r r') (k : τ → υ) : Refines (r.1, k r.2) (r'.1, k r'.2) := by
  rcases h with rfl | ⟨e, he, hrefusal⟩
  · exact refl _
  · exact .inr ⟨e, he, hrefusal⟩

theorem bind {m m' : ExceptT Error (StateM τ) α} {f f' : α → ExceptT Error (StateM τ) β}
    (hm : ∀ t, Refines (m t) (m' t)) (hf : ∀ a t, Refines (f a t) (f' a t)) (t : τ) :
    Refines ((m >>= f) t) ((m' >>= f') t) := by
  have hbind : ∀ (m : ExceptT Error (StateM τ) α) (f : α → ExceptT Error (StateM τ) β),
      (m >>= f) t = PatternEngine.next id f (m t) := by
    intro m f
    change ExceptT.bindCont f (m t).1 (m t).2 = _
    rcases m t with ⟨_ | _, _⟩
    · rfl
    · rfl
  rw [hbind, hbind]
  exact (hm t).next hf

end Refines

end PatternEngine

open PatternEngine

section Evaluations

/-- LIKE fails over a pattern that is not known and is refused. What is known stays, and the pattern
does not become known. -/
theorem Operator.apply_like_of_refusal {left right : Value} {known : Patterns} {reason : String}
    (hknown : known.get? right.toText = none)
    (hreason : engine.refusal? right.toText = some reason) :
    like.apply left right known =
      (.error (.semantic (.invalidPattern right.toText reason)), known) := by
  have hcheck : Patterns.check right.toText known =
      .error (.semantic (.invalidPattern right.toText reason)) := by
    rw [Patterns.check, hknown, Pattern.check, hreason]
    rfl
  exact Evaluation.bind_of_error hcheck

theorem Patterns.check_eq (pattern : String) (known : Patterns) :
    Patterns.check pattern known = .ok () ∨
      ∃ reason, engine.refusal? pattern = some reason ∧ known.get? pattern = none := by
  rw [Patterns.check]
  cases hknown : known.get? pattern with
  | some p => exact .inl rfl
  | none =>
      rw [Pattern.check]
      cases engine.refusal? pattern with
      | none => exact .inl rfl
      | some reason => exact .inr ⟨reason, rfl, rfl⟩

theorem Operator.refines_apply (op : Operator) (left right : Value) (known : Patterns) :
    Refines (op.apply left right known) (@apply .unrefusing op left right known) := by
  cases op with
  | like =>
      rcases Patterns.check_eq right.toText known with hcheck | ⟨reason, hreason, hknown⟩
      · rw [apply_like left right]
        exact .inl (Evaluation.bind_of_ok hcheck)
      · rw [apply_like_of_refusal hknown hreason]
        exact .inr ⟨_, rfl, _, reason, hreason, rfl⟩
  | _ => exact .refl _

namespace Expr

mutual

theorem refines_eval (row : Row) :
    ∀ (e : Expr) known, Refines (e.eval row known) (@eval .unrefusing row e known)
  | null, _ | bool _, _ | number _ _, _ | string _, _ | star, _ => .refl _
  | identifier _, _ => .refl _
  | call _ args, known => .bind (refines_evalAll row args) (fun _ _ => .refl _) known
  | aggregate .., _ => .refl _
  | binary op left right, known =>
    .bind (refines_eval row left) (fun v =>
      .bind (refines_eval row right) fun w => op.refines_apply v w) known
  | case subject branches otherwise, known => by
    refine .bind (refines_evalOption row subject) (fun v => ?_) known
    refine .bind (refines_evalBranches row v branches) fun taken => ?_
    cases taken with
    | some w => exact fun _ => .refl _
    | none => exact .bind (refines_evalOption row otherwise) fun w _ => .refl _

theorem refines_evalAll (row : Row) :
    ∀ (l : List Expr) known, Refines (evalAll row l known) (@evalAll .unrefusing row l known)
  | [], _ => .refl _
  | e :: rest, known =>
    .bind (refines_eval row e) (fun _ =>
      .bind (refines_evalAll row rest) fun _ _ => .refl _) known

theorem refines_evalBranches (row : Row) (subject : Option Value) :
    ∀ (l : List (Expr × Expr)) known,
      Refines (evalBranches row subject l known) (@evalBranches .unrefusing row subject l known)
  | [], _ => .refl _
  | (condition, result) :: rest, known => by
    refine .bind (refines_eval row condition) (fun v => ?_) known
    by_cases h : isTaken subject v
    · simp only [if_pos h, map_eq_pure_bind]
      exact .bind (refines_eval row result) fun _ _ => .refl _
    · simp only [if_neg h]
      exact refines_evalBranches row subject rest

theorem refines_evalOption (row : Row) :
    ∀ (o : Option Expr) known,
      Refines (evalOption row o known) (@evalOption .unrefusing row o known)
  | none, _ => .refl _
  | some e, known => by
    simp only [evalOption, map_eq_pure_bind]
    exact .bind (refines_eval row e) (fun _ _ => .refl _) known

end

end Expr

end Evaluations

section Stages

theorem Mutation.refines_eval {σ α : Type} {m m' : Evaluation α}
    (h : ∀ known, Refines (m known) (m' known)) (t : σ × Patterns) :
    Refines (Mutation.eval m t) (Mutation.eval m' t) :=
  (h t.2).carry fun known => (t.1, known)

theorem Grouping.refines_add (row : Row) (t : Grouping × Patterns) :
    Refines (add row t) (@add .unrefusing row t) :=
  .bind (fun _ => .refl _) (fun _ =>
    .bind (Mutation.refines_eval (Expr.refines_evalAll row _)) fun _ =>
      .bind (Mutation.refines_eval (Expr.refines_evalAll row _)) fun _ _ => .refl _) t

theorem Sorting.refines_add (row : Row) (t : Sorting × Patterns) :
    Refines (add row t) (@add .unrefusing row t) :=
  .bind (fun _ => .refl _) (fun _ =>
    .bind (Mutation.refines_eval (Expr.refines_evalAll row _)) fun _ _ => .refl _) t

theorem Selection.refines_fill (row : Row) (l : List OutputColumn) (result : Row)
    (known : Patterns) :
    Refines (fill row l result known) (@fill .unrefusing row l result known) := by
  induction l generalizing result known with
  | nil => exact .refl _
  | cons c l ih => exact .bind (c.expr.refines_eval row) (fun _ => ih _) known

theorem Selection.refines_project (select : Selection) (row : Row) (known : Patterns) :
    Refines (select.project row known) (@project .unrefusing select row known) := by
  cases select with
  | all => exact .refl _
  | columns l => exact refines_fill row l {} known

namespace Stage

theorem refines_process (row : Row) (stage : Stage) (known : Patterns) :
    Refines (stage.process row known) (@process .unrefusing row stage known) := by
  cases stage with
  | filter clause condition =>
      exact (condition.refines_eval row known).map _ fun known => (filter clause condition, known)
  | group g =>
      exact (Grouping.refines_add row (g, known)).map _ fun (g, known) => (group g, known)
  | sort s =>
      exact (Sorting.refines_add row (s, known)).map _ fun (s, known) => (sort s, known)
  | skip count =>
      cases count with
      | zero => exact .refl _
      | succ count => exact .refl _
  | limit l => exact .refl _
  | project select =>
      exact (select.refines_project row known).map _ fun known => (project select, known)

theorem feed_cons (row : Row) (rows : List Row) (stage : Stage) (known : Patterns) :
    stage.feed (row :: rows) known = next id (fun out (stage, known) =>
      let (answer, after) := stage.feed rows known
      (answer.map (out ++ ·), after)) (stage.process row known) := by
  rw [feed]
  rcases stage.process row known with ⟨_ | _, _, _⟩
  · rfl
  · rfl

theorem refines_feed (rows : List Row) (stage : Stage) (known : Patterns) :
    Refines (stage.feed rows known) (@feed .unrefusing rows stage known) := by
  induction rows generalizing stage known with
  | nil => exact .refl _
  | cons row rows ih =>
      rw [feed_cons, @feed_cons .unrefusing]
      exact (stage.refines_process row known).next fun out (mid, later) =>
        (ih mid later).map (out ++ ·) id

end Stage

namespace Stages

variable (stage : Stage) (rest : List Stage) (rows : List Row) (known : Patterns)

theorem push_cons : push (stage :: rest) rows known =
    next (fun (stage, known) => (stage :: rest, known)) (fun out (stage, known) =>
      let (answer, rest, known) := push rest out known
      (answer, stage :: rest, known)) (stage.feed rows known) := by
  rw [push]
  rcases stage.feed rows known with ⟨_ | _, _, _⟩
  · rfl
  · rfl

theorem finish_cons : finish (stage :: rest) rows known =
    next (fun (stage, known) => (stage :: rest, known)) (fun out (stage, known) =>
      let (answer, rest, known) := finish rest (out ++ stage.finish.2) known
      (answer, stage.finish.1 :: rest, known)) (stage.feed rows known) := by
  rw [finish]
  rcases stage.feed rows known with ⟨_ | _, _, _⟩
  · rfl
  · rfl

theorem refines_push (stages : List Stage) (rows : List Row) (known : Patterns) :
    Refines (push stages rows known) (@push .unrefusing stages rows known) := by
  induction stages generalizing rows known with
  | nil => exact .refl _
  | cons stage rest ih =>
      rw [push_cons, @push_cons .unrefusing]
      exact (stage.refines_feed rows known).next fun out (stage, later) =>
        (ih out later).carry fun (rest, known) => (stage :: rest, known)

theorem refines_finish (stages : List Stage) (rows : List Row) (known : Patterns) :
    Refines (finish stages rows known) (@finish .unrefusing stages rows known) := by
  induction stages generalizing rows known with
  | nil => exact .refl _
  | cons stage rest ih =>
      rw [finish_cons, @finish_cons .unrefusing]
      exact (stage.refines_feed rows known).next fun out (stage, later) =>
        (ih (out ++ stage.finish.2) later).carry fun (rest, known) =>
          (stage.finish.1 :: rest, known)

end Stages

end Stages

section Runs

variable {σ : Type}

/-- Two runs end alike, unless the first fails over a pattern that is refused. -/
def Outcome.Refines (o o' : Outcome σ) : Prop :=
  o = o' ∨ ∃ e : Error, o.result = .error e ∧ e.IsRefusal

theorem Outcome.Refines.pull {o o' : Outcome σ} (h : o.Refines o') :
    Outcome.Refines { o with pulled := o.pulled + 1 } { o' with pulled := o'.pulled + 1 } := by
  rcases h with rfl | hrefusal
  · exact .inl rfl
  · exact .inr hrefusal

namespace Pipeline

theorem refines_push (p : Pipeline) (row : Row) :
    Refines (p.push row) (@push .unrefusing p row) :=
  (Stages.refines_push p.stages [row] p.patterns).carry fun t => Pipeline.mk t.1 t.2

theorem refines_finish (p : Pipeline) : Refines p.finish (@finish .unrefusing p) :=
  (Stages.refines_finish p.stages [] p.patterns).carry fun t => Pipeline.mk t.1 t.2

theorem refines_drain (sink : Sink σ) (p : Pipeline) (s : σ) :
    (p.drain sink s).Refines (@drain .unrefusing _ sink p s) := by
  rcases p.refines_finish with h | ⟨e, he, hrefusal⟩
  · unfold drain
    rw [h]
    exact .inl rfl
  · refine .inr ⟨e, ?_, hrefusal⟩
    simp only [drain, he]

theorem refines_run (sink : Sink σ) (source : List (Except Error Row)) (p : Pipeline) (s : σ) :
    (p.run sink source s).Refines (@run .unrefusing _ sink source p s) := by
  induction source generalizing p s with
  | nil => exact p.refines_drain sink s
  | cons item source ih =>
      cases item with
      | error e => exact .inl rfl
      | ok row =>
          rcases p.refines_push row with h | ⟨e, he, hrefusal⟩
          · unfold run
            rw [← h]
            rcases p.push row with ⟨_ | rows, p'⟩
            · exact .inl rfl
            rcases hwrite : sink.writeAll rows s with ⟨_ | _, s'⟩
            · simp only [hwrite]
              exact .inl rfl
            simp only [hwrite]
            -- the pipeline behind the row goes on alike
            cases p'.isStopped with
            | true => exact (p'.refines_drain sink s').pull
            | false => exact (ih p' s').pull
          · refine .inr ⟨e, ?_, hrefusal⟩
            rw [run]
            rcases hpush : p.push row with ⟨answer, p'⟩
            rw [hpush] at he
            obtain rfl : answer = .error e := he
            rfl

end Pipeline

namespace Query

/-- A run under an engine is the run where no pattern is refused, unless it fails over a pattern
that the engine refuses. -/
theorem refines_run (q : Query) (source : List (Except Error Row)) (sink : Sink σ) (s : σ) :
    (q.run source sink s).Refines (@run .unrefusing _ q source sink s) :=
  (Pipeline.ofQuery q).refines_run sink source s

/-- So is an execution on the content of a file. -/
theorem executeOn_refused (q : Query) (format : TableFormat) (content : List UInt8) :
    q.executeOn format content = @executeOn .unrefusing q format content ∨
      ∃ e : Error, (q.executeOn format content).result = .error e ∧ e.IsRefusal := by
  unfold executeOn
  cases Table.ofBytes format.delimiter content with
  | error e => exact .inl rfl
  | ok table =>
      rcases q.refines_run table.source TableWriter.sink { format } with h | hrefusal
      · refine .inl ?_
        simp only [h]
      · exact .inr hrefusal

end Query

end Runs

end TableQuery
