import TableQuery.Proofs.Evaluation.Columns
import TableQuery.Proofs.Pipeline.Barriers

/-!
# The columns that a pipeline reads

The stages of a pipeline pass rows on as they are until the last one selects columns. So if no stage
names other columns than some, the rows can be cut down to these when they come in: what the stages
hold is cut down with them, and what comes out is the same.
-/

namespace TableQuery

open Evaluation

variable {names : List String}

section Held

namespace KeyTree

variable {α β : Type}

mutual

/-- The tree with `g` applied to its values. -/
def map (g : α → β) : KeyTree α → KeyTree β
  | node value children => node (value.map g) (mapAll g children)
termination_by structural t => t

/-- Trees with `g` applied to their values. -/
def mapAll (g : α → β) : List (String × KeyTree α) → List (String × KeyTree β)
  | [] => []
  | (key, child) :: rest => (key, child.map g) :: mapAll g rest
termination_by structural l => l

end

mutual

theorem toList_map (g : α → β) : ∀ t : KeyTree α, (t.map g).toList = t.toList.map g
  | node value children => by
    rw [map, toList, toList, List.map_append, toListAll_mapAll g children]
    cases value <;> rfl

theorem toListAll_mapAll (g : α → β) :
    ∀ l : List (String × KeyTree α), toListAll (mapAll g l) = (toListAll l).map g
  | [] => rfl
  | (key, child) :: rest => by
    rw [mapAll, toListAll, toListAll, List.map_append, toList_map g child,
      toListAll_mapAll g rest]

end

theorem mapAll_alterChild {g : α → β} {key : String} {change : KeyTree α → KeyTree α}
    {change' : KeyTree β → KeyTree β} (h : ∀ t : KeyTree α, (change t).map g = change' (t.map g))
    (children : List (String × KeyTree α)) :
    mapAll g (alterChild key change children) = alterChild key change' (mapAll g children) := by
  induction children with
  | nil => exact congrArg (fun t => [(key, t)]) (h ∅)
  | cons child rest ih =>
      rw [mapAll, alterChild, alterChild]
      split
      · rw [mapAll, h]
      · rw [mapAll, ih]

theorem map_alter {g : α → β} {f : Option α → α} {f' : Option β → β}
    (h : ∀ o : Option α, g (f o) = f' (o.map g)) (path : List String) (t : KeyTree α) :
    (t.alter f path).map g = (t.map g).alter f' path := by
  induction path generalizing t with
  | nil =>
      obtain ⟨value, children⟩ := t
      rw [alter, map, map, alter, Option.map_some, h]
  | cons key path ih =>
      obtain ⟨value, children⟩ := t
      rw [alter, map, map, alter, mapAll_alterChild ih]

end KeyTree

namespace Grouping

/-- The grouping with the columns of its rows cut down. -/
def keep (names : List String) (g : Grouping) : Grouping :=
  { g with groups := g.groups.map (Row.keep names) }

theorem representative_keep (aggregates : List Aggregate) (row : Row) (inputs : List Value)
    (known : Option Row) :
    (representative aggregates row inputs known).keep names =
      representative aggregates (row.keep names) inputs (known.map (Row.keep names)) := by
  have hrow : ∀ first : Row, (first.keep names).aggregates = first.aggregates := fun _ => rfl
  cases known with
  | none => rfl
  | some first =>
      simp only [representative, Option.getD_some, Option.map_some, hrow]
      split <;> rfl

theorem accept_keep [PatternEngine] {g : Grouping}
    (h : ∀ e ∈ g.keys ++ g.aggregates.map (·.argument), e.columns ⊆ names) (row : Row) :
    (g.keep names).accept (row.keep names) = keep names <$> g.accept row := by
  obtain ⟨hkeys, harguments⟩ := List.forall_mem_append.1 h
  simp only [accept, keep, Expr.evalAll_keep hkeys, Expr.evalAll_keep harguments, map_bind,
    map_pure]
  refine bind_congr fun keys => bind_congr fun inputs => ?_
  rw [KeyTree.map_alter (representative_keep g.aggregates row inputs)]

end Grouping

namespace Sorting

/-- The sorting with the columns of its rows cut down. -/
def keep (names : List String) (s : Sorting) : Sorting :=
  { s with buffer := s.buffer.map fun entry => (entry.1, entry.2.keep names) }

theorem accept_keep [PatternEngine] {s : Sorting}
    (h : ∀ e ∈ s.terms.map (·.expr), e.columns ⊆ names) (row : Row) :
    (s.keep names).accept (row.keep names) = keep names <$> s.accept row := by
  simp only [accept, keep, Expr.evalAll_keep h, map_bind, map_pure, Array.map_push]

theorem reset_keep (s : Sorting) : (s.keep names).reset = s.reset.keep names := by
  rw [reset, reset, keep, keep, Array.map_empty]

theorem rows_keep (s : Sorting) : (s.keep names).rows = s.rows.map (Row.keep names) := by
  have hsorted := List.map_mergeSort (r := fun a b => (compareKeys s.terms a.1 b.1).isLE)
    (s := fun a b => (compareKeys s.terms a.1 b.1).isLE)
    (f := fun entry => (entry.1, entry.2.keep names)) (l := s.buffer.toList) fun _ _ _ _ => rfl
  rw [rows, rows, keep, Array.toList_map, ← hsorted, List.map_map, List.map_map]
  rfl

end Sorting

theorem Evaluation.map_of_ok {α β : Type} {g : α → β} {m : Evaluation α} {known later : Patterns}
    {a : α} (h : m known = (.ok a, later)) : (g <$> m) known = (.ok (g a), later) := by
  rw [map_eq_bind]
  exact bind_eq_ok.2 ⟨a, later, h, rfl⟩

theorem Evaluation.map_of_error {α β : Type} {g : α → β} {m : Evaluation α}
    {known later : Patterns} {e : Error} (h : m known = (.error e, later)) :
    (g <$> m) known = (.error e, later) := by
  rw [map_eq_bind, bind_of_error (congrArg Prod.fst h), h]

theorem Selection.fill_keep [PatternEngine] {l : List OutputColumn}
    (h : ∀ c ∈ l, c.expr.columns ⊆ names)
    (row result : Row) : fill (row.keep names) l result = fill row l result := by
  induction l generalizing result with
  | nil => rfl
  | cons c l ih =>
      obtain ⟨hc, hl⟩ := List.forall_mem_cons.1 h
      rw [fill, fill, Expr.eval_keep hc]
      exact bind_congr fun v => ih hl _

end Held

section Stages

namespace Stage

/-- The stage with the columns of the rows that it holds cut down. -/
def keep (names : List String) : Stage → Stage
  | group g => group (g.keep names)
  | sort s => sort (s.keep names)
  | stage => stage

/-- The stage passes rows on without selecting columns, and evaluates only the given ones. -/
def Passes (names : List String) : Stage → Prop
  | project _ => False
  | stage => ∀ e ∈ stage.reads, e.columns ⊆ names

variable {stage : Stage}

theorem keep_project (select : Selection) : (project select).keep names = project select := rfl

theorem signals_keep (stage : Stage) : (stage.keep names).signals = stage.signals := by
  cases stage <;> rfl

theorem Passes.of_alike {after : Stage} (h : stage.Passes names) (halike : stage.Alike after) :
    after.Passes names := by
  cases halike <;> exact h

theorem Passes.close_keep (h : stage.Passes names) (c : Call) :
    (stage.close c).1.Passes names ∧
      (stage.keep names).close c =
        ((stage.close c).1.keep names, (stage.close c).2.map (Row.keep names)) := by
  cases c with
  | take row => exact ⟨h, rfl⟩
  | finish =>
      cases stage with
      | group g => exact ⟨h, congrArg (Prod.mk _) (KeyTree.toList_map _ g.groups)⟩
      | sort s => exact ⟨h, Prod.ext (congrArg sort s.reset_keep) s.rows_keep⟩
      | project select => exact h.elim
      | _ => exact ⟨h, rfl⟩

variable [PatternEngine]

theorem Passes.accept_keep (h : stage.Passes names) (row : Row) :
    (stage.keep names).accept (row.keep names) =
      Prod.map (keep names) (List.map (Row.keep names)) <$> stage.accept row := by
  cases stage with
  | filter clause condition =>
      have hcondition := Expr.eval_keep (h condition List.mem_cons_self) row
      simp only [keep, accept, hcondition, map_bind, map_pure]
      refine bind_congr fun v => ?_
      cases v.isTruthy <;> rfl
  | group g =>
      simp only [keep, accept, Grouping.accept_keep h, map_bind, map_pure, bind_map_left]
      rfl
  | sort s =>
      simp only [keep, accept, Sorting.accept_keep h, map_bind, map_pure, bind_map_left]
      rfl
  | skip count => cases count <;> rfl
  | limit l =>
      obtain ⟨_ | n, isTerminated, signals⟩ := l
      · cases isTerminated <;> rfl
      · rfl
  | project select => exact h.elim

/-- What commutes with taking a row commutes with taking rows. -/
theorem feed_map {P : Stage → Prop} {f : Stage → Stage} {g g' : Row → Row}
    (hP : ∀ {stage after : Stage}, P stage → stage.Alike after → P after)
    (haccept : ∀ {stage : Stage} (row : Row), P stage →
      (f stage).accept (g row) = Prod.map f (List.map g') <$> stage.accept row)
    (h : P stage) (rows : List Row) (known : Patterns) :
    P (stage.feed rows known).2.1 ∧
      (f stage).feed (rows.map g) known = ((stage.feed rows known).1.map (List.map g'),
        f (stage.feed rows known).2.1, (stage.feed rows known).2.2) := by
  induction rows generalizing stage known with
  | nil => exact ⟨h, rfl⟩
  | cons row rows ih =>
      have hrow := congrFun (haccept row h) known
      generalize htaken : stage.accept row known = taken
      obtain ⟨answer, later⟩ := taken
      cases answer with
      | error e =>
          have herror : (f stage).accept (g row) known = (.error e, later) :=
            hrow.trans (map_of_error htaken)
          rw [List.map_cons, feed_cons_of_error herror, feed_cons_of_error htaken]
          exact ⟨h, rfl⟩
      | ok result =>
          obtain ⟨mid, out⟩ := result
          obtain ⟨hafter, hrows⟩ := ih (hP h (accept_cases htaken).1) later
          have hok : (f stage).accept (g row) known = (.ok (f mid, out.map g'), later) :=
            hrow.trans (map_of_ok htaken)
          rw [List.map_cons, feed_cons_of_ok hok, feed_cons_of_ok htaken, hrows]
          refine ⟨hafter, Prod.ext ?_ rfl⟩
          change Except.map _ (Except.map _ (mid.feed rows later).1) = Except.map _ (Except.map _ _)
          cases (mid.feed rows later).1 with
          | error e => rfl
          | ok more => exact congrArg Except.ok List.map_append.symm

theorem Passes.feed_keep (h : stage.Passes names) (rows : List Row) (known : Patterns) :
    (stage.feed rows known).2.1.Passes names ∧
      (stage.keep names).feed (rows.map (Row.keep names)) known =
        ((stage.feed rows known).1.map (List.map (Row.keep names)),
          (stage.feed rows known).2.1.keep names, (stage.feed rows known).2.2) :=
  feed_map (fun h halike => h.of_alike halike) (fun row h => h.accept_keep row) h rows known

/-- A selection of columns answers alike when the columns that it does not name are cut off. -/
theorem feed_project_keep {l : List OutputColumn} (h : ∀ c ∈ l, c.expr.columns ⊆ names)
    (rows : List Row) (known : Patterns) :
    ((project (.columns l)).feed rows known).2.1 = project (.columns l) ∧
      (project (.columns l)).feed (rows.map (Row.keep names)) known =
        (project (.columns l)).feed rows known := by
  have halike : ∀ {stage after : Stage}, stage = project (.columns l) → stage.Alike after →
      after = project (.columns l) := by
    rintro _ after rfl h
    cases h
    rfl
  have haccept : ∀ {stage : Stage} (row : Row), stage = project (.columns l) →
      (id stage).accept (row.keep names) = Prod.map id (List.map id) <$> stage.accept row := by
    rintro _ row rfl
    rw [List.map_id_fun, Prod.map_id, id_map, id, accept, accept, Selection.project,
      Selection.project, Selection.fill_keep h]
  obtain ⟨hafter, hrows⟩ := feed_map halike haccept rfl rows known
  rw [List.map_id_fun, Except.map_id] at hrows
  exact ⟨hafter, hrows⟩

end Stage

namespace Stages

open Stage

/-- The last stage selects columns, and no stage names columns outside a list. -/
inductive Selects (names : List String) : List Stage → Prop where
  | last {l : List OutputColumn} (h : ∀ c ∈ l, c.expr.columns ⊆ names) :
      Selects names [.project (.columns l)]
  | cons {stage : Stage} {rest : List Stage} (hstage : stage.Passes names)
      (hrest : Selects names rest) : Selects names (stage :: rest)

variable [PatternEngine]

/-- Cut down to the columns that are named, rows go through the stages as they are, and the stages
go on to hold what they would hold, cut down. -/
theorem Selects.serve_keep {stages : List Stage} (h : Selects names stages) (c : Call)
    (rows : List Row) (known : Patterns) :
    Selects names (serve c stages rows known).2.1 ∧
      serve c (stages.map (keep names)) (rows.map (Row.keep names)) known =
        ((serve c stages rows known).1, (serve c stages rows known).2.1.map (keep names),
          (serve c stages rows known).2.2) := by
  induction h generalizing rows known with
  | @last l hl =>
      obtain ⟨hsame, hrows⟩ := feed_project_keep hl rows known
      generalize hfeed : (project (.columns l)).feed rows known = fed at hsame hrows
      obtain ⟨answer, after, later⟩ := fed
      cases hsame
      cases answer with
      | error e =>
          rw [List.map_singleton, keep_project, serve_cons_of_error hrows,
            serve_cons_of_error hfeed]
          exact ⟨.last hl, rfl⟩
      | ok out =>
          rw [List.map_singleton, keep_project, serve_cons_of_ok hrows, serve_cons_of_ok hfeed]
          cases c <;> exact ⟨.last hl, rfl⟩
  | @cons stage rest hstage _ ih =>
      obtain ⟨hnext, hrows⟩ := hstage.feed_keep rows known
      generalize hfeed : stage.feed rows known = fed at hnext hrows
      obtain ⟨answer, next, later⟩ := fed
      cases answer with
      | error e =>
          have hcut : (stage.keep names).feed (rows.map (Row.keep names)) known =
              (.error e, next.keep names, later) := hrows
          rw [List.map_cons, serve_cons_of_error hcut, serve_cons_of_error hfeed]
          exact ⟨.cons hnext ‹_›, rfl⟩
      | ok out =>
          have hcut : (stage.keep names).feed (rows.map (Row.keep names)) known =
              (.ok (out.map (Row.keep names)), next.keep names, later) := hrows
          obtain ⟨hclosed, hclose⟩ := hnext.close_keep c
          obtain ⟨hrest, hserve⟩ := ih (out ++ (next.close c).2) later
          rw [List.map_cons, serve_cons_of_ok hcut, serve_cons_of_ok hfeed, hclose,
            ← List.map_append, hserve]
          exact ⟨.cons hclosed hrest, rfl⟩

end Stages

/-- The call with the columns of the row that it brings cut down. -/
def Call.keep (names : List String) : Call → Call
  | take row => take (row.keep names)
  | finish => finish

namespace Pipeline

/-- The pipeline with the columns of the rows that it holds cut down. -/
def keep (names : List String) (p : Pipeline) : Pipeline :=
  { p with stages := p.stages.map (Stage.keep names) }

theorem signals_keep (p : Pipeline) : (p.keep names).signals = p.signals := by
  rw [signals, signals, keep, List.map_map]
  exact congrArg (List.foldl (· + ·) 0) (List.map_congr_left fun stage _ => stage.signals_keep)

variable [PatternEngine]

theorem call_keep {p : Pipeline} (h : Stages.Selects names p.stages) (c : Call) :
    Stages.Selects names (p.call c).2.stages ∧
      (p.keep names).call (c.keep names) = ((p.call c).1, (p.call c).2.keep names) := by
  have hserve : Stages.serve (c.keep names) = Stages.serve c := by cases c <;> rfl
  have hrows : (c.keep names).rows = c.rows.map (Row.keep names) := by cases c <;> rfl
  obtain ⟨hafter, hcut⟩ := h.serve_keep c c.rows p.patterns
  rw [call_eq, call_eq, hserve, hrows, keep, hcut]
  exact ⟨hafter, rfl⟩

theorem drain_keep {σ : Type} (sink : Sink σ) {p : Pipeline} (h : Stages.Selects names p.stages)
    (s : σ) : drain sink (p.keep names) s = drain sink p s := by
  have hfinish : (p.keep names).finish = (p.finish.1, p.finish.2.keep names) :=
    (call_keep h .finish).2
  rw [drain, drain, hfinish]

/-- A run over the rows cut down is a run over the rows. -/
theorem run_keep {σ : Type} (sink : Sink σ) {p : Pipeline} (h : Stages.Selects names p.stages)
    (source : List (Except Error Row)) (s : σ) :
    run sink (source.map (Except.map (Row.keep names))) (p.keep names) s =
      run sink source p s := by
  induction source generalizing p s with
  | nil => exact drain_keep sink h s
  | cons item source ih =>
      cases item with
      | error e => rfl
      | ok row =>
          have hafter : Stages.Selects names (p.push row).2.stages := (call_keep h (.take row)).1
          have hpush : (p.keep names).push (row.keep names) =
              ((p.push row).1, (p.push row).2.keep names) := (call_keep h (.take row)).2
          have hstopped : ((p.push row).2.keep names).isStopped = (p.push row).2.isStopped := by
            rw [isStopped, isStopped, signals_keep]
          rw [List.map_cons, Except.map, run, run, hpush]
          generalize p.push row = pushed at hafter hstopped
          obtain ⟨answer, after⟩ := pushed
          cases answer with
          | error e => rfl
          | ok out => simp only [hstopped, drain_keep sink hafter, ih hafter]

end Pipeline

end Stages

end TableQuery
