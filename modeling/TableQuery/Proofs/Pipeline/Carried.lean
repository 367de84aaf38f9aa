import TableQuery.Proofs.Evaluation.Failures
import TableQuery.Proofs.Grouping.Arrival
import TableQuery.Proofs.Pipeline.Invariants

/-!
# Aggregates carried along a pipeline

The rows that a grouping passes on carry a value for each of its aggregates, and filters, orderings
and limits pass them on as they are. So every stage takes rows that carry the aggregates it asks
for, and none of its evaluations fails for the lack of one.
-/

namespace TableQuery

/-- The row carries a value for each of the identities. -/
def Row.Bears (row : Row) (ids : List AggregateId) : Prop :=
  ∀ id ∈ ids, (row.aggregate? id).isSome

theorem Row.bears_iff {row : Row} {values : AggregateValues} (h : row.aggregates = some values)
    {ids : List AggregateId} : row.Bears ids ↔ ids ⊆ values.keys := by
  refine forall₂_congr fun id _ => ?_
  rw [Row.aggregate?, h, Option.bind_some, Option.isSome_iff_ne_none, ne_eq,
    OrderedMap.get?_eq_none_iff, not_not]

/-- The expression asks for the values of no other aggregates than these. -/
def Expr.AsksFor (ids : List AggregateId) (e : Expr) : Prop := ∀ a ∈ e.nodes, a.id ∈ ids

theorem Expr.AsksFor.answers {ids : List AggregateId} {e : Expr} (h : e.AsksFor ids) {row : Row}
    (hrow : row.Bears ids) : (e.eval row).Answers fun _ => True :=
  answers_eval fun a ha => hrow a.id (h a ha)

theorem Expr.answers_evalAll_of_asksFor {ids : List AggregateId} {l : List Expr}
    (h : ∀ e ∈ l, e.AsksFor ids) {row : Row} (hrow : row.Bears ids) :
    (evalAll row l).Answers fun _ => True :=
  answers_evalAll fun e he => (h e he).answers hrow

section Representatives

namespace KeyTree

variable {α : Type} {P : α → Prop}

theorem forall_mem_alterChild {key : String} {g : KeyTree α → KeyTree α}
    (hg : ∀ t, (∀ a ∈ t.toList, P a) → ∀ a ∈ (g t).toList, P a)
    {children : List (String × KeyTree α)} (h : ∀ a ∈ toListAll children, P a) :
    ∀ a ∈ toListAll (alterChild key g children), P a := by
  induction children with
  | nil =>
      rw [alterChild, toListAll, List.forall_mem_append]
      exact ⟨hg ∅ (List.forall_mem_nil _), List.forall_mem_nil _⟩
  | cons child rest ih =>
      rw [toListAll, List.forall_mem_append] at h
      rw [alterChild]
      split <;> rw [toListAll, List.forall_mem_append]
      · exact ⟨hg child.2 h.1, h.2⟩
      · exact ⟨h.1, ih h.2⟩

/-- What holds of all values of a tree goes on to hold where a value is changed in keeping with
it. -/
theorem forall_mem_alter {f : Option α → α} (hf : ∀ o, (∀ a ∈ o, P a) → P (f o))
    (path : List String) {t : KeyTree α} (h : ∀ a ∈ t.toList, P a) :
    ∀ a ∈ (t.alter f path).toList, P a := by
  induction path generalizing t with
  | nil =>
      obtain ⟨value, children⟩ := t
      rw [toList, List.forall_mem_append] at h
      rw [alter, toList, List.forall_mem_append]
      refine ⟨List.forall_mem_singleton.2 (hf value fun a ha => h.1 a (Option.mem_toList.2 ha)), ?_⟩
      exact h.2
  | cons key path ih =>
      obtain ⟨value, children⟩ := t
      rw [toList, List.forall_mem_append] at h
      rw [alter, toList, List.forall_mem_append]
      exact ⟨h.1, forall_mem_alterChild (fun _ => ih) h.2⟩

end KeyTree

namespace Grouping

theorem keys_accumulateAll (inputs : List (Aggregate × Value)) (values : AggregateValues) :
    (accumulateAll values inputs).keys = values.keys := by
  induction inputs generalizing values with
  | nil => rfl
  | cons input inputs ih =>
      rw [accumulateAll, List.foldl_cons]
      exact (ih _).trans (keys_accumulate values input.1 input.2)

/-- A representative carries a value for each aggregate, from the first row of the group on. -/
theorem bears_representative {aggregates : List Aggregate}
    (hids : (aggregates.map Aggregate.id).Nodup) (row : Row) (inputs : List Value)
    {known : Option Row} (h : ∀ first ∈ known, first.Bears (aggregates.map Aggregate.id)) :
    (representative aggregates row inputs known).Bears (aggregates.map Aggregate.id) := by
  have hfirst : (known.getD (row.withAggregates (initialValues aggregates))).Bears
      (aggregates.map Aggregate.id) := by
    cases known with
    | some first => exact h first rfl
    | none =>
        apply (Row.bears_iff rfl).2
        rw [keys_initialValues hids]
        exact List.Subset.refl _
  rw [representative]
  split
  · next values hvalues =>
    apply (Row.bears_iff rfl).2
    rw [keys_accumulateAll]
    exact (Row.bears_iff hvalues).1 hfirst
  · exact hfirst

end Grouping

end Representatives

section Stages

namespace Stage

/-- A stage asks only for the values of aggregates that the rows it takes carry, and the rows it
holds carry what it passes on. -/
def Fits (ids : List AggregateId) : Stage → Prop
  | filter _ condition => condition.AsksFor ids
  | group g =>
    (∀ e ∈ g.keys ++ g.aggregates.map (·.argument), e.AsksFor ids) ∧
      (g.aggregates.map (·.id)).Nodup ∧ ∀ row ∈ g.rows, row.Bears (g.aggregates.map (·.id))
  | sort s =>
    (∀ t ∈ s.terms, t.expr.AsksFor ids) ∧ ∀ entry ∈ s.buffer.toList, entry.2.Bears ids
  | skip _ | limit _ => True
  | project select => ∀ e ∈ select.exprs, e.AsksFor ids

/-- The aggregates that the rows a stage passes on carry, given those of the rows it takes. -/
def carried (ids : List AggregateId) : Stage → List AggregateId
  | group g => g.aggregates.map (·.id)
  | project _ => []
  | _ => ids

variable {ids : List AggregateId}

/-- The stage afterwards is in the same place as the one before, and the rows passed on carry what
they should. -/
def Keeps (ids : List AggregateId) (before after : Stage) (out : List Row) : Prop :=
  after.Fits ids ∧ after.carried ids = before.carried ids ∧
    ∀ row ∈ out, row.Bears (before.carried ids)

theorem answers_add_grouping {g : Grouping} (h : (group g).Fits ids) {row : Row}
    (hrow : row.Bears ids) :
    (g.accept row).Answers fun after => (group g).Keeps ids (group after) [] := by
  obtain ⟨hasks, hids, hrows⟩ := h
  obtain ⟨hkeys, harguments⟩ := List.forall_mem_append.1 hasks
  refine (Expr.answers_evalAll_of_asksFor hkeys hrow).bind fun keys _ => ?_
  refine (Expr.answers_evalAll_of_asksFor harguments hrow).bind fun inputs _ => ?_
  refine .pure ⟨⟨hasks, hids, ?_⟩, rfl, List.forall_mem_nil _⟩
  exact KeyTree.forall_mem_alter (fun _ => Grouping.bears_representative hids row inputs) _ hrows

theorem answers_add_sorting {s : Sorting} (h : (sort s).Fits ids) {row : Row}
    (hrow : row.Bears ids) :
    (s.accept row).Answers fun after => (sort s).Keeps ids (sort after) [] := by
  obtain ⟨hasks, hrows⟩ := h
  have hkeys : ∀ e ∈ s.terms.map (·.expr), e.AsksFor ids := List.forall_mem_map.2 hasks
  refine (Expr.answers_evalAll_of_asksFor hkeys hrow).bind fun keys _ => ?_
  refine .pure ⟨⟨hasks, ?_⟩, rfl, List.forall_mem_nil _⟩
  rw [Array.toList_push, List.forall_mem_append]
  exact ⟨hrows, List.forall_mem_singleton.2 hrow⟩

end Stage

theorem Selection.answers_fill {row : Row} {l : List OutputColumn}
    (h : ∀ c ∈ l, (c.expr.eval row).Answers fun _ => True) (result : Row) :
    (fill row l result).Answers fun _ => True := by
  induction l generalizing result with
  | nil => exact .pure trivial
  | cons c l ih =>
      obtain ⟨hc, hl⟩ := List.forall_mem_cons.1 h
      exact hc.bind fun v _ => ih hl _

theorem Selection.answers_project {ids : List AggregateId} {select : Selection}
    (h : ∀ e ∈ select.exprs, e.AsksFor ids) {row : Row} (hrow : row.Bears ids) :
    (select.project row).Answers fun _ => True := by
  cases select with
  | all => exact .pure trivial
  | columns l =>
      refine answers_fill (fun c hc => ?_) {}
      exact (h c.expr (List.mem_map_of_mem hc)).answers hrow

namespace Stage

variable {ids : List AggregateId}

/-- A stage takes a row, or it fails for a name. -/
theorem answers_accept {stage : Stage} (h : stage.Fits ids) {row : Row} (hrow : row.Bears ids) :
    (stage.accept row).Answers fun result => stage.Keeps ids result.1 result.2 := by
  have hout : ∀ passes : Bool, ∀ r ∈ if passes then [row] else [], r.Bears ids := by
    intro passes
    split
    · exact List.forall_mem_singleton.2 hrow
    · exact List.forall_mem_nil _
  cases stage with
  | filter clause condition =>
      exact (Expr.AsksFor.answers h hrow).bind fun v _ => .pure ⟨h, rfl, hout _⟩
  | group g => exact (answers_add_grouping h hrow).bind fun _ hafter => .pure hafter
  | sort s => exact (answers_add_sorting h hrow).bind fun _ hafter => .pure hafter
  | skip count =>
      cases count with
      | zero => exact .pure ⟨h, rfl, List.forall_mem_singleton.2 hrow⟩
      | succ n => exact .pure ⟨h, rfl, List.forall_mem_nil _⟩
  | limit l => exact .pure ⟨h, rfl, hout _⟩
  | project select =>
      refine (Selection.answers_project h hrow).bind fun out _ => ?_
      exact .pure ⟨h, rfl, fun _ _ => List.forall_mem_nil _⟩

theorem keeps_finish {stage : Stage} (h : stage.Fits ids) :
    stage.Keeps ids stage.finish.1 stage.finish.2 := by
  cases stage with
  | group g =>
      obtain ⟨hasks, hids, hrows⟩ := h
      exact ⟨⟨hasks, hids, List.forall_mem_nil _⟩, rfl, hrows⟩
  | sort s =>
      obtain ⟨hasks, hrows⟩ := h
      refine ⟨⟨hasks, List.forall_mem_nil _⟩, rfl, ?_⟩
      refine List.forall_mem_map.2 fun entry hentry => hrows entry ?_
      exact List.mem_mergeSort.1 hentry
  | _ => exact ⟨h, rfl, List.forall_mem_nil _⟩

end Stage

end Stages

section Pipelines

namespace Stages

/-- Each stage fits what the stages before it pass on. -/
def Fit (ids : List AggregateId) : List Stage → Prop
  | [] => True
  | stage :: rest => stage.Fits ids ∧ Fit (stage.carried ids) rest

end Stages

/-- All rows at a place of a pipeline carry the aggregates that the stage there asks for. -/
def carriedAggregates : RowInvariant (List AggregateId) where
  row ids row := row.Bears ids
  stage := Stage.Fits
  next ids stage := stage.carried ids
  error := Error.IsUnknownName

theorem kept_carriedAggregates : carriedAggregates.Kept where
  accept hstage hrow h := (Stage.answers_accept hstage hrow).ok h
  fail hstage hrow h := (Stage.answers_accept hstage hrow).error h
  finish := Stage.keeps_finish

namespace Stages

variable {ids : List AggregateId}

theorem fit_iff_chain {stages : List Stage} :
    Fit ids stages ↔ carriedAggregates.Chain ids stages := by
  induction stages generalizing ids with
  | nil => exact Iff.rfl
  | cons stage rest ih => exact and_congr_right fun _ => ih

/-- A call fails only for a name, and leaves stages that fit. -/
theorem fit_serve (c : Call) {stages : List Stage} (h : Fit ids stages) {rows : List Row}
    (hrows : ∀ row ∈ rows, row.Bears ids) (known : Patterns) :
    Answers (fun _ => True) (serve c stages rows known).1 ∧
      Fit ids (serve c stages rows known).2.1 := by
  obtain ⟨hchain, -, hanswer⟩ := kept_carriedAggregates.serve c (fit_iff_chain.1 h) hrows known
  refine ⟨?_, fit_iff_chain.2 hchain⟩
  cases hserve : (serve c stages rows known).1 with
  | ok out => trivial
  | error e =>
      rw [hserve] at hanswer
      exact hanswer

end Stages

end Pipelines

end TableQuery
