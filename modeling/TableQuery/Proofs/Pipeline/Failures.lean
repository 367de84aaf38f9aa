import TableQuery.Proofs.Grammar.Refusals
import TableQuery.Proofs.Pipeline.Carried
import TableQuery.Proofs.Pipeline.Reading
import TableQuery.Proofs.Query.WellFormed
import TableQuery.Proofs.Query.Written

/-!
# Failures of runs

A query that a text denotes goes through its stages without an error of its own, but for the names
of columns and functions that do not exist: what its expressions are evaluated on carries all the
aggregates they ask for. Every other error of a run comes from its source or its sink. Every pattern
compiles here; an engine that refuses one adds its refusal to the errors, and nothing else.
-/

namespace TableQuery

section Clauses

theorem Expr.Written.asksFor {e : Expr} (h : e.Written) (ids : List AggregateId) :
    e.AsksFor ids := by
  intro a ha
  obtain ⟨s, hs, hvalue⟩ := List.mem_filterMap.1 ha
  have hwritten := h s hs
  cases s with
  | aggregate function argument id => exact hwritten.elim
  | _ => cases hvalue

namespace Stages

theorem fit_clause_append {α : Type} {ids : List AggregateId} {o : Option α} {f : α → Stage}
    {rest : List Stage} (h : ∀ a ∈ o, (f a).Fits ids ∧ (f a).carried ids = ids)
    (hrest : Fit ids rest) : Fit ids ((o.map f).toList ++ rest) := by
  cases o with
  | none => exact hrest
  | some a =>
      obtain ⟨hfits, hcarried⟩ := h a rfl
      exact ⟨hfits, hcarried.symm ▸ hrest⟩

end Stages

namespace Query

variable {q : Query}

/-- What is evaluated behind the grouping asks only for aggregates that are collected. -/
theorem asksFor_of_mem_outer {e : Expr} (h : e ∈ q.marked.outer) :
    e.AsksFor (q.marked.aggregates.map (·.id)) := by
  rw [outer_marked] at h
  obtain ⟨e, he, rfl⟩ := List.mem_map.1 h
  intro a ha
  rw [e.nodes_marked] at ha
  obtain ⟨b, hb, hid⟩ := Aggregate.exists_id_mem_addAll [] (List.mem_flatMap.2 ⟨e, he, ha⟩)
  exact List.mem_map.2 ⟨b, hb, hid⟩

theorem asksFor_argument (h : ∀ e ∈ q.outer, e.Written) {a : Aggregate}
    (ha : a ∈ q.marked.aggregates) (ids : List AggregateId) : a.argument.AsksFor ids := by
  obtain ⟨e, he, hmem⟩ := List.mem_flatMap.1 (mem_occurrences_of_mem_aggregates ha)
  exact (Expr.ofCall_of_mem_aggregates (h e he) a hmem).1.asksFor ids

/-- The stages of a query as written fit together, before any row. -/
theorem fit_stages_marked (h : ∀ e ∈ q.inner ++ q.outer, e.Written) :
    Stages.Fit [] q.marked.stages := by
  obtain ⟨hinner, houter⟩ := List.forall_mem_append.1 h
  obtain ⟨hcondition, hkeys⟩ := List.forall_mem_append.1 hinner
  let ids := q.marked.aggregates.map (·.id)
  have hasks : ∀ e ∈ q.marked.outer, e.AsksFor ids := fun _ => asksFor_of_mem_outer
  rw [outer, List.forall_mem_append, List.forall_mem_append] at hasks
  obtain ⟨hselect, hhaving, horder⟩ := hasks
  have hrest : Stages.Fit ids ((q.marked.having.map (Stage.filter .having)).toList ++
      ((q.marked.orderBy.map fun terms => Stage.sort { terms }).toList ++
      ((q.marked.offset.map Stage.skip).toList ++
      ((q.marked.limit.map fun n => Stage.limit { remaining := n }).toList ++
      [.project q.marked.select])))) := by
    apply Stages.fit_clause_append
    · exact fun e he => ⟨hhaving e (Option.mem_toList.2 he), rfl⟩
    apply Stages.fit_clause_append
    · intro terms hterms
      rw [hterms] at horder
      exact ⟨⟨List.forall_mem_map.1 horder, List.forall_mem_nil _⟩, rfl⟩
    apply Stages.fit_clause_append
    · exact fun _ _ => ⟨trivial, rfl⟩
    apply Stages.fit_clause_append
    · exact fun _ _ => ⟨trivial, rfl⟩
    exact ⟨hselect, trivial⟩
  simp only [stages, List.append_assoc]
  apply Stages.fit_clause_append
  · exact fun e he => ⟨(hcondition e (Option.mem_toList.2 he)).asksFor [], rfl⟩
  split
  · have hids : ids.Nodup := by
      apply Aggregate.nodup_addAll
      exact List.nodup_nil
    refine ⟨⟨?_, hids, List.forall_mem_nil _⟩, hrest⟩
    rw [List.forall_mem_append, List.forall_mem_map]
    exact ⟨fun e he => (hkeys e he).asksFor [], fun a ha => asksFor_argument houter ha []⟩
  · next hgrouped =>
    -- without a grouping stage no aggregate is collected, so the rest asks for none
    rw [isGrouped, Bool.or_eq_true, not_or] at hgrouped
    have hnone : q.marked.aggregates = [] := by simpa using hgrouped.2
    simpa [ids, hnone] using hrest

end Query

end Clauses

section Reached

namespace Pipeline

/-- The pipelines that a query comes to by pushing rows and finishing, in any order and also after
an error. -/
inductive Reached (q : Query) : Pipeline → Prop where
  | start : Reached q (ofQuery q)
  | push {p : Pipeline} (row : Row) (h : Reached q p) : Reached q (p.push row).2
  | finish {p : Pipeline} (h : Reached q p) : Reached q p.finish.2

variable {q : Query} {p : Pipeline}

theorem fit_push (h : Stages.Fit [] p.stages) (row : Row) :
    Answers (fun _ => True) (p.push row).1 ∧ Stages.Fit [] (p.push row).2.stages :=
  Stages.fit_serve (.take row) h (List.forall_mem_singleton.2 (List.forall_mem_nil _)) p.patterns

theorem fit_finish (h : Stages.Fit [] p.stages) :
    Answers (fun _ => True) p.finish.1 ∧ Stages.Fit [] p.finish.2.stages :=
  Stages.fit_serve .finish h (List.forall_mem_nil _) p.patterns

theorem Reached.fit (h : Reached q p) (hq : Stages.Fit [] q.stages) : Stages.Fit [] p.stages := by
  induction h with
  | start => exact hq
  | push row _ ih => exact (fit_push ih row).2
  | finish _ ih => exact (fit_finish ih).2

end Pipeline

end Reached

section Runs

/-- The run ends at the item of its source that is the error. -/
def Outcome.EndsAt {σ : Type} (o : Outcome σ) (source : List (Except Error Row)) (e : Error) :
    Prop :=
  ∃ front rest, source = front ++ .error e :: rest ∧ o.pulled = front.length + 1

namespace Sink

variable {σ : Type} {sink : Sink σ} {e : Error}

/-- The error is one that the sink gives for a row or at the end. -/
def Gives (sink : Sink σ) (e : Error) : Prop :=
  (∃ row s, (sink.write row s).1 = .error e) ∨ ∃ s, (sink.finish s).1 = .error e

theorem gives_of_writeAll {rows : List Row} {s after : σ}
    (h : sink.writeAll rows s = (.error e, after)) : sink.Gives e := by
  induction rows generalizing s with
  | nil => cases h
  | cons row rows ih =>
      rw [writeAll] at h
      split at h
      · next hwrite =>
        cases h
        exact .inl ⟨row, s, congrArg Prod.fst hwrite⟩
      · exact ih h

end Sink

namespace Pipeline

variable {σ : Type} {sink : Sink σ} {now after : Pipeline × σ} {item : Except Error Row}
  {e : Error}

theorem fit_advance (h : Stages.Fit [] now.1.stages) (hitem : advance sink now item = .ok after) :
    Stages.Fit [] after.1.stages := by
  obtain ⟨row, out, -, hpush, -⟩ := advance_eq_ok.1 hitem
  have hfit := (fit_push h row).2
  rw [hpush] at hfit
  exact hfit

theorem Reads.fit {items : List (Except Error Row)} (hreads : Reads sink now items after)
    (h : Stages.Fit [] now.1.stages) : Stages.Fit [] after.1.stages := by
  induction hreads with
  | nil now => exact h
  | cons hitem _ _ ih => exact ih (fit_advance h hitem)

theorem advance_error (h : Stages.Fit [] now.1.stages)
    (hitem : advance sink now item = .error e) :
    item = .error e ∨ e.IsUnknownName ∨ sink.Gives e := by
  cases item with
  | error e' =>
      cases hitem
      exact .inl rfl
  | ok row =>
      have hanswer := (fit_push h row).1
      rw [advance] at hitem
      split at hitem
      · next hpush =>
        cases hitem
        rw [hpush] at hanswer
        exact .inr (.inl hanswer)
      · split at hitem
        · next hwrite =>
          cases hitem
          exact .inr (.inr (Sink.gives_of_writeAll hwrite))
        · cases hitem

theorem drain_error {p : Pipeline} {s : σ} (h : Stages.Fit [] p.stages)
    (hdrain : (drain sink p s).result = .error e) : e.IsUnknownName ∨ sink.Gives e := by
  have hanswer := (fit_finish h).1
  rw [drain] at hdrain
  split at hdrain
  · next hfinish =>
    cases hdrain
    rw [hfinish] at hanswer
    exact .inl hanswer
  · split at hdrain
    · next hwrite =>
      cases hdrain
      exact .inr (Sink.gives_of_writeAll hwrite)
    · next s _ => exact .inr (.inr ⟨s, hdrain⟩)

/-- A run fails for a name, or with an error of the source, which it then ends at, or of the
sink. -/
theorem run_error {p : Pipeline} (h : Stages.Fit [] p.stages) {source : List (Except Error Row)}
    {s : σ} (hrun : (run sink source p s).result = .error e) :
    e.IsUnknownName ∨ (run sink source p s).EndsAt source e ∨ sink.Gives e := by
  rcases reads_cases sink (p, s) source with ⟨after, hreads⟩ | ⟨items, late, after, rfl, hstops⟩ |
    ⟨front, e', hfails⟩
  · have hdrain := hreads.run_append []
    rw [List.append_nil] at hdrain
    rw [hdrain] at hrun
    exact (drain_error (hreads.fit h) hrun).imp_right .inr
  · have hdrain := hstops.run_append late
    rw [hdrain] at hrun
    obtain ⟨front, item, mid, -, hfront, hitem, -⟩ := hstops
    exact (drain_error (fit_advance (hfront.fit h) hitem) hrun).imp_right .inr
  · obtain ⟨hresult, hpulled⟩ := hfails.run_eq
    obtain ⟨item, rest, mid, hsource, hfront, hitem⟩ := hfails
    obtain rfl : e' = e := Except.error.inj (hresult.symm.trans hrun)
    rcases advance_error (hfront.fit h) hitem with rfl | hcause
    · exact .inr (.inl ⟨front, rest, hsource, hpulled⟩)
    · exact hcause.imp_right .inr

end Pipeline

namespace Query

/-- What does not form a query is refused when it is cut into tokens or for its grammar; what is
not compiled may also have no meaning. A query that is compiled runs without an error of its own
but for the name of a column or of a function that does not exist: any other error of a run is the
item of the source at which the run ends, or one that the sink gives. In particular no operator is
unknown. And however the pipeline of the query is used, it fails only for such a name, so that no
stage finds the value of an aggregate missing on any row. A text always denotes a pattern, so that
LIKE does not fail. -/
theorem errors_stay_in_phase (text : String) :
    (∀ e, ofText text = .error e → e.kind = .lexical ∨ e.kind = .unexpected) ∧
      (∀ e, compile text = .error e →
        e.kind = .lexical ∨ e.kind = .unexpected ∨ e.kind = .semantic) ∧
      ∀ q, compile text = .ok q →
        (∀ (σ : Type) (sink : Sink σ) (source : List (Except Error Row)) (s : σ) (e : Error),
          (q.run source sink s).result = .error e →
            e.IsUnknownName ∨ (q.run source sink s).EndsAt source e ∨ sink.Gives e) ∧
        ∀ p, Pipeline.Reached q p →
          (∀ row e, (p.push row).1 = .error e → e.IsUnknownName) ∧
            ∀ e, p.finish.1 = .error e → e.IsUnknownName := by
  refine ⟨fun _ => kind_of_ofText_error, fun _ => kind_of_compile_error, fun q hcompile => ?_⟩
  obtain ⟨parsed, hparse, -⟩ := except_bind_eq_ok.1 hcompile
  obtain rfl := eq_marked_of_compile hparse hcompile
  have hfit := fit_stages_marked (written_of_ofText hparse).1
  refine ⟨fun σ sink source s e => Pipeline.run_error hfit, fun p hp => ⟨?_, ?_⟩⟩
  · intro row e he
    exact (Pipeline.fit_push (hp.fit hfit) row).1.isUnknownName he
  · intro e he
    exact (Pipeline.fit_finish (hp.fit hfit)).1.isUnknownName he

/-- A function that does not exist is found missing when the groups are selected. -/
theorem errors_stay_in_phase_unknown_function :
    let text := "SELECT F(GROUP_CONCAT(v)) FROM 't' GROUP BY g"
    let row := Row.ofList [("g", .text "a"), ("v", .text "1")]
    (∃ e, ofText "SELECT" = .error e ∧ (e.kind = .lexical ∨ e.kind = .unexpected)) ∧
      (∃ e, compile "SELECT a FROM 't' WHERE SUM(a)" = .error e ∧
        (e.kind = .lexical ∨ e.kind = .unexpected ∨ e.kind = .semantic)) ∧
      ∃ q, compile text = .ok q ∧
        (∃ e, (q.run [.ok row] Sink.rows #[]).result = .error e ∧ e.IsUnknownName) ∧
        ∃ e, ((Pipeline.ofQuery q).push row).2.finish.1 = .error e ∧ e.IsUnknownName := by
  intro text row
  let q : Query := {
    select := .columns [⟨.call "F" [.aggregate .groupConcat (.identifier "v")
      (Aggregate.ofCall .groupConcat (.identifier "v")).id], "F(GROUP_CONCAT(v))"⟩]
    source := "t"
    groupBy := some [.identifier "g"]
    aggregates := [.ofCall .groupConcat (.identifier "v")] }
  have htokens : Token.ofText text = .ok
      [.keyword "SELECT", .identifier "F", ⟨.openParenthesis, "(", none⟩,
        .identifier "GROUP_CONCAT", ⟨.openParenthesis, "(", none⟩, .identifier "v",
        ⟨.closeParenthesis, ")", none⟩, ⟨.closeParenthesis, ")", none⟩, .keyword "FROM",
        ⟨.string, "'t'", some (.text "t")⟩, .keyword "GROUP", .keyword "BY", .identifier "g"] := by
    decide +kernel
  have hcompile : compile text = .ok q := by
    rw [compile, ofText, htokens]
    rfl
  have hkeyword : Token.ofText "SELECT" = .ok [.keyword "SELECT"] := by decide +kernel
  have hrefused : ofText "SELECT" = .error (.unexpected .expression Parser.endMark) := by
    rw [ofText, hkeyword]
    rfl
  have hwords : Token.ofText "SELECT a FROM 't' WHERE SUM(a)" = .ok
      [.keyword "SELECT", .identifier "a", .keyword "FROM", ⟨.string, "'t'", some (.text "t")⟩,
        .keyword "WHERE", .identifier "SUM", ⟨.openParenthesis, "(", none⟩, .identifier "a",
        ⟨.closeParenthesis, ")", none⟩] := by
    decide +kernel
  have hmisplaced : compile "SELECT a FROM 't' WHERE SUM(a)" =
      .error (.semantic (.misplacedAggregate "WHERE")) := by
    rw [compile, ofText, hwords]
    rfl
  have hrun : (q.run [.ok row] Sink.rows #[]).result = .error (.unknownFunction "F") := by
    decide +kernel
  have hfinish : ((Pipeline.ofQuery q).push row).2.finish.1 = .error (.unknownFunction "F") := by
    decide +kernel
  obtain ⟨-, -, hcompiled⟩ := errors_stay_in_phase text
  obtain ⟨hruns, hreached⟩ := hcompiled q hcompile
  refine ⟨⟨_, hrefused, (errors_stay_in_phase "SELECT").1 _ hrefused⟩,
    ⟨_, hmisplaced, (errors_stay_in_phase _).2.1 _ hmisplaced⟩, q, hcompile, ⟨_, hrun, ?_⟩,
    _, hfinish, (hreached _ (.push row .start)).2 _ hfinish⟩
  rcases hruns _ Sink.rows [.ok row] #[] _ hrun with hname | ⟨front, rest, hsource, -⟩ | hgiven
  · exact hname
  · cases front with
    | nil => cases hsource
    | cons item front =>
        obtain ⟨-, hnil⟩ := List.cons.inj hsource
        cases front <;> cases hnil
  · rcases hgiven with ⟨_, _, h⟩ | ⟨_, h⟩ <;> cases h

end Query

end Runs

end TableQuery
