import TableQuery.Proofs.Pipeline.Reading

/-!
# Runs that end early

A query with a limit that neither groups nor sorts reads its source up to the first row beyond the
limit. Every other query reads the whole source. In both cases what it writes is what it would
write if it read on.
-/

namespace TableQuery

namespace Stage

theorem role_of_exhausted {stage : Stage} (h : stage.Exhausted) : stage.role = .limit := by
  cases stage with
  | limit l => rfl
  | _ => exact h.elim

variable [PatternEngine]

theorem step_filter_eq_ok {clause : FilterClause} {condition : Expr} {row : Row} {after : Stage}
    {out : List Row} (h : (filter clause condition).step row = .ok (after, out)) :
    ∃ keep, condition.holds row = .ok keep ∧ after = filter clause condition ∧
      out = if keep then [row] else [] := by
  rw [step_eq, accept, (Expr.transparent_eval row condition).value_bind _ fun _ => .pure _] at h
  obtain ⟨v, hv, h⟩ := except_bind_eq_ok.1 h
  cases h
  exact ⟨v.isTruthy, except_map_eq_ok.2 ⟨v, hv, rfl⟩, rfl, rfl⟩

/-- A filter that fails on no row of a batch passes on the rows on which its condition holds. -/
theorem steps_filter_eq_ok {clause : FilterClause} {condition : Expr} {rows out : List Row}
    {after : Stage} (h : (filter clause condition).steps rows = .ok (after, out)) :
    after = filter clause condition ∧
      out = rows.filter fun row => answerOr false (condition.holds row) := by
  induction rows generalizing out with
  | nil =>
      cases h
      exact ⟨rfl, rfl⟩
  | cons row rows ih =>
      obtain ⟨mid, first, more, hfirst, hmore, rfl⟩ := steps_cons_eq_ok.1 h
      obtain ⟨keep, hkeep, rfl, rfl⟩ := step_filter_eq_ok hfirst
      obtain ⟨rfl, rfl⟩ := ih hmore
      refine ⟨rfl, ?_⟩
      rw [List.filter_cons, hkeep]
      cases keep <;> rfl

end Stage

namespace Query

/-- Whether an item of a source is a row on which the condition of a query holds. -/
def admits [PatternEngine] (q : Query) : Except Error Row → Bool
  | .error _ => false
  | .ok row =>
    match q.condition with
    | none => true
    | some e => answerOr false (e.holds row)

/-- A condition on groups stands behind grouping keys only. -/
theorem having_eq_none_of_ofText {text : String} {q : Query} (hparse : ofText text = .ok q)
    (h : q.groupBy = none) : q.having = none := by
  obtain ⟨tokens, hsentence⟩ := sentence_of_ofText hparse
  cases hsentence with
  | intro hclauses _ =>
      cases hclauses with
      | intro _ _ _ _ _ _ _ _ _ =>
          rw [Option.map_eq_none_iff] at h
          exact congrArg (Option.bind · Prod.snd) h

theorem having_eq_none_of_compile {text : String} {q : Query} (hcompile : compile text = .ok q)
    (h : q.isGrouped = false) : q.having = none := by
  obtain ⟨p, hparse, -⟩ := except_bind_eq_ok.1 hcompile
  obtain rfl := eq_marked_of_compile hparse hcompile
  rw [isGrouped, Bool.or_eq_false_iff] at h
  have hgroupBy : p.groupBy = none :=
    Option.isNone_iff_eq_none.1 (Option.isSome_eq_false_iff.1 h.1)
  exact congrArg (Option.map Expr.marked) (having_eq_none_of_ofText hparse hgroupBy)

theorem exists_barrier {q : Query} (h : q.isGrouped = true ∨ q.orderBy.isSome = true) :
    ∃ stage ∈ q.stages, stage.role = .barrier := by
  rcases h with h | h
  · exact ⟨.group { keys := q.groupBy.getD [], aggregates := q.aggregates }, by simp [stages, h],
      rfl⟩
  · obtain ⟨terms, hterms⟩ := Option.isSome_iff_exists.1 h
    exact ⟨.sort { terms }, by simp [stages, hterms], rfl⟩

theorem role_ne_limit {q : Query} (h : q.limit = none) :
    ∀ stage ∈ q.stages, stage.role ≠ .limit := by
  rw [stages_eq, h, Option.map_none, Option.toList_none, List.nil_append, List.forall_mem_append]
  exact ⟨fun _ => role_ne_limit_of_mem_beforeLimit, List.forall_mem_singleton.2 nofun⟩

/-- With a stage that holds rows back, or without a limit, nothing asks for the end. -/
theorem calm_of_pushes [PatternEngine] {q : Query}
    (h : (q.isGrouped = true ∨ q.orderBy.isSome = true) ∨ q.limit = none) {rows out : List Row}
    {after : List Stage} (hpushes : Stages.pushes rows q.stages = .ok (after, out)) :
    Stages.Calm after := by
  have hroles := Stages.pushes_role hpushes
  have hcalm := Stages.calm_or_halted_of_pushes hpushes (ordered_stages q) (calm_stages q)
  refine hcalm.resolve_right ?_
  rintro ⟨hnone, stage, hstage, hexhausted⟩
  rcases h with h | h
  · obtain ⟨barrier, hmem, hrole⟩ := exists_barrier h
    have hafter : barrier.role ∈ after.map Stage.role := hroles ▸ List.mem_map_of_mem hmem
    obtain ⟨other, hother, heq⟩ := List.mem_map.1 hafter
    exact hnone other hother (heq.trans hrole)
  · have hmem : stage.role ∈ q.stages.map Stage.role := hroles ▸ List.mem_map_of_mem hstage
    obtain ⟨other, hother, heq⟩ := List.mem_map.1 hmem
    exact role_ne_limit h other hother (heq.trans (Stage.role_of_exhausted hexhausted))

end Query

namespace Stages

theorem calm_append {front back : List Stage} :
    Calm (front ++ back) ↔ Calm front ∧ Calm back := List.forall_mem_append

variable [PatternEngine]

theorem pushes_singleton {rows out : List Row} {stage : Stage} {after : List Stage}
    (h : pushes rows [stage] = .ok (after, out)) :
    ∃ next, stage.steps rows = .ok (next, out) ∧ after = [next] := by
  obtain ⟨next, mid, others, hsteps, hrest, rfl⟩ := pushes_cons_eq_ok.1 h
  cases hrest
  exact ⟨next, hsteps, rfl⟩

theorem pushes_condition {q : Query} {rows out : List Row} {after : List Stage}
    (h : pushes rows (q.condition.map (Stage.filter .where)).toList = .ok (after, out)) :
    Calm after ∧ out = rows.filter fun row => q.admits (.ok row) := by
  unfold Query.admits
  cases hcondition : q.condition with
  | none =>
      rw [hcondition] at h
      cases h
      exact ⟨nofun, (List.filter_true rows).symm⟩
  | some e =>
      rw [hcondition] at h
      obtain ⟨next, hsteps, rfl⟩ := pushes_singleton h
      obtain ⟨rfl, rfl⟩ := Stage.steps_filter_eq_ok hsteps
      exact ⟨by simp [Calm, Stage.signals], rfl⟩

theorem pushes_offset {offset : Option Nat} {rows out : List Row} {after : List Stage}
    (h : pushes rows (offset.map Stage.skip).toList = .ok (after, out)) :
    Calm after ∧ out = rows.drop (offset.getD 0) := by
  cases offset with
  | none =>
      cases h
      exact ⟨nofun, rfl⟩
  | some n =>
      obtain ⟨next, hsteps, rfl⟩ := pushes_singleton h
      rw [Stage.steps_skip] at hsteps
      cases hsteps
      exact ⟨by simp [Calm, Stage.signals], rfl⟩

/-- A limit asks for the end just when more rows come than it lets pass. -/
theorem calm_limit_iff {limit : Nat} {select : Selection} {rows out : List Row}
    {after : List Stage}
    (h : pushes rows [.limit { remaining := limit }, .project select] = .ok (after, out)) :
    Calm after ↔ rows.length ≤ limit := by
  obtain ⟨next, mid, others, hsteps, hrest, rfl⟩ := pushes_cons_eq_ok.1 h
  obtain ⟨last, hlast, rfl⟩ := pushes_singleton hrest
  obtain ⟨reached, hreached, -, -, hsignals⟩ := Stage.steps_limit { remaining := limit } rows
  rw [hreached] at hsteps
  cases hsteps
  have hproject : last.signals = 0 := (Stage.steps_cases hlast).2.2 nofun
  have hcalm : Calm [.limit reached, last] ↔ reached.signals = 0 :=
    ⟨fun h => h _ List.mem_cons_self,
      fun h => List.forall_mem_cons.2 ⟨h, List.forall_mem_singleton.2 hproject⟩⟩
  rw [hcalm, hsignals]
  by_cases hlength : limit < rows.length
  · simp [hlength]
  · simp [hlength, Nat.not_lt.1 hlength]

end Stages

namespace Query

/-- Where nothing is grouped or sorted, the limit asks for the end just when more rows fulfil the
condition than it and the offset account for. -/
theorem calm_iff [PatternEngine] {q : Query} {limit : Nat} (hlimit : q.limit = some limit)
    (hgrouped : q.isGrouped = false) (hhaving : q.having = none) (horder : q.orderBy = none)
    {rows out : List Row} {after : List Stage}
    (h : Stages.pushes rows q.stages = .ok (after, out)) :
    Stages.Calm after ↔
      (rows.countP fun row => q.admits (.ok row)) ≤ q.offset.getD 0 + limit := by
  have hstages : q.stages = (q.condition.map (Stage.filter .where)).toList ++
      ((q.offset.map Stage.skip).toList ++
        [.limit { remaining := limit }, .project q.select]) := by
    simp [stages, hlimit, hgrouped, hhaving, horder]
  rw [hstages] at h
  obtain ⟨front, kept, later, hfront, hlater, rfl⟩ := Stages.pushes_stages_append h
  obtain ⟨middle, left, back, hmiddle, hback, rfl⟩ := Stages.pushes_stages_append hlater
  obtain ⟨hfrontCalm, rfl⟩ := Stages.pushes_condition hfront
  obtain ⟨hmiddleCalm, rfl⟩ := Stages.pushes_offset hmiddle
  rw [Stages.calm_append, Stages.calm_append, Stages.calm_limit_iff hback, List.length_drop,
    ← List.countP_eq_length_filter]
  simp only [hfrontCalm, hmiddleCalm, true_and]
  omega

open Pipeline

section Run

variable [PatternEngine] {σ : Type} {q : Query} {sink : Sink σ}
  {source items : List (Except Error Row)} {s : σ}
  {after : Pipeline × σ}

theorem countP_map_ok (q : Query) (rows : List Row) :
    (rows.map Except.ok).countP q.admits = rows.countP fun row => q.admits (.ok row) := by
  rw [List.countP_map]
  rfl

/-- A query with a limit that neither groups nor sorts takes the items up to the first row beyond
offset and limit on which its condition holds. -/
theorem pulled_of_limit {limit : Nat} (hlimit : q.limit = some limit)
    (hgrouped : q.isGrouped = false) (hhaving : q.having = none) (horder : q.orderBy = none)
    (hgoes : ∀ front e, ¬Fails sink (ofQuery q, s) source front e) :
    (∃ before item after, source = before ++ item :: after ∧ q.admits item = true ∧
        before.countP q.admits = q.offset.getD 0 + limit ∧
        (q.run source sink s).pulled = before.length + 1) ∨
      (source.countP q.admits ≤ q.offset.getD 0 + limit ∧
        (q.run source sink s).pulled = source.length) := by
  have hcount : ∀ {rows out stages}, Stages.pushes rows q.stages = .ok (stages, out) →
      (Stages.Calm stages ↔
        (rows.map Except.ok).countP q.admits ≤ q.offset.getD 0 + limit) := by
    intro rows out stages h
    rw [countP_map_ok]
    exact calm_iff hlimit hgrouped hhaving horder h
  rcases reads_cases sink (ofQuery q, s) source with
    ⟨after, hreads⟩ | ⟨items, late, after, rfl, hstops⟩ | ⟨front, e, hfails⟩
  · right
    obtain ⟨rows, out, rfl, hpushes, -⟩ := hreads.pushes Patterns.sound_empty
    refine ⟨(hcount hpushes).1 (hreads.calm (calm_stages q)), ?_⟩
    rw [run, hreads.run_eq_drain, Outcome.after, pulled_drain, Nat.zero_add]
  · left
    have hrun := hstops.run_append late
    obtain ⟨rows, out, hrows, hpushes, -⟩ := hstops.pushes Patterns.sound_empty
    obtain ⟨front, item, mid, rfl, hfront, -, hstopped⟩ := hstops
    obtain ⟨firstRows, firstOut, rfl, hfirst, -⟩ := hfront.pushes Patterns.sound_empty
    have hbefore := (hcount hfirst).1 (hfront.calm (calm_stages q))
    have hbeyond : ¬(rows.map Except.ok).countP q.admits ≤ q.offset.getD 0 + limit := by
      rw [← hcount hpushes, ← isStopped_eq_false_iff, hstopped]
      exact Bool.noConfusion
    rw [← hrows, List.countP_append, List.countP_singleton] at hbeyond
    refine ⟨firstRows.map .ok, item, late, by simp, ?_, ?_, ?_⟩
    · by_contra hitem
      rw [if_neg hitem] at hbeyond
      omega
    · split at hbeyond <;> omega
    · rw [run, hrun, Outcome.after, pulled_drain, Nat.zero_add, List.length_append,
        List.length_singleton]
  · exact absurd hfails (hgoes front e)

/-- A query that groups or sorts, or that has no limit, takes all items up to the first that
fails. -/
theorem pulled_of_whole
    (h : (q.isGrouped = true ∨ q.orderBy.isSome = true) ∨ q.limit = none) :
    (∃ after, Reads sink (ofQuery q, s) source after) ∧
        (q.run source sink s).pulled = source.length ∨
      ∃ front e, Fails sink (ofQuery q, s) source front e ∧
        (q.run source sink s).pulled = front.length + 1 ∧
        (q.run source sink s).result = .error e := by
  rcases reads_cases sink (ofQuery q, s) source with
    ⟨after, hreads⟩ | ⟨items, late, after, rfl, hstops⟩ | ⟨front, e, hfails⟩
  · have hrun := hreads.run_append []
    rw [List.append_nil] at hrun
    refine .inl ⟨⟨after, hreads⟩, ?_⟩
    rw [run, hreads.run_eq_drain, Outcome.after, pulled_drain, Nat.zero_add]
  · obtain ⟨rows, out, -, hpushes, -⟩ := hstops.pushes Patterns.sound_empty
    obtain ⟨-, -, -, -, -, -, hstopped⟩ := hstops
    rw [(isStopped_eq_false_iff _).2 (calm_of_pushes h hpushes)] at hstopped
    cases hstopped
  · exact .inr ⟨front, e, hfails, hfails.run_eq.2, hfails.run_eq.1⟩

/-- How a compiled query is run does not depend on what it need not read. Reading on where a limit
asks for the end changes nothing that is written; what follows the item on which it asks for the
end is not looked at; and that item is the first row beyond offset and limit that fulfils the
condition. A query that groups or sorts, or that has no limit, takes every item up to the first
that fails. -/
theorem run_reads {text : String} (hcompile : compile text = .ok q) (sink : Sink σ)
    (source : List (Except Error Row)) (s : σ) :
    (((ofQuery q).runThrough sink source s).result = .ok () →
      (q.run source sink s).result = .ok () ∧
        (q.run source sink s).output = ((ofQuery q).runThrough sink source s).output) ∧
    (∀ items after, Stops sink (ofQuery q, s) items after → ∃ outcome : Outcome σ,
      outcome.pulled = items.length ∧ outcome.result = (sink.finish after.2).1 ∧
        ∀ late, q.run (items ++ late) sink s = outcome) ∧
    (∀ limit, q.limit = some limit → q.isGrouped = false → q.orderBy = none →
      (∀ front e, ¬Fails sink (ofQuery q, s) source front e) →
        (∃ before item after, source = before ++ item :: after ∧ q.admits item = true ∧
          before.countP q.admits = q.offset.getD 0 + limit ∧
          (q.run source sink s).pulled = before.length + 1) ∨
        (source.countP q.admits ≤ q.offset.getD 0 + limit ∧
          (q.run source sink s).pulled = source.length)) ∧
    ((q.isGrouped = true ∨ q.orderBy.isSome = true) ∨ q.limit = none →
      (∃ after, Reads sink (ofQuery q, s) source after) ∧
        (q.run source sink s).pulled = source.length ∨
      ∃ front e, Fails sink (ofQuery q, s) source front e ∧
        (q.run source sink s).pulled = front.length + 1 ∧
        (q.run source sink s).result = .error e) := by
  refine ⟨?_, ?_, ?_, pulled_of_whole⟩
  · exact @run_of_runThrough _ σ sink source (ofQuery q, s) (ordered_stages q) (calm_stages q)
      Patterns.sound_empty
  · intro items after hstops
    have hhalted := hstops.halted Patterns.sound_empty (ordered_stages q) (calm_stages q)
    obtain ⟨_, -, -, -, hsound⟩ := hstops.pushes Patterns.sound_empty
    refine ⟨_, ?_, ?_, hstops.run_append⟩
    · rw [Outcome.after, pulled_drain, Nat.zero_add]
    · rw [drain_of_halted hhalted hsound]
      rfl
  · intro limit hlimit hgrouped horder hgoes
    exact pulled_of_limit hlimit hgrouped (having_eq_none_of_compile hcompile hgrouped) horder
      hgoes

end Run

/-- One row on which `v` is truthy is left out and one is written. The third is the last item that
is taken, and what follows it is never met. -/
theorem run_reads_third_truthy_row :
    let text := "SELECT * FROM 't' WHERE v LIMIT 1 OFFSET 1"
    let row (v : String) : Row := .ofList [("v", .text v)]
    let source : List (Except Error Row) := [.ok (row "1"), .ok (row ""), .ok (row "2"),
      .ok (row "3")]
    ∃ q, compile text = .ok q ∧
      (∀ late, (q.run (source ++ late) Sink.rows #[]).result = .ok () ∧
        (q.run (source ++ late) Sink.rows #[]).pulled = 4 ∧
        (q.run (source ++ late) Sink.rows #[]).output = #[row "2"]) ∧
      ∃ before item after, source = before ++ item :: after ∧ q.admits item = true ∧
        before.countP q.admits = 2 ∧ before.length + 1 = 4 := by
  intro text row source
  let one : Token := ⟨.number, "1", some (.number (.ofDecimalText ['1']))⟩
  let q : Query := {
    select := .all, source := "t", condition := some (.identifier "v"), limit := some 1,
    offset := some 1 }
  have htokens : Token.ofText text = .ok
      [.keyword "SELECT", ⟨.star, "*", none⟩, .keyword "FROM",
        ⟨.string, "'t'", some (.text "t")⟩, .keyword "WHERE", .identifier "v", .keyword "LIMIT",
        one, .keyword "OFFSET", one] := by
    decide +kernel
  have hcount : ∀ s, count (one :: s) = .ok (1, s) := fun s =>
    Grammar.count_eq_ok.2 ⟨one, rfl, rfl, by decide +kernel⟩
  have hparse : ofText text = .ok q := by
    rw [ofText, htokens]
    -- The value of the numeral stays folded from here on.
    generalize one = t at hcount ⊢
    have hlimit : Parser.clause "LIMIT" count [.keyword "LIMIT", t, .keyword "OFFSET", t] =
        .ok (some 1, [.keyword "OFFSET", t]) :=
      Parser.clause_eq_ok.2 (.inl ⟨_, _, 1, rfl, rfl, hcount _, rfl⟩)
    have hoffset : Parser.clause "OFFSET" count [.keyword "OFFSET", t] = .ok (some 1, []) :=
      Parser.clause_eq_ok.2 (.inl ⟨_, _, 1, rfl, rfl, hcount _, rfl⟩)
    refine ofTokens_eq_ok.2 ⟨[], Parser.bind_eq_ok.2 ⟨q, [], ?_, rfl⟩⟩
    iterate 7 refine Parser.bind_eq_ok.2 ⟨_, _, rfl, ?_⟩
    refine Parser.bind_eq_ok.2 ⟨_, _, hlimit, ?_⟩
    exact Parser.bind_eq_ok.2 ⟨_, _, hoffset, rfl⟩
  have hcompile : compile text = .ok q := except_bind_eq_ok.2 ⟨q, hparse, rfl⟩
  have hstops : Stops Sink.rows (ofQuery q, #[]) source _ :=
    ⟨_, _, _, rfl, .cons rfl rfl (.cons rfl rfl (.cons rfl rfl (.nil _))), rfl, rfl⟩
  obtain ⟨hthrough, hlate, hlimit, -⟩ := run_reads hcompile Sink.rows source #[]
  obtain ⟨outcome, hpulled, hresult, hrun⟩ := hlate source _ hstops
  obtain ⟨-, houtput⟩ := hthrough rfl
  have hwhole : q.run source Sink.rows #[] = outcome := by
    rw [← hrun [], List.append_nil]
  rw [hwhole] at houtput hlimit
  have hgoes : ∀ front e, ¬Fails Sink.rows (ofQuery q, #[]) source front e := by
    intro front e hfails
    have herror := hfails.run_eq.1
    rw [← run, hwhole, hresult] at herror
    cases herror
  refine ⟨q, hcompile, fun late => ?_, ?_⟩
  · rw [hrun late]
    exact ⟨hresult, hpulled, houtput⟩
  · rcases hlimit 1 rfl rfl rfl hgoes with ⟨before, item, after, hsource, hadmits, hcount, htaken⟩ |
      ⟨hfew, -⟩
    · exact ⟨before, item, after, hsource, hadmits, hcount, htaken.symm.trans hpulled⟩
    · exact absurd hfew (by decide)

end Query

end TableQuery
