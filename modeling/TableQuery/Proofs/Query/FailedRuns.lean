import TableQuery.Proofs.Query.EarlyEnd

/-!
# What a failed run has written

A run whose sink never fails can fail on an item of its source, or over the rows that were held back
when the source has been read. A query that groups or sorts has written nothing by then. Every
other query fails on an item only, and has written what it makes of the items before.
-/

namespace TableQuery

/-- The sink writes every row and can always be finished. -/
structure Sink.NeverFails {σ : Type} (sink : Sink σ) : Prop where
  write : ∀ row s, (sink.write row s).1 = .ok ()
  finish : ∀ s, (sink.finish s).1 = .ok ()

namespace Sink

theorem neverFails_rows : rows.NeverFails := ⟨fun _ _ => rfl, fun _ => rfl⟩

theorem NeverFails.writeAll {σ : Type} {sink : Sink σ} (h : sink.NeverFails) (rows : List Row)
    (s : σ) : ∃ after, sink.writeAll rows s = (.ok (), after) := by
  induction rows generalizing s with
  | nil => exact ⟨s, rfl⟩
  | cons row rows ih =>
      have hrow := h.write row s
      rw [Sink.writeAll]
      split
      · next hwrite =>
        rw [hwrite] at hrow
        cases hrow
      · exact ih _

end Sink

namespace Stages

/-- Where a stage holds rows back, a push brings nothing forth. -/
theorem pushes_of_barrier [PatternEngine] {rows out : List Row} {stages after : List Stage}
    (h : pushes rows stages = .ok (after, out))
    (hbarrier : ∃ stage ∈ stages, stage.role = .barrier) : out = [] := by
  induction stages generalizing rows after with
  | nil =>
      obtain ⟨_, hmem, -⟩ := hbarrier
      cases hmem
  | cons stage rest ih =>
      obtain ⟨next, mid, others, hsteps, hrest, rfl⟩ := pushes_cons_eq_ok.1 h
      obtain ⟨barrier, hmem, hrole⟩ := hbarrier
      rcases List.mem_cons.1 hmem with rfl | hmem
      · rw [(Stage.steps_cases hsteps).2.1 hrole, pushes_nil] at hrest
        cases hrest
        rfl
      · exact ih hrest ⟨barrier, hmem, hrole⟩

end Stages

namespace Pipeline

variable [PatternEngine] {σ τ : Type} {sink : Sink σ} {other : Sink τ} {now after : Pipeline × σ}
  {items source front : List (Except Error Row)} {e : Error}

/-- The whole source is read, and the stages then fail over the rows that were held back. -/
def FailsAtEnd (sink : Sink σ) (now : Pipeline × σ) (source : List (Except Error Row))
    (e : Error) : Prop :=
  ∃ after, Reads sink now source after ∧ after.1.finish.1 = .error e

/-- Into a sink that never fails the same items are read and the same rows are written. -/
theorem Reads.transfer (h : Reads sink now items after) (hother : other.NeverFails) (t : τ) :
    ∃ out last, Reads other (now.1, t) items (after.1, last) ∧
      sink.writeAll out now.2 = (.ok (), after.2) ∧ other.writeAll out t = (.ok (), last) := by
  induction h generalizing t with
  | nil now => exact ⟨[], t, .nil _, rfl, rfl⟩
  | cons hitem hgoes _ ih =>
      obtain ⟨row, first, rfl, hpush, hfirst⟩ := advance_eq_ok.1 hitem
      obtain ⟨mid, hmid⟩ := hother.writeAll first t
      obtain ⟨more, last, hitems, hmore, hlast⟩ := ih mid
      exact ⟨first ++ more, last,
        .cons (advance_eq_ok.2 ⟨row, first, rfl, hpush, hmid⟩) hgoes hitems,
        Sink.writeAll_append_eq_ok.2 ⟨_, hfirst, hmore⟩,
        Sink.writeAll_append_eq_ok.2 ⟨mid, hmid, hlast⟩⟩

theorem Reads.output_of_barrier (h : Reads sink now items after) (hknown : now.1.patterns.Sound)
    (hbarrier : ∃ stage ∈ now.1.stages, stage.role = .barrier) : after.2 = now.2 := by
  obtain ⟨rows, out, -, hpushes, hwrite, -⟩ := h.writes hknown
  rw [Stages.pushes_of_barrier hpushes hbarrier] at hwrite
  exact (Prod.mk.inj hwrite).2.symm

/-- Stages that hold no rows back have nothing left at the end of the source. -/
theorem Reads.finish_of_not_barrier (h : Reads sink now items after)
    (hknown : now.1.patterns.Sound) (hstream : ∀ stage ∈ now.1.stages, stage.role ≠ .barrier) :
    after.1.finish.1 = .ok [] := by
  obtain ⟨_, _, -, hpushes, hsound⟩ := h.pushes hknown
  have hafter := Stages.forall_role_of_map_role (P := (· ≠ .barrier)) (Stages.pushes_role hpushes)
    hstream
  exact Stages.finish_of_whole hsound (Stages.whole_nil_of_not_barrier hafter)

theorem drain_of_error {p : Pipeline} (h : p.finish.1 = .error e) (s : σ) :
    drain sink p s = ⟨.error e, 0, s⟩ := by
  rw [drain, h]

theorem drain_of_ok {p : Pipeline} {out : List Row} (hsink : sink.NeverFails)
    (h : p.finish.1 = .ok out) (s : σ) : (drain sink p s).result = .ok () := by
  obtain ⟨last, hwrite⟩ := hsink.writeAll out s
  rw [drain, h]
  simp only [hwrite]
  exact hsink.finish last

/-- A run that fails on an item has written what was written when it came to that item. -/
theorem Fails.output (hsink : sink.NeverFails) (h : Fails sink now source front e) :
    ∃ mid, Reads sink now front mid ∧ (run sink source now.1 now.2).output = mid.2 := by
  obtain ⟨item, rest, mid, rfl, hfront, hitem⟩ := h
  refine ⟨mid, hfront, ?_⟩
  rw [hfront.run_append]
  cases item with
  | error e' => rfl
  | ok row =>
      generalize hpush : mid.1.push row = pushed
      obtain ⟨answer, p⟩ := pushed
      cases answer with
      | error e' =>
          rw [run, hpush]
          rfl
      | ok out =>
          obtain ⟨last, hwrite⟩ := hsink.writeAll out mid.2
          have hok : advance sink mid (.ok row) = .ok (p, last) :=
            advance_eq_ok.2 ⟨row, out, rfl, hpush, hwrite⟩
          cases hok.symm.trans hitem

end Pipeline

namespace Query

open Pipeline

variable {σ : Type} {q : Query} {sink : Sink σ} {source items : List (Except Error Row)} {s : σ}
  {after : Pipeline × σ}

theorem role_ne_barrier (hgrouped : q.isGrouped = false) (horder : q.orderBy = none) :
    ∀ stage ∈ q.stages, stage.role ≠ .barrier := by
  intro stage h hrole
  simp only [stages, hgrouped, horder, Bool.false_eq_true, if_false, Option.map_none,
    Option.toList_none, List.append_nil, List.mem_append, Option.mem_toList,
    Option.map_eq_some_iff, List.mem_singleton] at h
  rcases h with (((⟨_, -, rfl⟩ | ⟨_, -, rfl⟩) | ⟨_, -, rfl⟩) | ⟨_, -, rfl⟩) | rfl
  all_goals cases hrole

/-- By the time that a query which neither groups nor sorts has read some items, it has written what
a run over them alone would write. -/
theorem output_of_reads [PatternEngine] (hgrouped : q.isGrouped = false) (horder : q.orderBy = none)
    (h : Reads sink (ofQuery q, s) items after) :
    (q.run items Sink.rows #[]).result = .ok () ∧
      (q.run items Sink.rows #[]).pulled = items.length ∧
      after.2 = (sink.writeAll (q.run items Sink.rows #[]).output.toList s).2 := by
  obtain ⟨out, last, hrows, hwrite, hlast⟩ := h.transfer Sink.neverFails_rows #[]
  have hfinish := hrows.finish_of_not_barrier Patterns.sound_empty
    (role_ne_barrier hgrouped horder)
  have hdrain : drain Sink.rows after.1 last = ⟨.ok (), 0, last⟩ := by
    rw [drain, hfinish]
    rfl
  have hrun : q.run items Sink.rows #[] = (drain Sink.rows after.1 last).after items.length :=
    hrows.run_eq_drain
  rw [Sink.writeAll_rows] at hlast
  cases hlast
  rw [hrun, hdrain]
  refine ⟨rfl, Nat.zero_add _, ?_⟩
  change after.2 = (sink.writeAll (#[] ++ out.toArray).toList s).2
  rw [Array.empty_append, List.toList_toArray, hwrite]

/-- A run into a sink that never fails does so on an item of the source, or at its end over the rows
that were held back. On an item, a query that neither groups nor sorts has written just what a run
over the items before writes, and a query that groups or sorts has written nothing. At the end of
the source nothing at all has been written. -/
theorem output_of_failure [PatternEngine] (q : Query) (hsink : sink.NeverFails)
    (source : List (Except Error Row)) (s : σ) :
    (∀ front e, Fails sink (ofQuery q, s) source front e →
      (q.run source sink s).result = .error e ∧
      (q.run source sink s).pulled = front.length + 1 ∧
      (q.isGrouped = false → q.orderBy = none →
        (q.run front Sink.rows #[]).result = .ok () ∧
        (q.run front Sink.rows #[]).pulled = front.length ∧
        (q.run source sink s).output =
          (sink.writeAll (q.run front Sink.rows #[]).output.toList s).2) ∧
      (q.isGrouped = true ∨ q.orderBy.isSome = true → (q.run source sink s).output = s)) ∧
    (∀ e, FailsAtEnd sink (ofQuery q, s) source e →
      (q.run source sink s).result = .error e ∧
      (q.run source sink s).pulled = source.length ∧ (q.run source sink s).output = s) ∧
    (∀ e, (q.run source sink s).result = .error e →
      (∃ front, Fails sink (ofQuery q, s) source front e) ∨
        FailsAtEnd sink (ofQuery q, s) source e) := by
  refine ⟨fun front e hfails => ?_, ?_, fun e hresult => ?_⟩
  · obtain ⟨mid, hfront, houtput⟩ := hfails.output hsink
    refine ⟨hfails.run_eq.1, hfails.run_eq.2, fun hgrouped horder => ?_, fun hbarrier => ?_⟩
    · obtain ⟨hresult, hpulled, hwritten⟩ := output_of_reads hgrouped horder hfront
      exact ⟨hresult, hpulled, houtput.trans hwritten⟩
    · exact houtput.trans (hfront.output_of_barrier Patterns.sound_empty (exists_barrier hbarrier))
  · rintro e ⟨after, hreads, hfinish⟩
    have hrun : q.run source sink s = (drain sink after.1 after.2).after source.length :=
      hreads.run_eq_drain
    rw [hrun, drain_of_error hfinish]
    refine ⟨rfl, Nat.zero_add _, ?_⟩
    by_cases hbarrier : ∃ stage ∈ q.stages, stage.role = .barrier
    · exact hreads.output_of_barrier Patterns.sound_empty hbarrier
    · have hstream : ∀ stage ∈ q.stages, stage.role ≠ .barrier := fun stage hmem hrole =>
        hbarrier ⟨stage, hmem, hrole⟩
      rw [hreads.finish_of_not_barrier Patterns.sound_empty hstream] at hfinish
      cases hfinish
  · rcases reads_cases sink (ofQuery q, s) source with
      ⟨after, hreads⟩ | ⟨items, late, after, rfl, hstops⟩ | ⟨front, e', hfails⟩
    · have hrun : q.run source sink s = (drain sink after.1 after.2).after source.length :=
        hreads.run_eq_drain
      cases hfinish : after.1.finish.1 with
      | error e' =>
          rw [hrun, drain_of_error hfinish] at hresult
          cases hresult
          exact .inr ⟨after, hreads, hfinish⟩
      | ok out =>
          have hok := drain_of_ok hsink hfinish after.2
          rw [hrun] at hresult
          cases hok.symm.trans hresult
    · -- a limit that has asked for the end has left nothing to fail
      have hhalted := hstops.halted Patterns.sound_empty (ordered_stages q) (calm_stages q)
      obtain ⟨_, -, -, -, hsound⟩ := hstops.pushes Patterns.sound_empty
      rw [run, hstops.run_append, drain_of_halted hhalted hsound] at hresult
      cases (hsink.finish after.2).symm.trans hresult
    · cases hfails.run_eq.1.symm.trans hresult
      exact .inl ⟨front, hfails⟩

/-- The second row has no column to select. Where rows are passed on at once, the first one has been
written by then. Where they are sorted, it has not; and where they are grouped, the second group
fails at the end and the first one has not been written either. -/
theorem output_of_failure_second_row :
    let q : Query := { select := .columns [⟨.identifier "v", "v"⟩], source := "t" }
    let sorted : Query := { q with orderBy := some [⟨.identifier "v", .ascending⟩] }
    let grouped : Query := { q with groupBy := some [.identifier "w"] }
    let first : Row := .ofList [("v", .text "1"), ("w", .text "x")]
    let second : Row := .ofList [("w", .text "y")]
    let source : List (Except Error Row) := [.ok first, .ok second, .ok first]
    let missing : Error := .columnNotFound "v"
    Sink.rows.NeverFails ∧
      ((q.run source Sink.rows #[]).result = .error missing ∧
        (q.run source Sink.rows #[]).pulled = 2 ∧
        (q.run source Sink.rows #[]).output = #[.ofList [("v", .text "1")]]) ∧
      ((sorted.run source Sink.rows #[]).result = .error missing ∧
        (sorted.run source Sink.rows #[]).pulled = 2 ∧
        (sorted.run source Sink.rows #[]).output = #[]) ∧
      ((grouped.run source Sink.rows #[]).result = .error missing ∧
        (grouped.run source Sink.rows #[]).pulled = 3 ∧
        (grouped.run source Sink.rows #[]).output = #[]) := by
  intro q sorted grouped first second source missing
  have hsink := Sink.neverFails_rows
  obtain ⟨hstream, -, -⟩ := output_of_failure q hsink source #[]
  obtain ⟨hsorted, -, -⟩ := output_of_failure sorted hsink source #[]
  obtain ⟨-, hgrouped, -⟩ := output_of_failure grouped hsink source #[]
  obtain ⟨hresult, hpulled, hwritten, -⟩ := hstream [.ok first] missing
    ⟨.ok second, [.ok first], _, rfl, .cons rfl rfl (.nil _), rfl⟩
  obtain ⟨hresult', hpulled', -, hnothing⟩ := hsorted [.ok first] missing
    ⟨.ok second, [.ok first], _, rfl, .cons rfl rfl (.nil _), rfl⟩
  refine ⟨hsink, ⟨hresult, hpulled, ?_⟩, ⟨hresult', hpulled', hnothing (.inr rfl)⟩, ?_⟩
  · obtain ⟨-, -, houtput⟩ := hwritten rfl rfl
    rw [houtput]
    rfl
  · exact hgrouped missing ⟨_, .cons rfl rfl (.cons rfl rfl (.cons rfl rfl (.nil _))), rfl⟩

end Query

end TableQuery
