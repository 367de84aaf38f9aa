import TableQuery.Proofs.Grammar.Query
import TableQuery.Proofs.Pipeline.Runs
import TableQuery.Proofs.Query.Identification

/-!
# How much of its source a run reads

A run takes the items of its source one after another. It ends with the item that fails, with the
item on which a limit asks for the end, or with the source. Behind a limit that has asked for the
end nothing can come any more, so a run that went on reading would write the same rows.
-/

namespace TableQuery

/-- The outcome with more items taken from the source. -/
def Outcome.after {σ : Type} (o : Outcome σ) (n : Nat) : Outcome σ :=
  { o with pulled := o.pulled + n }

theorem Outcome.after_after {σ : Type} (o : Outcome σ) (m n : Nat) :
    (o.after m).after n = o.after (m + n) :=
  congrArg (Outcome.mk o.result · o.output) (Nat.add_assoc ..)

namespace Pipeline

variable [PatternEngine] {σ : Type} {sink : Sink σ}

/-- A run that ends its reading where the pipeline says so. -/
def runUntil (stops : Pipeline → Bool) (sink : Sink σ) :
    List (Except Error Row) → Pipeline → σ → Outcome σ
  | [], p, s => p.drain sink s
  | .error e :: _, _, s => ⟨.error e, 1, s⟩
  | .ok row :: source, p, s =>
    match p.push row with
    | (.error e, _) => ⟨.error e, 1, s⟩
    | (.ok rows, p) =>
      match sink.writeAll rows s with
      | (.error e, s) => ⟨.error e, 1, s⟩
      | (.ok (), s) =>
        let rest := if stops p then p.drain sink s else runUntil stops sink source p s
        { rest with pulled := rest.pulled + 1 }

/-- A run that goes on reading where a limit asks for the end. -/
def runThrough (sink : Sink σ) (source : List (Except Error Row)) (p : Pipeline) (s : σ) :
    Outcome σ :=
  runUntil (fun _ => false) sink source p s

theorem run_eq_runUntil (source : List (Except Error Row)) (p : Pipeline) (s : σ) :
    run sink source p s = runUntil isStopped sink source p s := by
  induction source generalizing p s with
  | nil => rfl
  | cons item source ih =>
      cases item with
      | error e => rfl
      | ok row =>
          rw [run, show run sink source = runUntil isStopped sink source from funext₂ ih]
          rfl

/-- Takes one item: the pipeline afterwards, and what is written by then. -/
def advance (sink : Sink σ) (now : Pipeline × σ) : Except Error Row → Except Error (Pipeline × σ)
  | .error e => .error e
  | .ok row =>
    match now.1.push row with
    | (.error e, _) => .error e
    | (.ok rows, p) =>
      match sink.writeAll rows now.2 with
      | (.error e, _) => .error e
      | (.ok (), s) => .ok (p, s)

/-- The items are taken one after another. None fails, and on none does a limit ask for the end. -/
inductive Reads (sink : Sink σ) :
    Pipeline × σ → List (Except Error Row) → Pipeline × σ → Prop where
  | nil (now : Pipeline × σ) : Reads sink now [] now
  | cons {now mid after : Pipeline × σ} {item : Except Error Row}
      {items : List (Except Error Row)} (hitem : advance sink now item = .ok mid)
      (hgoes : mid.1.isStopped = false) (hitems : Reads sink mid items after) :
      Reads sink now (item :: items) after

/-- The items are taken one after another until, on the last one, a limit asks for the end. -/
def Stops (sink : Sink σ) (now : Pipeline × σ) (items : List (Except Error Row))
    (after : Pipeline × σ) : Prop :=
  ∃ front item mid, items = front ++ [item] ∧ Reads sink now front mid ∧
    advance sink mid item = .ok after ∧ after.1.isStopped = true

/-- The items of the source are taken one after another until the one behind `front` fails. -/
def Fails (sink : Sink σ) (now : Pipeline × σ) (source front : List (Except Error Row))
    (e : Error) : Prop :=
  ∃ item rest mid, source = front ++ item :: rest ∧ Reads sink now front mid ∧
    advance sink mid item = .error e

theorem advance_eq_ok {now after : Pipeline × σ} {item : Except Error Row} :
    advance sink now item = .ok after ↔ ∃ row out, item = .ok row ∧
      now.1.push row = (.ok out, after.1) ∧ sink.writeAll out now.2 = (.ok (), after.2) := by
  constructor
  · intro h
    cases item with
    | error e => cases h
    | ok row =>
        rw [advance] at h
        split at h
        · cases h
        · next out p hpush =>
          split at h
          · cases h
          · next s hwrite =>
            cases h
            exact ⟨row, out, rfl, hpush, hwrite⟩
  · rintro ⟨row, out, rfl, hpush, hwrite⟩
    rw [advance, hpush]
    simp only [hwrite]

section Course

variable {stops : Pipeline → Bool} {now mid after : Pipeline × σ} {item : Except Error Row}

theorem runUntil_cons_of_ok (h : advance sink now item = .ok mid)
    (source : List (Except Error Row)) :
    runUntil stops sink (item :: source) now.1 now.2 =
      (if stops mid.1 then drain sink mid.1 mid.2
        else runUntil stops sink source mid.1 mid.2).after 1 := by
  obtain ⟨row, out, rfl, hpush, hwrite⟩ := advance_eq_ok.1 h
  rw [runUntil, hpush]
  simp only [hwrite]
  rfl

theorem runUntil_cons_of_error {e : Error} (h : advance sink now item = .error e)
    (source : List (Except Error Row)) :
    (runUntil stops sink (item :: source) now.1 now.2).result = .error e ∧
      (runUntil stops sink (item :: source) now.1 now.2).pulled = 1 := by
  cases item with
  | error e' =>
      cases h
      exact ⟨rfl, rfl⟩
  | ok row =>
      rw [advance] at h
      rw [runUntil]
      split at h
      · next hpush =>
        cases h
        exact ⟨rfl, rfl⟩
      · next out p hpush =>
        split at h
        · next hwrite =>
          cases h
          exact ⟨rfl, rfl⟩
        · cases h

/-- Where no limit asks for the end, all runs go on alike. -/
theorem Reads.runUntil_append {items : List (Except Error Row)} (h : Reads sink now items after)
    (hstops : ∀ p, isStopped p = false → stops p = false) (late : List (Except Error Row)) :
    runUntil stops sink (items ++ late) now.1 now.2 =
      (runUntil stops sink late after.1 after.2).after items.length := by
  induction h with
  | nil now => rfl
  | cons hitem hgoes hitems ih =>
      rw [List.cons_append, runUntil_cons_of_ok hitem, hstops _ hgoes, ih]
      rfl

theorem Reads.run_append {items : List (Except Error Row)} (h : Reads sink now items after)
    (late : List (Except Error Row)) :
    run sink (items ++ late) now.1 now.2 =
      (run sink late after.1 after.2).after items.length := by
  rw [run_eq_runUntil, run_eq_runUntil, h.runUntil_append fun _ h => h]

theorem Reads.run_eq_drain {items : List (Except Error Row)} (h : Reads sink now items after) :
    run sink items now.1 now.2 = (drain sink after.1 after.2).after items.length := by
  have hrun := h.run_append []
  rwa [List.append_nil] at hrun

theorem Stops.run_append {items : List (Except Error Row)} (h : Stops sink now items after)
    (late : List (Except Error Row)) :
    run sink (items ++ late) now.1 now.2 = (drain sink after.1 after.2).after items.length := by
  obtain ⟨front, item, mid, rfl, hfront, hitem, hstopped⟩ := h
  rw [List.append_assoc, hfront.run_append, run_eq_runUntil, List.singleton_append,
    runUntil_cons_of_ok hitem, if_pos hstopped, Outcome.after_after, List.length_append,
    Nat.add_comm front.length, List.length_singleton]

theorem Stops.runThrough_append {items : List (Except Error Row)}
    (h : Stops sink now items after) (late : List (Except Error Row)) :
    runThrough sink (items ++ late) now.1 now.2 =
      (runThrough sink late after.1 after.2).after items.length := by
  obtain ⟨front, item, mid, rfl, hfront, hitem, -⟩ := h
  rw [runThrough, runThrough, List.append_assoc, hfront.runUntil_append fun _ _ => rfl,
    List.singleton_append, runUntil_cons_of_ok hitem, Outcome.after_after, List.length_append,
    Nat.add_comm front.length, List.length_singleton]
  rfl

theorem Fails.runUntil_eq {source front : List (Except Error Row)} {e : Error}
    (h : Fails sink now source front e) (hstops : ∀ p, isStopped p = false → stops p = false) :
    (runUntil stops sink source now.1 now.2).result = .error e ∧
      (runUntil stops sink source now.1 now.2).pulled = front.length + 1 := by
  obtain ⟨item, rest, mid, rfl, hfront, hitem⟩ := h
  obtain ⟨hresult, hpulled⟩ :
      (runUntil stops sink (item :: rest) mid.1 mid.2).result = .error e ∧
        (runUntil stops sink (item :: rest) mid.1 mid.2).pulled = 1 :=
    runUntil_cons_of_error hitem rest
  rw [hfront.runUntil_append hstops]
  exact ⟨hresult, (congrArg (· + front.length) hpulled).trans (Nat.add_comm 1 front.length)⟩

theorem Fails.run_eq {source front : List (Except Error Row)} {e : Error}
    (h : Fails sink now source front e) :
    (run sink source now.1 now.2).result = .error e ∧
      (run sink source now.1 now.2).pulled = front.length + 1 := by
  rw [run_eq_runUntil]
  exact h.runUntil_eq fun _ h => h

/-- The reading of a source ends in one of three ways. -/
theorem reads_cases (sink : Sink σ) (now : Pipeline × σ) (source : List (Except Error Row)) :
    (∃ after, Reads sink now source after) ∨
      (∃ items late after, source = items ++ late ∧ Stops sink now items after) ∨
      ∃ front e, Fails sink now source front e := by
  induction source generalizing now with
  | nil => exact .inl ⟨now, .nil now⟩
  | cons item source ih =>
      cases hitem : advance sink now item with
      | error e => exact .inr (.inr ⟨[], e, item, source, now, rfl, .nil now, hitem⟩)
      | ok mid =>
          cases hstopped : mid.1.isStopped with
          | true =>
              exact .inr (.inl ⟨[item], source, mid, rfl, [], item, now, rfl, .nil now, hitem,
                hstopped⟩)
          | false =>
              rcases ih mid with ⟨after, hreads⟩ | ⟨_, late, after, rfl, front, last, before, rfl,
                hfront, hlast, hafter⟩ | ⟨front, e, last, rest, before, rfl, hfront, hlast⟩
              · exact .inl ⟨after, .cons hitem hstopped hreads⟩
              · exact .inr (.inl ⟨item :: (front ++ [last]), late, after, rfl, item :: front, last,
                  before, rfl, .cons hitem hstopped hfront, hlast, hafter⟩)
              · exact .inr (.inr ⟨item :: front, e, last, rest, before, rfl,
                  .cons hitem hstopped hfront, hlast⟩)

end Course

theorem pulled_drain (sink : Sink σ) (p : Pipeline) (s : σ) : (drain sink p s).pulled = 0 := by
  rw [drain]
  split
  · rfl
  · split <;> rfl

section Stages

variable {now mid after : Pipeline × σ} {item : Except Error Row}
  {items : List (Except Error Row)}

theorem pushes_of_advance (hknown : now.1.patterns.Sound) (h : advance sink now item = .ok after) :
    ∃ row out, item = .ok row ∧ Stages.pushes [row] now.1.stages = .ok (after.1.stages, out) ∧
      sink.writeAll out now.2 = (.ok (), after.2) ∧ after.1.patterns.Sound := by
  obtain ⟨row, out, rfl, hpush, hwrite⟩ := advance_eq_ok.1 h
  rw [push] at hpush
  generalize hpushed : Stages.push now.1.stages [row] now.1.patterns = pushed at hpush
  obtain ⟨answer, stages, patterns⟩ := pushed
  obtain ⟨rfl, hafter⟩ := Prod.mk.inj hpush
  obtain ⟨hpushes, hsound⟩ := Stages.pushes_of_push hknown hpushed
  rw [← hafter]
  exact ⟨row, out, rfl, hpushes, hwrite, hsound⟩

/-- What comes out of the stages for the rows that are read is written. -/
theorem Reads.writes (h : Reads sink now items after) (hknown : now.1.patterns.Sound) :
    ∃ rows out, items = rows.map .ok ∧
      Stages.pushes rows now.1.stages = .ok (after.1.stages, out) ∧
      sink.writeAll out now.2 = (.ok (), after.2) ∧ after.1.patterns.Sound := by
  induction h with
  | nil now => exact ⟨[], [], rfl, Stages.pushes_nil _, rfl, hknown⟩
  | cons hitem _ _ ih =>
      obtain ⟨row, first, rfl, hfirst, hwrite, hsound⟩ := pushes_of_advance hknown hitem
      obtain ⟨rows, more, rfl, hmore, hlast, hafter⟩ := ih hsound
      exact ⟨row :: rows, first ++ more, rfl, Stages.pushes_append hfirst hmore,
        Sink.writeAll_append_eq_ok.2 ⟨_, hwrite, hlast⟩, hafter⟩

theorem Reads.pushes (h : Reads sink now items after) (hknown : now.1.patterns.Sound) :
    ∃ rows out, items = rows.map .ok ∧
      Stages.pushes rows now.1.stages = .ok (after.1.stages, out) ∧ after.1.patterns.Sound := by
  obtain ⟨rows, out, hrows, hpushes, -, hsound⟩ := h.writes hknown
  exact ⟨rows, out, hrows, hpushes, hsound⟩

theorem Reads.pushes_concat (h : Reads sink now items mid)
    (hitem : advance sink mid item = .ok after) (hknown : now.1.patterns.Sound) :
    ∃ rows out, items ++ [item] = rows.map .ok ∧
      Stages.pushes rows now.1.stages = .ok (after.1.stages, out) ∧ after.1.patterns.Sound := by
  obtain ⟨rows, first, rfl, hfirst, hsound⟩ := h.pushes hknown
  obtain ⟨row, more, rfl, hmore, -, hafter⟩ := pushes_of_advance hsound hitem
  exact ⟨rows ++ [row], first ++ more, by simp, Stages.pushes_append hfirst hmore, hafter⟩

theorem Reads.calm (h : Reads sink now items after) (hcalm : Stages.Calm now.1.stages) :
    Stages.Calm after.1.stages := by
  induction h with
  | nil now => exact hcalm
  | cons _ hgoes _ ih => exact ih ((isStopped_eq_false_iff _).1 hgoes)

theorem Stops.pushes (h : Stops sink now items after) (hknown : now.1.patterns.Sound) :
    ∃ rows out, items = rows.map .ok ∧
      Stages.pushes rows now.1.stages = .ok (after.1.stages, out) ∧ after.1.patterns.Sound := by
  obtain ⟨front, item, mid, rfl, hfront, hitem, -⟩ := h
  exact hfront.pushes_concat hitem hknown

/-- When a limit has asked for the end, it lets nothing pass and nothing is held back. -/
theorem Stops.halted (h : Stops sink now items after) (hknown : now.1.patterns.Sound)
    (hordered : Stages.Ordered now.1.stages) (hcalm : Stages.Calm now.1.stages) :
    Stages.Halted after.1.stages := by
  obtain ⟨rows, out, -, hpushes, -⟩ := h.pushes hknown
  obtain ⟨-, -, -, -, -, -, hstopped⟩ := h
  refine (Stages.calm_or_halted_of_pushes hpushes hordered hcalm).resolve_left fun hafter => ?_
  rw [(isStopped_eq_false_iff _).2 hafter] at hstopped
  cases hstopped

theorem drain_of_halted (hhalted : Stages.Halted now.1.stages) (hknown : now.1.patterns.Sound) :
    drain sink now.1 now.2 = ⟨(sink.finish now.2).1, 0, (sink.finish now.2).2⟩ :=
  drain_of_whole hknown (Stages.whole_nil_of_not_barrier hhalted.1) rfl

end Stages

end Pipeline

namespace Stages

variable [PatternEngine]

/-- Under a limit that is used up, nothing comes out any more. -/
theorem pushes_of_halted {rows out : List Row} {stages after : List Stage}
    (h : pushes rows stages = .ok (after, out)) (hhalted : Halted stages) :
    out = [] ∧ Halted after := by
  induction stages generalizing rows after with
  | nil =>
      obtain ⟨-, s, hs, -⟩ := hhalted
      cases hs
  | cons stage rest ih =>
      obtain ⟨hnone, s, hs, hexhausted⟩ := hhalted
      obtain ⟨hstage, hrestNone⟩ := List.forall_mem_cons.1 hnone
      have hroles := pushes_role h
      obtain ⟨next, mid, others, hsteps, hrest, rfl⟩ := pushes_cons_eq_ok.1 h
      have hafter := forall_role_of_map_role (P := (· ≠ .barrier)) hroles hnone
      rcases List.mem_cons.1 hs with rfl | hs
      · cases s with
        | limit l =>
            obtain ⟨last, hlast, hremaining, -⟩ := Stage.steps_limit l rows
            have hzero : l.remaining = 0 := hexhausted
            rw [hzero, List.take_zero] at hlast
            rw [hzero, Nat.zero_sub] at hremaining
            rw [hlast] at hsteps
            cases hsteps
            rw [pushes_nil] at hrest
            cases hrest
            exact ⟨rfl, hafter, _, List.mem_cons_self, hremaining⟩
        | _ => exact hexhausted.elim
      · obtain ⟨hout, -, s', hs', hexhausted'⟩ := ih hrest ⟨hrestNone, s, hs, hexhausted⟩
        exact ⟨hout, hafter, s', List.mem_cons_of_mem _ hs', hexhausted'⟩

end Stages

namespace Pipeline

variable [PatternEngine] {σ : Type} {sink : Sink σ}

/-- Whatever is read behind a limit that is used up, nothing more is written. -/
theorem runThrough_of_halted {source : List (Except Error Row)} {now : Pipeline × σ}
    (hhalted : Stages.Halted now.1.stages) (hknown : now.1.patterns.Sound)
    (h : (runThrough sink source now.1 now.2).result = .ok ()) :
    (sink.finish now.2).1 = .ok () ∧
      (runThrough sink source now.1 now.2).output = (sink.finish now.2).2 := by
  induction source generalizing now with
  | nil =>
      have hdrain : drain sink now.1 now.2 = _ := drain_of_halted hhalted hknown
      rw [runThrough, runUntil, hdrain] at h ⊢
      exact ⟨h, rfl⟩
  | cons item source ih =>
      rw [runThrough] at h ⊢
      cases hitem : advance sink now item with
      | error e =>
          rw [(runUntil_cons_of_error hitem source).1] at h
          cases h
      | ok mid =>
          obtain ⟨row, out, -, hpushes, hwrite, hsound⟩ := pushes_of_advance hknown hitem
          obtain ⟨rfl, hmid⟩ := Stages.pushes_of_halted hpushes hhalted
          obtain hsame : now.2 = mid.2 := (Prod.mk.inj hwrite).2
          rw [runUntil_cons_of_ok hitem] at h ⊢
          rw [hsame]
          exact ih hmid hsound h

/-- Reading on where a limit asks for the end would not change what a run writes. -/
theorem run_of_runThrough {source : List (Except Error Row)} {now : Pipeline × σ}
    (hordered : Stages.Ordered now.1.stages) (hcalm : Stages.Calm now.1.stages)
    (hknown : now.1.patterns.Sound)
    (h : (runThrough sink source now.1 now.2).result = .ok ()) :
    (run sink source now.1 now.2).result = .ok () ∧
      (run sink source now.1 now.2).output = (runThrough sink source now.1 now.2).output := by
  rcases reads_cases sink now source with
    ⟨after, hreads⟩ | ⟨items, late, after, rfl, hstops⟩ | ⟨front, e, hfails⟩
  · have hthrough : runUntil (fun _ => false) sink (source ++ []) now.1 now.2 = _ :=
      hreads.runUntil_append (fun _ _ => rfl) []
    rw [List.append_nil] at hthrough
    rw [runThrough, hthrough] at h ⊢
    rw [hreads.run_eq_drain]
    exact ⟨h, rfl⟩
  · have hhalted := hstops.halted hknown hordered hcalm
    obtain ⟨_, -, -, -, hsound⟩ := hstops.pushes hknown
    rw [hstops.runThrough_append] at h ⊢
    obtain ⟨hfinish, houtput⟩ := runThrough_of_halted hhalted hsound h
    rw [hstops.run_append, drain_of_halted hhalted hsound]
    exact ⟨hfinish, houtput.symm⟩
  · rw [runThrough, (hfails.runUntil_eq fun _ _ => rfl).1] at h
    cases h

end Pipeline

end TableQuery
