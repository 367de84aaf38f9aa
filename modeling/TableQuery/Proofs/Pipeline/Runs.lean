import TableQuery.Run
import TableQuery.Proofs.Pipeline.Clauses

/-! # Runs

A run pushes the rows of its source one by one, stops early once a limit asks for it, and then
finishes. What it writes is what comes out of all rows in one batch: when a limit asks for the
end, no stage holds rows back and no later row could pass. -/

namespace TableQuery

open Evaluation

namespace Stage

/-- How a stage behaves over time. -/
inductive Role where
  /-- It passes rows on at once. -/
  | stream
  /-- It holds rows back until the end. -/
  | barrier
  /-- It passes rows on at once and may ask for the end. -/
  | limit
deriving DecidableEq

/-- The role of a stage. -/
def role : Stage → Role
  | group _ | sort _ => .barrier
  | limit _ => .limit
  | filter .. | skip _ | project _ => .stream

/-- A stage before any row. -/
inductive Initial : Stage → Prop where
  | filter (clause : FilterClause) (condition : Expr) : Initial (.filter clause condition)
  | group (keys : List Expr) (aggregates : List Aggregate) : Initial (.group { keys, aggregates })
  | sort (terms : List OrderingTerm) : Initial (.sort { terms })
  | skip (count : Nat) : Initial (.skip count)
  | limit (remaining : Nat) : Initial (.limit { remaining })
  | project (select : Selection) : Initial (.project select)

/-- The stage is a limit under which no more rows pass. -/
def Exhausted : Stage → Prop
  | limit l => l.remaining = 0
  | _ => False

/-- Two stages differ at most in what they have taken in so far. -/
inductive Alike : Stage → Stage → Prop where
  | filter (clause : FilterClause) (condition : Expr) :
      Alike (.filter clause condition) (.filter clause condition)
  | group (g : Grouping) (groups : KeyTree Row) : Alike (.group g) (.group { g with groups })
  | sort (s : Sorting) (buffer : Array (List Value × Row)) :
      Alike (.sort s) (.sort { s with buffer })
  | skip (m n : Nat) : Alike (.skip m) (.skip n)
  | limit (l l' : Limit) : Alike (.limit l) (.limit l')
  | project (select : Selection) : Alike (.project select) (.project select)

theorem Alike.role {stage after : Stage} (h : stage.Alike after) : after.role = stage.role := by
  cases h <;> rfl

theorem finish_of_role {stage : Stage} (h : stage.role ≠ .barrier) : stage.finish.2 = [] := by
  cases stage <;> first | rfl | exact absurd rfl h

variable [PatternEngine]

/-- What becomes of a stage that takes a row, and what it passes on. -/
inductive Takes (row : Row) : Stage → Stage → List Row → Prop where
  | filter (clause : FilterClause) (condition : Expr) (passes : Bool) :
      Takes row (.filter clause condition) (.filter clause condition) (if passes then [row] else [])
  | group (g : Grouping) (keys inputs : List Value) :
      Takes row (.group g)
        (.group { g with
          groups := g.groups.alter (Grouping.representative g.aggregates row inputs)
            (keys.map Value.toText) })
        []
  | sort (s : Sorting) (keys : List Value) :
      Takes row (.sort s) (.sort { s with buffer := s.buffer.push (keys, row) }) []
  | pass : Takes row (.skip 0) (.skip 0) [row]
  | skip (n : Nat) : Takes row (.skip (n + 1)) (.skip n) []
  | limit (l : Limit) : Takes row (.limit l) (.limit l.take.2) (if l.take.1 then [row] else [])
  | project {select : Selection} {result : Row} {known later : Patterns}
      (h : select.project row known = (.ok result, later)) :
      Takes row (.project select) (.project select) [result]

theorem takes_of_accept {row : Row} {stage after : Stage} {out : List Row} {known later : Patterns}
    (h : stage.accept row known = (.ok (after, out), later)) : Takes row stage after out := by
  cases stage with
  | filter clause condition =>
      obtain ⟨v, _, -, h⟩ := bind_eq_ok.1 h
      cases h
      exact .filter ..
  | group g =>
      obtain ⟨added, _, hadd, h⟩ := bind_eq_ok.1 h
      obtain ⟨keys, _, -, hadd⟩ := bind_eq_ok.1 hadd
      obtain ⟨inputs, _, -, hadd⟩ := bind_eq_ok.1 hadd
      cases hadd
      cases h
      exact .group ..
  | sort s =>
      obtain ⟨added, _, hadd, h⟩ := bind_eq_ok.1 h
      obtain ⟨keys, _, -, hadd⟩ := bind_eq_ok.1 hadd
      cases hadd
      cases h
      exact .sort ..
  | skip count =>
      cases count with
      | zero =>
          cases h
          exact .pass
      | succ n =>
          cases h
          exact .skip n
  | limit l =>
      cases h
      exact .limit l
  | project select =>
      obtain ⟨result, _, hresult, h⟩ := bind_eq_ok.1 h
      cases h
      exact .project hresult

theorem Takes.alike {row : Row} {stage after : Stage} {out : List Row}
    (h : Takes row stage after out) : stage.Alike after := by
  cases h <;> constructor

/-- What is known of a stage that took a row. -/
theorem accept_cases {row : Row} {stage after : Stage} {out : List Row} {known later : Patterns}
    (h : stage.accept row known = (.ok (after, out), later)) :
    stage.Alike after ∧ (stage.role = .barrier → out = []) ∧
      (stage.role ≠ .limit → after.signals = stage.signals) ∧ out.length ≤ 1 := by
  have htakes := takes_of_accept h
  have hpassed : ∀ passes : Bool, (if passes then [row] else []).length ≤ 1 := by
    intro passes
    cases passes <;> simp
  refine ⟨htakes.alike, ?_⟩
  cases htakes with
  | filter => exact ⟨nofun, fun _ => rfl, hpassed _⟩
  | limit => exact ⟨nofun, fun hrole => absurd rfl hrole, hpassed _⟩
  | group | sort => exact ⟨fun _ => rfl, fun _ => rfl, Nat.zero_le _⟩
  | skip => exact ⟨nofun, fun _ => rfl, Nat.zero_le _⟩
  | pass | project => exact ⟨nofun, fun _ => rfl, Nat.le_refl _⟩

theorem step_cases {row : Row} {stage after : Stage} {out : List Row}
    (h : stage.step row = .ok (after, out)) :
    after.role = stage.role ∧ (stage.role = .barrier → out = []) ∧
      (stage.role ≠ .limit → after.signals = stage.signals) := by
  obtain ⟨halike, hpassed, hsignals, -⟩ :=
    accept_cases (Prod.ext ((stage.step_eq row).symm.trans h) rfl)
  exact ⟨halike.role, hpassed, hsignals⟩

theorem steps_cases {rows out : List Row} {stage after : Stage}
    (h : stage.steps rows = .ok (after, out)) :
    after.role = stage.role ∧ (stage.role = .barrier → out = []) ∧
      (stage.role ≠ .limit → after.signals = stage.signals) := by
  induction rows generalizing stage out with
  | nil =>
      cases h
      exact ⟨rfl, fun _ => rfl, fun _ => rfl⟩
  | cons row rows ih =>
      obtain ⟨mid, first, more, hfirst, hmore, rfl⟩ := steps_cons_eq_ok.1 h
      obtain ⟨hrole, hpassed, hsignals⟩ := step_cases hfirst
      obtain ⟨hrole', hpassed', hsignals'⟩ := ih hmore
      rw [hrole] at hrole' hpassed' hsignals'
      refine ⟨hrole', ?_, ?_⟩
      · intro hbarrier
        rw [hpassed hbarrier, hpassed' hbarrier]
        rfl
      · intro hlimit
        rw [hsignals' hlimit, hsignals hlimit]

/-- A limit without a signal gets one only together with its last row. -/
theorem exhausted_of_signal {rows out : List Row} {stage after : Stage}
    (h : stage.steps rows = .ok (after, out)) (hcalm : stage.signals = 0)
    (hsignal : after.signals ≠ 0) : after.Exhausted := by
  cases stage with
  | limit l =>
      obtain ⟨last, hsteps, hremaining, -, hsignals⟩ := steps_limit l rows
      rw [hsteps] at h
      cases h
      have hl : l.signals = 0 := hcalm
      change last.remaining = 0
      rcases Nat.lt_or_ge l.remaining rows.length with hlt | hle
      · omega
      · rw [if_neg fun h => Nat.not_lt.2 hle h.1, hl] at hsignals
        exact absurd hsignals hsignal
  | _ =>
      have hsame := (steps_cases h).2.2 (by simp [role])
      exact absurd (hsame.trans hcalm) hsignal

end Stage

namespace Stages

/-- No limit has asked for the end. -/
def Calm (stages : List Stage) : Prop := ∀ stage ∈ stages, stage.signals = 0

/-- A limit lets no more rows pass, and no stage holds rows back. -/
def Halted (stages : List Stage) : Prop :=
  (∀ stage ∈ stages, stage.role ≠ .barrier) ∧ ∃ stage ∈ stages, stage.Exhausted

/-- No stage behind a limit holds rows back. -/
def Ordered (stages : List Stage) : Prop :=
  (stages.map Stage.role).Pairwise fun earlier later => earlier = .limit → later ≠ .barrier

/-- What holds of the roles of stages goes on to hold where they keep their roles. -/
theorem forall_role_of_map_role {P : Stage.Role → Prop} {stages after : List Stage}
    (h : after.map Stage.role = stages.map Stage.role) (hstages : ∀ stage ∈ stages, P stage.role) :
    ∀ stage ∈ after, P stage.role := by
  rw [← List.forall_mem_map, h, List.forall_mem_map]
  exact hstages

variable [PatternEngine]

theorem pushes_nil (stages : List Stage) : pushes [] stages = .ok (stages, []) := by
  induction stages with
  | nil => rfl
  | cons stage rest ih => exact pushes_cons_eq_ok.2 ⟨stage, [], rest, rfl, ih, rfl⟩

theorem pushes_role {rows out : List Row} {stages after : List Stage}
    (h : pushes rows stages = .ok (after, out)) :
    after.map Stage.role = stages.map Stage.role := by
  induction stages generalizing rows after with
  | nil =>
      cases h
      rfl
  | cons stage rest ih =>
      obtain ⟨next, mid, others, hsteps, hrest, rfl⟩ := pushes_cons_eq_ok.1 h
      rw [List.map_cons, List.map_cons, (Stage.steps_cases hsteps).1, ih hrest]

/-- A push either leaves the stages calm or leaves nothing to come. -/
theorem calm_or_halted_of_pushes {rows out : List Row} {stages after : List Stage}
    (h : pushes rows stages = .ok (after, out)) (hordered : Ordered stages)
    (hcalm : Calm stages) : Calm after ∨ Halted after := by
  induction stages generalizing rows after with
  | nil =>
      cases h
      exact .inl hcalm
  | cons stage rest ih =>
      obtain ⟨next, mid, others, hsteps, hrest, rfl⟩ := pushes_cons_eq_ok.1 h
      obtain ⟨hlater, hordered⟩ := List.pairwise_cons.1 hordered
      have hstage := hcalm stage List.mem_cons_self
      have hrestCalm : Calm rest := fun s hs => hcalm s (List.mem_cons_of_mem stage hs)
      obtain ⟨hrole, hpassed, hsignals⟩ := Stage.steps_cases hsteps
      by_cases hbarrier : stage.role = .barrier
      · -- nothing reaches the stages behind
        rw [hpassed hbarrier, pushes_nil] at hrest
        cases hrest
        refine .inl (List.forall_mem_cons.2 ⟨?_, hrestCalm⟩)
        rw [hsignals (by simp [hbarrier]), hstage]
      · have hnext : next.role ≠ .barrier := hrole ▸ hbarrier
        by_cases hsignal : next.signals = 0
        · rcases ih hrest hordered hrestCalm with hothers | ⟨hnone, s, hs, hexhausted⟩
          · exact .inl (List.forall_mem_cons.2 ⟨hsignal, hothers⟩)
          · exact .inr ⟨List.forall_mem_cons.2 ⟨hnext, hnone⟩, s,
              List.mem_cons_of_mem next hs, hexhausted⟩
        · -- the signal has just come, from the limit at this place
          have hlimit : stage.role = .limit :=
            Decidable.byContradiction fun hne => hsignal ((hsignals hne).trans hstage)
          have hnone : ∀ s ∈ rest, s.role ≠ .barrier := fun s hs =>
            hlater s.role (List.mem_map_of_mem hs) hlimit
          refine .inr ⟨List.forall_mem_cons.2 ⟨hnext, ?_⟩, next, List.mem_cons_self, ?_⟩
          · exact forall_role_of_map_role (P := (· ≠ .barrier)) (pushes_role hrest) hnone
          · exact Stage.exhausted_of_signal hsteps hstage hsignal

theorem whole_nil_of_not_barrier {stages : List Stage}
    (h : ∀ stage ∈ stages, stage.role ≠ .barrier) : whole [] stages = .ok [] := by
  induction stages with
  | nil => rfl
  | cons stage rest ih =>
      obtain ⟨hstage, hrest⟩ := List.forall_mem_cons.1 h
      refine except_bind_eq_ok.2 ⟨[], ?_, ih hrest⟩
      exact except_bind_eq_ok.2 ⟨(stage, []), rfl, congrArg Except.ok (Stage.finish_of_role hstage)⟩

/-- Under a limit that is used up, further rows change nothing. -/
theorem whole_of_halted {rows out : List Row} {stages : List Stage}
    (h : whole rows stages = .ok out) (hhalted : Halted stages) : out = [] := by
  induction stages generalizing rows with
  | nil =>
      obtain ⟨-, s, hs, -⟩ := hhalted
      simp at hs
  | cons stage rest ih =>
      obtain ⟨hnone, s, hs, hexhausted⟩ := hhalted
      obtain ⟨-, hrestNone⟩ := List.forall_mem_cons.1 hnone
      obtain ⟨mid, hstage, hrest⟩ := except_bind_eq_ok.1 h
      rcases List.mem_cons.1 hs with rfl | hs
      · cases s with
        | limit l =>
            have hzero : l.remaining = 0 := hexhausted
            rw [Stage.whole_limit, hzero, List.take_zero] at hstage
            cases hstage
            rw [whole_nil_of_not_barrier hrestNone] at hrest
            exact (Except.ok.inj hrest).symm
        | _ => exact hexhausted.elim
      · exact ih hrest ⟨hrestNone, s, hs, hexhausted⟩

end Stages

namespace Sink

variable {σ : Type}

theorem writeAll_append_eq_ok {sink : Sink σ} {early late : List Row} {s after : σ} :
    sink.writeAll (early ++ late) s = (.ok (), after) ↔
      ∃ mid, sink.writeAll early s = (.ok (), mid) ∧ sink.writeAll late mid = (.ok (), after) := by
  induction early generalizing s with
  | nil => exact ⟨fun h => ⟨s, rfl, h⟩, fun ⟨_, hmid, h⟩ => (Prod.mk.inj hmid).2 ▸ h⟩
  | cons row early ih =>
      rw [List.cons_append, writeAll, writeAll]
      split
      · exact ⟨nofun, fun ⟨_, hmid, _⟩ => nomatch hmid⟩
      · exact ih

theorem writeAll_rows (l : List Row) (collected : Array Row) :
    rows.writeAll l collected = (.ok (), collected ++ l.toArray) := by
  induction l generalizing collected with
  | nil => simp [writeAll]
  | cons row l ih =>
      rw [writeAll]
      simp only [rows] at ih ⊢
      rw [ih]
      simp

end Sink

namespace Pipeline

variable {σ : Type}

theorem isStopped_eq_false_iff (p : Pipeline) : p.isStopped = false ↔ Stages.Calm p.stages := by
  rw [isStopped, decide_eq_false_iff_not, Nat.not_lt, Nat.le_zero, signals,
    ← List.sum_eq_foldl_nat, List.sum_eq_zero_iff_forall_eq_nat]
  simp [Stages.Calm]

variable [PatternEngine]

theorem drain_of_whole {sink : Sink σ} {stages : List Stage} {known : Patterns} {out : List Row}
    {s after : σ} (hknown : known.Sound) (h : Stages.whole [] stages = .ok out)
    (hwrite : sink.writeAll out s = (.ok (), after)) :
    drain sink ⟨stages, known⟩ s = ⟨(sink.finish after).1, 0, (sink.finish after).2⟩ := by
  have hfinish : (finish ⟨stages, known⟩).1 = .ok out := Stages.finish_of_whole hknown h
  rw [drain, hfinish]
  simp only [hwrite]

/-- A run over rows writes what comes out of them in one batch. -/
theorem run_of_whole {sink : Sink σ} {rows out : List Row} {stages : List Stage}
    {known : Patterns} {s after : σ} (hordered : Stages.Ordered stages)
    (hcalm : Stages.Calm stages) (hknown : known.Sound) (h : Stages.whole rows stages = .ok out)
    (hwrite : sink.writeAll out s = (.ok (), after)) :
    (run sink (rows.map .ok) ⟨stages, known⟩ s).result = (sink.finish after).1 ∧
      (run sink (rows.map .ok) ⟨stages, known⟩ s).output = (sink.finish after).2 := by
  induction rows generalizing stages known s out with
  | nil =>
      rw [List.map_nil, run, drain_of_whole hknown h hwrite]
      exact ⟨rfl, rfl⟩
  | cons row rows ih =>
      obtain ⟨later, first, last, hpushes, hlast, rfl⟩ :=
        Stages.whole_split (show Stages.whole ([row] ++ rows) stages = .ok out from h)
      obtain ⟨remembered, hremembered, hpush⟩ := Stages.push_of_pushes hknown hpushes
      obtain ⟨mid, hfirst, hrest⟩ := Sink.writeAll_append_eq_ok.1 hwrite
      have hpipeline : push ⟨stages, known⟩ row = (.ok first, ⟨later, remembered⟩) := by
        rw [push, hpush]
      rw [List.map_cons, run, hpipeline]
      simp only [hfirst]
      have hafter := Stages.calm_or_halted_of_pushes hpushes hordered hcalm
      cases hstopped : (⟨later, remembered⟩ : Pipeline).isStopped with
      | false =>
          have hroles := Stages.pushes_role hpushes
          have hlater : Stages.Ordered later := by
            rw [Stages.Ordered, hroles]
            exact hordered
          exact ih hlater ((isStopped_eq_false_iff _).1 hstopped) hremembered hlast hrest
      | true =>
          have hhalted : Stages.Halted later := hafter.resolve_left fun hlater => by
            rw [(isStopped_eq_false_iff _).2 hlater] at hstopped
            cases hstopped
          have hnothing := Stages.whole_of_halted hlast hhalted
          subst hnothing
          have hnil := Stages.whole_nil_of_not_barrier hhalted.1
          have hdrain : drain sink ⟨later, remembered⟩ mid = _ :=
            drain_of_whole hremembered hnil hrest
          simp only [if_pos, hdrain, and_self]

end Pipeline

namespace Query

theorem initial_of_mem_stages {q : Query} {stage : Stage} (h : stage ∈ q.stages) :
    stage.Initial := by
  simp only [stages, List.mem_append, Option.mem_toList, Option.map_eq_some_iff,
    List.mem_singleton] at h
  rcases h with (((((⟨_, -, rfl⟩ | h) | ⟨_, -, rfl⟩) | ⟨_, -, rfl⟩) | ⟨_, -, rfl⟩) |
    ⟨_, -, rfl⟩) | rfl
  case inl.inl.inl.inl.inl.inr =>
    split at h
    · rw [List.mem_singleton.1 h]
      exact .group ..
    · simp at h
  · exact .filter ..
  · exact .filter ..
  · exact .sort _
  · exact .skip _
  · exact .limit _
  · exact .project _

theorem calm_stages (q : Query) : Stages.Calm q.stages := by
  intro stage h
  cases initial_of_mem_stages h <;> rfl

/-- The stages of a query that come before its limit. -/
def beforeLimit (q : Query) : List Stage :=
  (q.condition.map (Stage.filter .where)).toList ++
  (if q.isGrouped then [.group { keys := q.groupBy.getD [], aggregates := q.aggregates }]
    else []) ++
  (q.having.map (Stage.filter .having)).toList ++
  (q.orderBy.map fun terms => Stage.sort { terms }).toList ++
  (q.offset.map Stage.skip).toList

theorem stages_eq (q : Query) :
    q.stages = q.beforeLimit ++ ((q.limit.map fun n => Stage.limit { remaining := n }).toList ++
      [.project q.select]) := by
  rw [← List.append_assoc]
  rfl

theorem role_ne_limit_of_mem_beforeLimit {q : Query} {stage : Stage} (h : stage ∈ q.beforeLimit) :
    stage.role ≠ .limit := by
  simp only [beforeLimit, List.mem_append, Option.mem_toList, Option.map_eq_some_iff] at h
  rcases h with (((⟨_, -, rfl⟩ | h) | ⟨_, -, rfl⟩) | ⟨_, -, rfl⟩) | ⟨_, -, rfl⟩
  case inl.inl.inl.inr =>
    split at h
    · rw [List.mem_singleton.1 h]
      nofun
    · simp at h
  all_goals nofun

/-- Grouping and sorting come before the limit. -/
theorem ordered_stages (q : Query) : Stages.Ordered q.stages := by
  rw [Stages.Ordered, List.pairwise_map, stages_eq, List.pairwise_append, List.pairwise_append]
  refine ⟨?_, ⟨?_, List.pairwise_singleton .., ?_⟩, ?_⟩
  · exact List.pairwise_of_forall_mem_list fun a ha b _ hlimit =>
      absurd hlimit (role_ne_limit_of_mem_beforeLimit ha)
  · cases q.limit with
    | none => exact List.Pairwise.nil
    | some n => exact List.pairwise_singleton ..
  · intro a _ b hb _
    rw [List.mem_singleton.1 hb]
    nofun
  · exact fun a ha b _ hlimit => absurd hlimit (role_ne_limit_of_mem_beforeLimit ha)

end Query

end TableQuery
