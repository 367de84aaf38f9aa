import TableQuery.Proofs.Failure
import TableQuery.Proofs.Pipeline.Calls

/-!
# Limits over many calls

A limit counts the rows that come to it over all calls of a pipeline, and nothing sets it back. So
however rows are taken and the input is finished, no more rows come out than it allows, it asks for
the end once, for the first row beyond, and from then on nothing comes out.
-/

namespace TableQuery

/-- A limit of `n` rows to which `k` rows have come. -/
def Limit.counting (n k : Nat) : Limit where
  remaining := n - k
  isTerminated := decide (n < k)
  signals := if n < k then 1 else 0

/-- A limit counts a row that comes to it, and asks for the end on the first one beyond. -/
theorem Limit.take_counting (n k : Nat) :
    (counting n k).take = (decide (k < n), counting n (k + 1)) := by
  rcases Nat.lt_trichotomy k n with hlt | rfl | hgt
  · obtain ⟨m, rfl⟩ := Nat.exists_eq_add_of_lt hlt
    have hremaining : k + m + 1 - k = m + 1 := by omega
    have hnext : k + m + 1 - (k + 1) = m := by omega
    have hwithin : ¬k + m + 1 < k := by omega
    have hnotBeyond : ¬k + m < k := by omega
    simp [take, counting, hremaining, hnext, hlt, hwithin, hnotBeyond]
  · simp [take, counting]
  · have hremaining : n - k = 0 := by omega
    have hnext : n - (k + 1) = 0 := by omega
    have hle : n ≤ k := Nat.le_of_lt hgt
    simp [take, counting, hremaining, hnext, hgt, hle, Nat.lt_succ_of_lt hgt]

theorem Stage.feed_counting [PatternEngine] (n k : Nat) (rows : List Row) (known : Patterns) :
    (limit (.counting n k)).feed rows known =
      (.ok (rows.take (n - k)), limit (.counting n (k + rows.length)), known) := by
  induction rows generalizing k with
  | nil => rw [List.take_nil, List.length_nil, Nat.add_zero, feed]
  | cons row rows ih =>
      have haccept : (limit (.counting n k)).accept row known =
          (.ok (limit (.counting n (k + 1)), if decide (k < n) then [row] else []), known) := by
        rw [accept, Limit.take_counting]
        rfl
      rw [feed_cons_of_ok haccept, ih, List.length_cons, Nat.add_right_comm]
      rcases Nat.lt_or_ge k n with hlt | hge
      · have hpasses : n - k = n - (k + 1) + 1 := by omega
        rw [hpasses, List.take_succ_cons, decide_eq_true hlt]
        rfl
      · rw [Nat.sub_eq_zero_of_le hge, Nat.sub_eq_zero_of_le (Nat.le_succ_of_le hge),
          decide_eq_false (Nat.not_lt.2 hge)]
        rfl

namespace Pipeline

variable {n k : Nat} {p : Pipeline}

/-- A limit of `n` rows to which `k` rows have come is the only one, and behind it rows are passed
on at once. -/
def Limited (n k : Nat) (p : Pipeline) : Prop :=
  ∃ front back, p.stages = front ++ .limit (.counting n k) :: back ∧
    (∀ stage ∈ front, stage.role ≠ .limit) ∧ ∀ stage ∈ back, stage.role = .stream

theorem Limited.signals (h : p.Limited n k) : p.signals = if n < k then 1 else 0 := by
  obtain ⟨front, back, hstages, hfront, hback⟩ := h
  have hzero : ∀ stages : List Stage, (∀ stage ∈ stages, stage.role ≠ .limit) →
      (stages.map Stage.signals).sum = 0 := by
    intro stages hstages
    rw [List.sum_eq_zero_iff_forall_eq_nat, List.forall_mem_map]
    exact fun stage hstage => Stage.signals_of_role (hstages stage hstage)
  have hlate := hzero back fun stage hstage => by simp [hback stage hstage]
  rw [Pipeline.signals, ← List.sum_eq_foldl_nat, hstages, List.map_append, List.map_cons,
    List.sum_append_nat, List.sum_cons, hzero front hfront, hlate]
  exact Nat.zero_add _

variable [PatternEngine]

/-- The rows that come to the limit in a call: what comes out of the stages before it, unless one
of them fails. -/
def arrivals (c : Call) (p : Pipeline) : List Row :=
  answerOr [] (Stages.serve c (p.stages.takeWhile (·.role ≠ .limit)) c.rows p.patterns).1

/-- The rows that come to the limit in calls, one after another. -/
def arrived : List Call → Pipeline → List Row
  | [], _ => []
  | c :: rest, p => p.arrivals c ++ arrived rest (p.call c).2

/-- The rows in the answers to calls. -/
def emitted (calls : List Call) (p : Pipeline) : List Row :=
  (p.answers calls).flatMap (answerOr [])

/-- In a call the limit counts the rows that come to it, and no more rows come out than it lets
pass. -/
theorem Limited.call (h : p.Limited n k) (c : Call) :
    (p.call c).2.Limited n (k + (p.arrivals c).length) ∧
      (answerOr [] (p.call c).1).length + (n - (k + (p.arrivals c).length)) ≤ n - k := by
  obtain ⟨front, back, hstages, hfront, hback⟩ := h
  have hbefore : p.stages.takeWhile (·.role ≠ .limit) = front := by
    rw [hstages, List.takeWhile_append_of_pos (by simpa using hfront)]
    simp [Stage.role]
  have hroles := Stages.serve_role c front c.rows p.patterns
  rw [call_eq, arrivals, hbefore, hstages]
  generalize hserve : Stages.serve c front c.rows p.patterns = served at hroles ⊢
  obtain ⟨answer, after, later⟩ := served
  have hafter : ∀ stage ∈ after, stage.role ≠ .limit :=
    Stages.forall_role_of_map_role (P := (· ≠ .limit)) hroles hfront
  cases answer with
  | error e =>
      -- nothing comes to the limit
      rw [Stages.serve_append_of_error hserve]
      exact ⟨⟨after, back, rfl, hafter, hback⟩, by simp [answerOr]⟩
  | ok out =>
      have hlimit := Stage.feed_counting n k out later
      have hclose : (Stage.limit (.counting n (k + out.length))).close c =
          (.limit (.counting n (k + out.length)), []) := by
        cases c <;> rfl
      have hback' : ∀ stage ∈ back, stage.role ≠ .barrier := by
        intro stage hstage heq
        cases (hback stage hstage).symm.trans heq
      have hstream := Stages.forall_role_of_map_role (P := (· = .stream))
        (Stages.serve_role c back (out.take (n - k)) later) hback
      rw [Stages.serve_append_of_ok hserve, Stages.serve_cons_of_ok hlimit, hclose,
        List.append_nil]
      refine ⟨⟨after, _, rfl, hafter, hstream⟩, ?_⟩
      change (answerOr [] (Stages.serve c back (out.take (n - k)) later).1).length +
        (n - (k + out.length)) ≤ n - k
      cases hpassed : (Stages.serve c back (out.take (n - k)) later).1 with
      | error e =>
          simp only [answerOr, List.length_nil]
          omega
      | ok passed =>
          have hlength := Stages.length_serve_le c hback' hpassed
          rw [List.length_take] at hlength
          simp only [answerOr]
          omega

/-- Over calls, rows come out at most as many as the limit has left. -/
theorem Limited.after (h : p.Limited n k) (calls : List Call) :
    (p.after calls).Limited n (k + (p.arrived calls).length) ∧
      (p.emitted calls).length + (n - (k + (p.arrived calls).length)) ≤ n - k := by
  induction calls generalizing p k with
  | nil => exact ⟨h, by simp [emitted, answers, arrived]⟩
  | cons c rest ih =>
      obtain ⟨hnext, hfirst⟩ := h.call c
      obtain ⟨hlast, hmore⟩ := ih hnext
      rw [arrived, List.length_append, ← Nat.add_assoc]
      refine ⟨hlast, ?_⟩
      rw [emitted, answers, List.flatMap_cons, List.length_append]
      rw [emitted] at hmore
      omega

end Pipeline

namespace Query

open Pipeline

theorem limited_ofQuery {q : Query} {n : Nat} (h : q.limit = some n) :
    (ofQuery q).Limited n 0 := by
  refine ⟨q.beforeLimit, [.project q.select], ?_, ?_, List.forall_mem_singleton.2 rfl⟩
  · change q.stages = _
    rw [stages_eq, h]
    simp [Limit.counting]
  · exact fun stage => role_ne_limit_of_mem_beforeLimit

/-- However the pipeline of a query with a limit is called, no more rows come out than the limit
allows. It asks for the end just when more than `n` rows have come to it, which is with the row
behind the `n`-th one also where that is not the last row of a call, and it does so once. Whatever
is called from then on, nothing comes out. -/
theorem limit_over_calls [PatternEngine] {q : Query} {n : Nat} (hlimit : q.limit = some n)
    (calls : List Call) :
    ((ofQuery q).emitted calls).length ≤ n ∧
    ((ofQuery q).after calls).signals =
      (if n < ((ofQuery q).arrived calls).length then 1 else 0) ∧
    (∃ l : Limit, .limit l ∈ ((ofQuery q).after calls).stages ∧
      ∀ next known, ((Stage.limit l).feed next known).2.1.signals =
        if n < ((ofQuery q).arrived calls).length + next.length then 1 else 0) ∧
    (((ofQuery q).after calls).signals ≠ 0 →
      ∀ later, ((ofQuery q).after calls).emitted later = []) := by
  obtain ⟨hlimited, hemitted⟩ := (limited_ofQuery hlimit).after calls
  rw [Nat.zero_add] at hlimited
  refine ⟨by omega, hlimited.signals, ?_, fun hsignal later => ?_⟩
  · obtain ⟨front, back, hstages, -⟩ := hlimited
    refine ⟨_, hstages ▸ List.mem_append_right front List.mem_cons_self, fun next known => ?_⟩
    rw [Stage.feed_counting]
    rfl
  · have hbeyond : n < ((ofQuery q).arrived calls).length := by
      by_contra hle
      rw [hlimited.signals, if_neg hle] at hsignal
      exact hsignal rfl
    obtain ⟨-, hnothing⟩ := hlimited.after later
    rw [← List.length_eq_zero_iff]
    omega

/-- The third row fails for its key. The first end brings two rows to the limit of one, so the limit
asks for the end, and what is grouped after that does not come out at the second end. -/
theorem limit_over_calls_grouping_again :
    let q : Query := {
      select := .columns [⟨.identifier "v", "v"⟩]
      source := "t"
      groupBy := some [.identifier "v"]
      limit := some 1 }
    let row (v : String) : Row := .ofList [("v", .text v)]
    let group (v : String) : Row := (row v).withAggregates ∅
    let calls : List Call := [.take (row "b"), .take (row "a"), .take (.ofList []), .finish]
    q.limit = some 1 ∧
      (ofQuery q).answers calls =
        [.ok [], .ok [], .error (.columnNotFound "v"), .ok [row "b"]] ∧
      (ofQuery q).arrived calls = [group "b", group "a"] ∧
      ((ofQuery q).after calls).signals = 1 ∧
      ((ofQuery q).after calls).emitted [.take (row "c"), .finish, .finish] = [] := by
  intro q row group calls
  obtain ⟨-, hsignals, -, hover⟩ := limit_over_calls (q := q) rfl calls
  have harrived : (ofQuery q).arrived calls = [group "b", group "a"] := by decide +kernel
  rw [harrived] at hsignals
  exact ⟨rfl, by decide +kernel, harrived, hsignals, hover (by rw [hsignals]; decide) _⟩

end Query

end TableQuery
