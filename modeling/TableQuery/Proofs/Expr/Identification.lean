import TableQuery.Proofs.Expr.Aggregates
import TableQuery.Proofs.Expr.Written
import TableQuery.Proofs.Failure

/-! # When telling aggregates apart succeeds

Telling the aggregates of an expression apart succeeds exactly if every call of an aggregate
function in it is well used. -/

namespace TableQuery

theorem AggregateFunction.argument_eq_ok {function : AggregateFunction} {args : List Expr}
    {argument : Expr} :
    function.argument args = .ok argument ↔ args = [argument] ∧ argument.hasAggregate = false := by
  unfold AggregateFunction.argument
  constructor
  · intro h
    split at h
    · cases h
    · next hnone =>
      split at h
      · cases h
        simpa [Expr.hasAggregateAll] using hnone
      · cases h
  · rintro ⟨rfl, hnone⟩
    simp [Expr.hasAggregateAll, hnone]

/-- A collecting computation succeeds exactly if `P` holds, whatever has been found before. -/
def Collecting.SucceedsIff {α : Type} (m : Collecting α) (P : Prop) : Prop :=
  ∀ found, (∃ result, m found = .ok result) ↔ P

namespace Collecting

variable {α β : Type} {P Q : Prop}

theorem SucceedsIff.congr {m : Collecting α} (h : m.SucceedsIff P) (hPQ : P ↔ Q) :
    m.SucceedsIff Q := fun found => (h found).trans hPQ

theorem SucceedsIff.pure (a : α) : SucceedsIff (pure a) True := fun found =>
  iff_of_true ⟨(a, found), rfl⟩ trivial

theorem SucceedsIff.bind {m : Collecting α} {f : α → Collecting β} {a : α} {l : List Aggregate}
    (hm : m.SucceedsIff P) (hfinds : m.Finds a l) (hf : (f a).SucceedsIff Q) :
    (m >>= f).SucceedsIff (P ∧ Q) := by
  intro found
  change (∃ result, (m found >>= fun x => f x.1 x.2) = .ok result) ↔ _
  constructor
  · rintro ⟨result, h⟩
    obtain ⟨first, hfirst, h⟩ := except_bind_eq_ok.1 h
    have hresult := hfinds found first hfirst
    subst hresult
    exact ⟨(hm found).1 ⟨_, hfirst⟩, (hf _).1 ⟨result, h⟩⟩
  · rintro ⟨hP, hQ⟩
    obtain ⟨first, hfirst⟩ := (hm found).2 hP
    have hresult := hfinds found first hfirst
    subst hresult
    obtain ⟨result, h⟩ := (hf _).2 hQ
    exact ⟨result, except_bind_eq_ok.2 ⟨_, hfirst, h⟩⟩

theorem SucceedsIff.map {m : Collecting α} (g : α → β) (hm : m.SucceedsIff P) :
    (g <$> m).SucceedsIff P := by
  intro found
  rw [← hm found]
  change (∃ result, ((fun x => (g x.1, x.2)) <$> m found) = .ok result) ↔ _
  constructor
  · rintro ⟨result, h⟩
    obtain ⟨first, hfirst, -⟩ := except_map_eq_ok.1 h
    exact ⟨first, hfirst⟩
  · rintro ⟨first, hfirst⟩
    exact ⟨_, except_map_eq_ok.2 ⟨first, hfirst, rfl⟩⟩

theorem SucceedsIff.bind_pure {m : Collecting α} (g : α → β) (hm : m.SucceedsIff P) :
    (m >>= fun x => Pure.pure (g x)).SucceedsIff P := by
  rw [← map_eq_pure_bind]
  exact hm.map g

theorem SucceedsIff.mapM {f : α → Collecting β} {g : α → β} {found : α → List Aggregate}
    {P : α → Prop} {l : List α} (hfinds : ∀ a, (f a).Finds (g a) (found a))
    (h : ∀ a ∈ l, (f a).SucceedsIff (P a)) : (l.mapM f).SucceedsIff (∀ a ∈ l, P a) := by
  induction l with
  | nil => exact (SucceedsIff.pure _).congr (iff_of_true trivial (List.forall_mem_nil _))
  | cons a l ih =>
      rw [List.forall_mem_cons] at h
      rw [List.mapM_cons]
      have hrest := (ih h.2).bind_pure (g a :: ·)
      exact (h.1.bind (hfinds a) hrest).congr List.forall_mem_cons.symm

/-- A check in front of what always succeeds. -/
theorem SucceedsIff.check {x : Except SemanticError α} {f : α → Collecting β}
    (hf : ∀ a, (f a).SucceedsIff True) :
    ((liftM x : Collecting α) >>= f).SucceedsIff (∃ a, x = .ok a) := by
  intro found
  cases x with
  | error e =>
      apply iff_of_false
      · rintro ⟨result, h⟩
        cases h
      · rintro ⟨a, h⟩
        cases h
  | ok a => exact iff_of_true ((hf a found).2 trivial) ⟨a, rfl⟩

theorem SucceedsIff.collect (a : Aggregate) : a.collect.SucceedsIff True := fun _ =>
  iff_of_true ⟨_, rfl⟩ trivial

end Collecting

namespace Expr

open Collecting

theorem identifyAll_eq (l : List Expr) : identifyAll l = l.mapM identify := by
  induction l with
  | nil => rfl
  | cons e l ih => rw [identifyAll, ih, List.mapM_cons]

theorem identifyBranches_eq (l : List (Expr × Expr)) :
    identifyBranches l = l.mapM fun b => do
      let condition ← b.1.identify
      let result ← b.2.identify
      return (condition, result) := by
  induction l with
  | nil => rfl
  | cons b l ih => simp only [identifyBranches, ih, List.mapM_cons, bind_assoc, pure_bind]

theorem identifyBranch_finds (b : Expr × Expr) :
    Finds (do
      let condition ← b.1.identify
      let result ← b.2.identify
      return (condition, result)) (b.1.marked, b.2.marked) (b.1.aggregates ++ b.2.aggregates) :=
  b.1.identify_finds.bind (b.2.identify_finds.bind_pure _)

theorem identifyOption_succeeds {o : Option Expr} {P : Expr → Prop}
    (h : ∀ e ∈ o, e.identify.SucceedsIff (P e)) :
    (identifyOption o).SucceedsIff (∀ e ∈ o, P e) := by
  cases o with
  | none => exact (SucceedsIff.pure _).congr (by simp)
  | some e => exact ((h e rfl).map some).congr (by simp)

/-- Telling the aggregates of an expression apart succeeds exactly if every call of an aggregate
function in it is well used. -/
theorem identify_succeeds (e : Expr) : e.identify.SucceedsIff e.WellUsed := by
  induction e using induction with
  | call name args ih =>
      rw [identify, WellUsed, forall_mem_parts_call]
      cases hname : AggregateFunction.ofName? name with
      | none =>
          have hcall : (call name args).IsWellUsed := fun h => by simp [hname] at h
          have hall := SucceedsIff.mapM identify_finds ih
          rw [← identifyAll_eq] at hall
          exact (hall.bind_pure _).congr (and_iff_right hcall).symm
      | some function =>
          refine (SucceedsIff.check fun a => .collect _).congr ?_
          simp only [AggregateFunction.argument_eq_ok, hasAggregate_eq_false_iff]
          constructor
          · rintro ⟨argument, rfl, hnone⟩
            have hused := wellUsed_of_callNames (callNames_of_not_usesAggregate hnone)
            exact ⟨fun _ => ⟨argument, rfl, hnone⟩, List.forall_mem_singleton.2 hused⟩
          · rintro ⟨hcall, -⟩
            exact hcall (Option.isSome_of_eq_some hname)
  | aggregate function argument id ih =>
      apply (SucceedsIff.collect _).congr
      exact iff_of_true trivial (List.forall_mem_singleton.2 trivial)
  | binary op left right ihl ihr =>
      refine SucceedsIff.congr ?_ wellUsed_binary.symm
      refine ihl.bind left.identify_finds ?_
      exact ihr.bind_pure _
  | case subject branches otherwise ihs ihb iho =>
      have hbranches := SucceedsIff.mapM identifyBranch_finds fun b hb =>
        (ihb b hb).1.bind b.1.identify_finds ((ihb b hb).2.bind_pure (b.1.marked, ·))
      rw [← identifyBranches_eq] at hbranches
      refine SucceedsIff.congr ?_ wellUsed_case.symm
      refine (identifyOption_succeeds ihs).bind (identifyOption_finds subject) ?_
      refine hbranches.bind (identifyBranches_finds branches) ?_
      exact (identifyOption_succeeds iho).bind_pure _
  | _ =>
      apply (SucceedsIff.pure _).congr
      exact iff_of_true trivial (List.forall_mem_singleton.2 trivial)

end Expr

end TableQuery
