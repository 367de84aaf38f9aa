import TableQuery.Proofs.Expr.Parts
import TableQuery.Proofs.Expr.Readable

/-! # Expressions as written

An expression as written calls aggregate functions and has no aggregates in it. A call of an
aggregate function is well used if it has one argument and no such call is in that argument. -/

namespace TableQuery

namespace Expr

theorem hasAggregateAll_eq (l : List Expr) : hasAggregateAll l = l.any hasAggregate := by
  induction l with
  | nil => rfl
  | cons e l ih => rw [hasAggregateAll, ih, List.any_cons]

theorem hasAggregateBranches_eq (l : List (Expr × Expr)) :
    hasAggregateBranches l = l.any fun b => b.1.hasAggregate || b.2.hasAggregate := by
  induction l with
  | nil => rfl
  | cons b l ih => rw [hasAggregateBranches, ih, List.any_cons]

theorem hasAggregateOption_eq (o : Option Expr) :
    hasAggregateOption o = o.toList.any hasAggregate := by
  cases o <;> simp [hasAggregateOption]

/-- Whether an expression is one that can be written: no aggregate, and a call names its function
in uppercase. -/
def IsWritten : Expr → Prop
  | call name _ => Text.asciiUpper name = name
  | aggregate .. => False
  | _ => True

/-- The expression and its parts can be written. -/
def Written (e : Expr) : Prop := ∀ s ∈ e.parts, s.IsWritten

/-- Whether an expression is an aggregate: a call of an aggregate function, or already the value
of one. -/
def IsAggregate : Expr → Prop
  | call name _ => (AggregateFunction.ofName? name).isSome
  | aggregate .. => True
  | _ => False

/-- An aggregate occurs in the expression. -/
def UsesAggregate (e : Expr) : Prop := ∃ s ∈ e.parts, s.IsAggregate

/-- Whether an expression that calls an aggregate function gives it exactly one argument, and one
in which no aggregate occurs. -/
def IsWellUsed : Expr → Prop
  | call name args => (AggregateFunction.ofName? name).isSome →
    ∃ argument, args = [argument] ∧ ¬argument.UsesAggregate
  | _ => True

/-- Every call of an aggregate function in the expression has exactly one argument, and one in
which no aggregate occurs. -/
def WellUsed (e : Expr) : Prop := ∀ s ∈ e.parts, s.IsWellUsed

theorem written_call {name : String} {args : List Expr} :
    (call name args).Written ↔ Text.asciiUpper name = name ∧ ∀ e ∈ args, e.Written :=
  forall_mem_parts_call

theorem written_binary {op : Operator} {left right : Expr} :
    (binary op left right).Written ↔ left.Written ∧ right.Written :=
  forall_mem_parts_binary.trans (and_iff_right trivial)

theorem written_case {subject : Option Expr} {branches : List (Expr × Expr)}
    {otherwise : Option Expr} :
    (case subject branches otherwise).Written ↔
      (∀ e ∈ subject, e.Written) ∧ (∀ b ∈ branches, b.1.Written ∧ b.2.Written) ∧
        ∀ e ∈ otherwise, e.Written :=
  forall_mem_parts_case.trans (and_iff_right trivial)

theorem wellUsed_binary {op : Operator} {left right : Expr} :
    (binary op left right).WellUsed ↔ left.WellUsed ∧ right.WellUsed :=
  forall_mem_parts_binary.trans (and_iff_right trivial)

theorem wellUsed_case {subject : Option Expr} {branches : List (Expr × Expr)}
    {otherwise : Option Expr} :
    (case subject branches otherwise).WellUsed ↔
      (∀ e ∈ subject, e.WellUsed) ∧ (∀ b ∈ branches, b.1.WellUsed ∧ b.2.WellUsed) ∧
        ∀ e ∈ otherwise, e.WellUsed :=
  forall_mem_parts_case.trans (and_iff_right trivial)

theorem not_written_aggregate {function : AggregateFunction} {argument : Expr}
    {id : AggregateId} : ¬(aggregate function argument id).Written := fun h =>
  h _ List.mem_cons_self

theorem not_usesAggregate_iff {e : Expr} :
    ¬e.UsesAggregate ↔ ∀ s ∈ e.parts, ¬s.IsAggregate := by
  simp only [UsesAggregate, not_exists, not_and]

theorem hasAggregate_eq_false_iff {e : Expr} : e.hasAggregate = false ↔ ¬e.UsesAggregate := by
  rw [not_usesAggregate_iff]
  induction e using induction with
  | call name args ih =>
      rw [forall_mem_parts_call, hasAggregate, hasAggregateAll_eq, Bool.or_eq_false_iff,
        Bool.eq_false_iff, List.any_eq_false]
      refine and_congr Iff.rfl (forall₂_congr fun e he => ?_)
      rw [Bool.not_eq_true]
      exact ih e he
  | aggregate function argument id ih =>
      apply iff_of_false
      · intro h
        cases h
      · exact fun h => h _ List.mem_cons_self trivial
  | binary op left right ihl ihr =>
      rw [forall_mem_parts_binary, hasAggregate, Bool.or_eq_false_iff, ihl, ihr]
      exact (and_iff_right not_false).symm
  | case subject branches otherwise ihs ihb iho =>
      have hbranches := forall₂_congr fun b hb => and_congr (ihb b hb).1 (ihb b hb).2
      rw [forall_mem_parts_case, ← forall₂_congr ihs, ← hbranches, ← forall₂_congr iho]
      simp [hasAggregate, hasAggregateOption_eq, hasAggregateBranches_eq, IsAggregate, and_assoc]
  | _ => exact iff_of_true rfl (List.forall_mem_singleton.2 not_false)

/-- The functions that an expression calls itself, and not through its parts, satisfy `P`. -/
def Calls (P : String → Prop) : Expr → Prop
  | call name _ => P name
  | aggregate _ argument _ => ∀ name ∈ argument.callNames, P name
  | _ => True

theorem forall_callNames_iff (P : String → Prop) {e : Expr} :
    (∀ name ∈ e.callNames, P name) ↔ ∀ s ∈ e.parts, s.Calls P := by
  induction e using induction with
  | call name args ih =>
      rw [forall_mem_parts_call, callNames, callNamesAll_eq, List.forall_mem_cons,
        List.forall_mem_flatMap]
      exact and_congr Iff.rfl (forall₂_congr ih)
  | aggregate function argument id ih =>
      change _ ↔ ∀ s ∈ [aggregate function argument id], _
      rw [List.forall_mem_singleton]
      exact Iff.rfl
  | binary op left right ihl ihr =>
      rw [forall_mem_parts_binary, callNames, List.forall_mem_append, ihl, ihr]
      exact (and_iff_right trivial).symm
  | case subject branches otherwise ihs ihb iho =>
      have hbranches := forall₂_congr fun b hb => and_congr (ihb b hb).1 (ihb b hb).2
      rw [forall_mem_parts_case, ← forall₂_congr ihs, ← hbranches, ← forall₂_congr iho]
      simp only [callNames, callNamesOption_eq, callNamesBranches_eq, List.forall_mem_append,
        List.forall_mem_flatMap, Option.mem_toList, Option.mem_def, and_assoc]
      exact (and_iff_right trivial).symm
  | _ => exact iff_of_true (List.forall_mem_nil _) (List.forall_mem_singleton.2 trivial)

/-- Where no aggregate occurs, no function that is called is an aggregate function. -/
theorem callNames_of_not_usesAggregate {e : Expr} (h : ¬e.UsesAggregate) :
    ∀ name ∈ e.callNames, AggregateFunction.ofName? name = none := by
  rw [not_usesAggregate_iff] at h
  apply (forall_callNames_iff (AggregateFunction.ofName? · = none)).2
  intro s hs
  have hnone := h s hs
  cases s with
  | call name args => exact Option.not_isSome_iff_eq_none.1 hnone
  | aggregate function argument id => exact absurd trivial hnone
  | _ => trivial

/-- Where no aggregate function is called, none is misused. -/
theorem wellUsed_of_callNames {e : Expr}
    (h : ∀ name ∈ e.callNames, AggregateFunction.ofName? name = none) : e.WellUsed := by
  intro s hs
  have hcalls := (forall_callNames_iff _).1 h s hs
  cases s with
  | call name args =>
      intro hname
      rw [hcalls] at hname
      cases hname
  | _ => trivial

end Expr

namespace OperatorTree

theorem written_toExpr {t : OperatorTree Expr} (h : ∀ e ∈ t.inorder.items, e.Written) :
    t.toExpr.Written := by
  induction t with
  | leaf a => exact h a List.mem_cons_self
  | node op left right ihl ihr =>
      rw [items_inorder_node, List.forall_mem_append] at h
      exact Expr.written_binary.2 ⟨ihl h.1, ihr h.2⟩

end OperatorTree

namespace Grammar

open TableQuery.Expr

/-- What the grammar derives is an expression as written. -/
theorem Derives.written {category : Category} {p : Phrase Expr} (h : Derives category p) :
    p.value.Written := by
  induction h with
  | null | bool | number | string | column => exact List.forall_mem_singleton.2 trivial
  | parentheses o c h ih => exact ih
  | countRows t o star c h =>
      refine written_call.2 ⟨Text.asciiUpper_asciiUpper _, List.forall_mem_singleton.2 ?_⟩
      exact List.forall_mem_singleton.2 trivial
  | callNothing t o c =>
      exact written_call.2 ⟨Text.asciiUpper_asciiUpper _, List.forall_mem_nil _⟩
  | @call t o c args h ih =>
      exact written_call.2 ⟨Text.asciiUpper_asciiUpper _, List.forall_mem_map.2 ih⟩
  | @case start finish subject branches otherwise hsubject hcondition hresult hotherwise ihs ihc
      ihr iho =>
      have hvalue : (branches.map id Branch.phrase).phrase.value =
          branches.items.map fun b => b.phrase.value := by
        rw [Chain.phrase, Chain.items_map, List.map_map]
        rfl
      refine written_case.2 ⟨?_, ?_, ?_⟩
      · intro e he
        obtain ⟨p, rfl, rfl⟩ := Phrase.exists_of_mem_option he
        exact ihs p rfl
      · rw [hvalue, List.forall_mem_map]
        exact fun b hb => ⟨ihc b hb, ihr b hb⟩
      · intro e he
        obtain ⟨l, rfl, rfl⟩ := Phrase.exists_of_mem_clause he
        exact iho l rfl
  | @chain c h ih =>
      refine OperatorTree.written_toExpr ?_
      rw [Chain.inorder_arrange, Chain.items_map]
      exact List.forall_mem_map.2 ih

end Grammar

end TableQuery
