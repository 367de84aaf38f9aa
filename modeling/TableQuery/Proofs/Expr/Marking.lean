import TableQuery.Proofs.Expr.Aggregates
import TableQuery.Proofs.Expr.RoundTrip
import TableQuery.Proofs.Expr.Written

/-! # Marking aggregates

Marking makes aggregates of calls. It leaves no call of an aggregate function behind where none
is misused, there is nothing to mark a second time, and the calls can be put back. -/

namespace TableQuery

theorem AggregateFunction.name_eq {name : String} {function : AggregateFunction}
    (hname : ofName? name = some function) (hupper : Text.asciiUpper name = name) :
    function.name = name := by
  have hfound := List.find?_some hname
  rw [beq_iff_eq, hupper] at hfound
  exact hfound

theorem Aggregate.ofCall?_eq_none_iff {name : String} {args : List Expr} :
    ofCall? name args = none ↔ AggregateFunction.ofName? name = none ∨ args.length ≠ 1 := by
  unfold ofCall?
  split
  · next hname => simp [hname]
  · next hother =>
    simp only [true_iff]
    cases hname : AggregateFunction.ofName? name with
    | none => exact .inl rfl
    | some function =>
        refine .inr fun hlength => ?_
        obtain ⟨argument, rfl⟩ := List.length_eq_one_iff.1 hlength
        exact hother function argument hname rfl

theorem Aggregate.ofCall?_eq_some {name : String} {args : List Expr} {a : Aggregate}
    (h : ofCall? name args = some a) : ∃ function argument,
      AggregateFunction.ofName? name = some function ∧ args = [argument] ∧
        a = ofCall function argument := by
  unfold ofCall? at h
  split at h
  · next function argument hname =>
    exact ⟨function, argument, hname, rfl, (Option.some.inj h).symm⟩
  · cases h

namespace Expr

section Marked

theorem aggregatesAll_eq (l : List Expr) : aggregatesAll l = l.flatMap aggregates := by
  induction l with
  | nil => rfl
  | cons e l ih => rw [aggregatesAll, ih, List.flatMap_cons]

theorem aggregatesBranches_eq (l : List (Expr × Expr)) :
    aggregatesBranches l = l.flatMap fun b => b.1.aggregates ++ b.2.aggregates := by
  induction l with
  | nil => rfl
  | cons b l ih => rw [aggregatesBranches, ih, List.flatMap_cons]

theorem aggregatesOption_eq (o : Option Expr) :
    aggregatesOption o = o.toList.flatMap aggregates := by
  cases o <;> simp [aggregatesOption]

theorem markedAll_eq (l : List Expr) : markedAll l = l.map marked := by
  induction l with
  | nil => rfl
  | cons e l ih => rw [markedAll, ih, List.map_cons]

theorem markedBranches_eq (l : List (Expr × Expr)) :
    markedBranches l = l.map fun b => (b.1.marked, b.2.marked) := by
  induction l with
  | nil => rfl
  | cons b l ih => rw [markedBranches, ih, List.map_cons]

theorem markedOption_eq (o : Option Expr) : markedOption o = o.map marked := by
  cases o <;> rfl

theorem ofCall?_markedAll_eq_none {name : String} {args : List Expr}
    (h : Aggregate.ofCall? name args = none) :
    Aggregate.ofCall? name (markedAll args) = none := by
  rw [Aggregate.ofCall?_eq_none_iff] at h ⊢
  rwa [markedAll_eq, List.length_map]

/-- The value of an aggregate, if the expression is one. -/
def aggregate? : Expr → Option Aggregate
  | aggregate function argument id => some ⟨function, argument, id⟩
  | _ => none

/-- The aggregates in an expression, from left to right. -/
def nodes (e : Expr) : List Aggregate := e.parts.filterMap aggregate?

theorem nodes_call (name : String) (args : List Expr) :
    (call name args).nodes = args.flatMap nodes := by
  rw [nodes, parts, partsAll_eq, List.filterMap_cons_none rfl, List.filterMap_flatMap]
  rfl

theorem nodes_binary (op : Operator) (left right : Expr) :
    (binary op left right).nodes = left.nodes ++ right.nodes := by
  rw [nodes, parts, List.filterMap_cons_none rfl, List.filterMap_append]
  rfl

theorem nodes_case (subject : Option Expr) (branches : List (Expr × Expr))
    (otherwise : Option Expr) :
    (case subject branches otherwise).nodes =
      subject.toList.flatMap nodes ++ (branches.flatMap fun b => b.1.nodes ++ b.2.nodes) ++
        otherwise.toList.flatMap nodes := by
  rw [nodes, parts, List.filterMap_cons_none rfl, partsOption_eq, partsBranches_eq,
    partsOption_eq]
  simp only [List.filterMap_append, List.filterMap_flatMap]
  rfl

/-- The aggregates of the marked expression are those that the expression asks for. -/
theorem nodes_marked (e : Expr) : e.marked.nodes = e.aggregates := by
  induction e using induction with
  | call name args ih =>
      rw [marked, aggregates]
      cases hcall : Aggregate.ofCall? name args with
      | some a => rfl
      | none =>
          rw [markedAll_eq, aggregatesAll_eq, nodes_call, List.flatMap_map]
          exact List.flatMap_congr ih
  | binary op left right ihl ihr => rw [marked, aggregates, nodes_binary, ihl, ihr]
  | case subject branches otherwise ihs ihb iho =>
      rw [marked, aggregates, markedOption_eq, markedBranches_eq, markedOption_eq,
        aggregatesOption_eq, aggregatesBranches_eq, aggregatesOption_eq, nodes_case,
        Option.toList_map, Option.toList_map, List.flatMap_map, List.flatMap_map,
        List.flatMap_map]
      congr 1
      · congr 1
        · exact List.flatMap_congr fun e he => ihs e (Option.mem_toList.1 he)
        · exact List.flatMap_congr fun b hb => by rw [(ihb b hb).1, (ihb b hb).2]
      · exact List.flatMap_congr fun e he => iho e (Option.mem_toList.1 he)
  | _ => rfl

/-- The aggregates that an expression as written asks for have arguments as written and the
identities of their calls. -/
theorem ofCall_of_mem_aggregates {e : Expr} (h : e.Written) :
    ∀ a ∈ e.aggregates, a.argument.Written ∧ a = .ofCall a.function a.argument := by
  induction e using induction with
  | call name args ih =>
      obtain ⟨-, hargs⟩ := written_call.1 h
      rw [aggregates]
      cases hcall : Aggregate.ofCall? name args with
      | some a =>
          obtain ⟨function, argument, -, rfl, rfl⟩ := Aggregate.ofCall?_eq_some hcall
          exact List.forall_mem_singleton.2 ⟨hargs argument List.mem_cons_self, rfl⟩
      | none =>
          rw [aggregatesAll_eq, List.forall_mem_flatMap]
          exact fun e he => ih e he (hargs e he)
  | aggregate function argument id ih => exact absurd h not_written_aggregate
  | binary op left right ihl ihr =>
      obtain ⟨hleft, hright⟩ := written_binary.1 h
      rw [aggregates, List.forall_mem_append]
      exact ⟨ihl hleft, ihr hright⟩
  | case subject branches otherwise ihs ihb iho =>
      obtain ⟨hsubject, hbranches, hotherwise⟩ := written_case.1 h
      simp only [aggregates, aggregatesOption_eq, aggregatesBranches_eq, List.forall_mem_append,
        List.forall_mem_flatMap, Option.mem_toList]
      refine ⟨⟨fun e he => ihs e he (hsubject e he), fun b hb => ?_⟩,
        fun e he => iho e he (hotherwise e he)⟩
      exact ⟨(ihb b hb).1 (hbranches b hb).1, (ihb b hb).2 (hbranches b hb).2⟩
  | _ => exact List.forall_mem_nil _

/-- There is nothing to mark in a marked expression. -/
theorem marked_marked (e : Expr) : e.marked.marked = e.marked := by
  induction e using induction with
  | call name args ih =>
      rw [marked]
      cases hcall : Aggregate.ofCall? name args with
      | some a => rfl
      | none =>
          have hargs : markedAll (markedAll args) = markedAll args := by
            rw [markedAll_eq, markedAll_eq, List.map_map]
            exact List.map_congr_left ih
          simp only [marked, ofCall?_markedAll_eq_none hcall, hargs]
  | binary op left right ihl ihr => rw [marked, marked, ihl, ihr]
  | case subject branches otherwise ihs ihb iho =>
      simp only [marked, markedOption_eq, markedBranches_eq, Option.map_map, List.map_map]
      congr 1
      · exact Option.map_congr ihs
      · exact List.map_congr_left fun b hb => Prod.ext (ihb b hb).1 (ihb b hb).2
      · exact Option.map_congr iho
  | _ => rfl

end Marked

section Restoring

/-- The call that a leaf stands for, if it is an aggregate. -/
def leafRestored : Expr → Expr
  | aggregate function argument _ => call function.name [argument]
  | e => e

/-- The expression with its aggregates made calls of their functions again. -/
def restored (e : Expr) : Expr := e.mapLeaves leafRestored

theorem restored_call (name : String) (args : List Expr) :
    (call name args).restored = call name (args.map restored) := by
  rw [restored, mapLeaves, mapLeavesAll_eq]
  rfl

theorem restored_case (subject : Option Expr) (branches : List (Expr × Expr))
    (otherwise : Option Expr) :
    (case subject branches otherwise).restored =
      case (subject.map restored) (branches.map fun b => (b.1.restored, b.2.restored))
        (otherwise.map restored) := by
  rw [restored, mapLeaves, mapLeavesOption_eq, mapLeavesBranches_eq, mapLeavesOption_eq]
  rfl

theorem ofCall?_toExpr_restored {name : String} {args : List Expr} {a : Aggregate}
    (hupper : Text.asciiUpper name = name) (h : Aggregate.ofCall? name args = some a) :
    a.toExpr.restored = call name args := by
  obtain ⟨function, argument, hname, rfl, rfl⟩ := Aggregate.ofCall?_eq_some h
  exact congrArg (call · [argument]) (AggregateFunction.name_eq hname hupper)

/-- Telling the aggregates of an expression as written apart can be undone. -/
theorem restored_marked {e : Expr} (h : e.Written) : e.marked.restored = e := by
  induction e using induction with
  | call name args ih =>
      obtain ⟨hupper, hargs⟩ := written_call.1 h
      rw [marked]
      cases hcall : Aggregate.ofCall? name args with
      | some a => exact ofCall?_toExpr_restored hupper hcall
      | none =>
          have hsame : (args.map fun e => e.marked.restored) = args.map id :=
            List.map_congr_left fun e he => ih e he (hargs e he)
          rw [List.map_id] at hsame
          calc (call name (markedAll args)).restored
              = call name ((args.map marked).map restored) := by rw [restored_call, markedAll_eq]
            _ = call name args := by rw [List.map_map, Function.comp_def, hsame]
  | aggregate function argument id ih => exact absurd h not_written_aggregate
  | binary op left right ihl ihr =>
      obtain ⟨hleft, hright⟩ := written_binary.1 h
      calc (binary op left right).marked.restored
          = binary op left.marked.restored right.marked.restored := rfl
        _ = binary op left right := by rw [ihl hleft, ihr hright]
  | case subject branches otherwise ihs ihb iho =>
      obtain ⟨hsubject, hbranches, hotherwise⟩ := written_case.1 h
      have hs : (subject.map fun e => e.marked.restored) = subject.map id :=
        Option.map_congr fun e he => ihs e he (hsubject e he)
      have hb : (branches.map fun b => (b.1.marked.restored, b.2.marked.restored)) =
          branches.map id := List.map_congr_left fun b hb =>
        Prod.ext ((ihb b hb).1 (hbranches b hb).1) ((ihb b hb).2 (hbranches b hb).2)
      have ho : (otherwise.map fun e => e.marked.restored) = otherwise.map id :=
        Option.map_congr fun e he => iho e he (hotherwise e he)
      rw [Option.map_id_fun, id] at hs ho
      rw [List.map_id] at hb
      simp only [marked, markedOption_eq, markedBranches_eq, restored_case, Option.map_map,
        List.map_map, Function.comp_def, hs, hb, ho]
  | _ => rfl

theorem restored_of_written {e : Expr} (h : e.Written) : e.restored = e := by
  apply mapLeaves_eq_self
  intro s hs
  cases s with
  | aggregate function argument id => exact absurd (h _ hs) not_false
  | _ => rfl

theorem charsAll_map {f : Expr → Expr} {l : List Expr} (h : ∀ e ∈ l, (f e).chars = e.chars) :
    charsAll (l.map f) = charsAll l := by
  induction l with
  | nil => rfl
  | cons e l ih =>
      rw [List.forall_mem_cons] at h
      cases l with
      | nil => exact h.1
      | cons e' l =>
          calc charsAll ((e :: e' :: l).map f)
              = (f e).chars ++ ',' :: ' ' :: charsAll ((e' :: l).map f) := rfl
            _ = e.chars ++ ',' :: ' ' :: charsAll (e' :: l) := by rw [h.1, ih h.2]
            _ = charsAll (e :: e' :: l) := rfl

theorem charsBranches_map {f : Expr → Expr} {l : List (Expr × Expr)}
    (h : ∀ b ∈ l, (f b.1).chars = b.1.chars ∧ (f b.2).chars = b.2.chars) :
    charsBranches (l.map fun b => (f b.1, f b.2)) = charsBranches l := by
  induction l with
  | nil => rfl
  | cons b l ih =>
      rw [List.forall_mem_cons] at h
      have hbranch : branchChars (f b.1, f b.2) = branchChars b := by
        rw [branchChars, branchChars, h.1.1, h.1.2]
      rw [List.map_cons, charsBranches_cons, charsBranches_cons, hbranch, ih h.2]

theorem charsOption_map {f : Expr → Expr} {o : Option Expr} (word : List Char)
    (h : ∀ e ∈ o, (f e).chars = e.chars) : charsOption word (o.map f) = charsOption word o := by
  cases o with
  | none => rfl
  | some e => rw [Option.map_some, charsOption, charsOption, h e rfl]

theorem operandChars_restored (e : Expr) (chars : List Char) :
    operandChars e.restored chars = operandChars e chars := by
  cases e <;> rfl

/-- The text of an aggregate is that of its call. -/
theorem chars_restored (e : Expr) : e.restored.chars = e.chars := by
  induction e using induction with
  | call name args ih =>
      calc (call name args).restored.chars
          = name.toList ++ parenthesized (charsAll (args.map restored)) := by
            rw [restored_call]
            rfl
        _ = (call name args).chars := by
            rw [charsAll_map ih]
            rfl
  | binary op left right ihl ihr =>
      calc (binary op left right).restored.chars
          = operandChars left.restored left.restored.chars ++ ' ' :: op.symbol.toList ++
              ' ' :: operandChars right.restored right.restored.chars := rfl
        _ = (binary op left right).chars := by
            rw [ihl, ihr, operandChars_restored, operandChars_restored]
            rfl
  | case subject branches otherwise ihs ihb iho =>
      rw [restored_case, chars_case, chars_case, charsOption_map [] ihs, charsBranches_map ihb,
        charsOption_map _ iho]
  | _ => rfl

theorem text_marked {e : Expr} (h : e.Written) : e.marked.text = e.text := by
  rw [text, text, ← chars_restored, restored_marked h]

end Restoring

/-- When no aggregate function is misused, telling aggregates apart leaves no call of one. -/
theorem callNames_marked {e : Expr} (h : e.Written) (hused : e.WellUsed) :
    ∀ name ∈ e.marked.callNames, AggregateFunction.ofName? name = none := by
  induction e using induction with
  | call name args ih =>
      obtain ⟨-, hargs⟩ := written_call.1 h
      obtain ⟨hcall, hargsUsed⟩ := forall_mem_parts_call.1 hused
      cases hname : AggregateFunction.ofName? name with
      | none =>
          rw [marked, Aggregate.ofCall?_eq_none args hname]
          change ∀ n ∈ (call name (markedAll args)).callNames, _
          rw [callNames, callNamesAll_eq, markedAll_eq, List.forall_mem_cons, List.flatMap_map,
            List.forall_mem_flatMap]
          exact ⟨hname, fun e he => ih e he (hargs e he) (hargsUsed e he)⟩
      | some function =>
          obtain ⟨argument, rfl, hnone⟩ := hcall (Option.isSome_of_eq_some hname)
          have hnames : (call name [argument]).marked.callNames = argument.callNames := by
            simp only [marked, Aggregate.ofCall?, hname]
            rfl
          rw [hnames]
          exact callNames_of_not_usesAggregate hnone
  | aggregate function argument id ih => exact absurd h not_written_aggregate
  | binary op left right ihl ihr =>
      obtain ⟨hleft, hright⟩ := written_binary.1 h
      obtain ⟨hleftUsed, hrightUsed⟩ := wellUsed_binary.1 hused
      rw [marked, callNames, List.forall_mem_append]
      exact ⟨ihl hleft hleftUsed, ihr hright hrightUsed⟩
  | case subject branches otherwise ihs ihb iho =>
      obtain ⟨hsubject, hbranches, hotherwise⟩ := written_case.1 h
      obtain ⟨hsubjectUsed, hbranchesUsed, hotherwiseUsed⟩ := wellUsed_case.1 hused
      simp only [marked, markedOption_eq, markedBranches_eq, callNames, callNamesOption_eq,
        callNamesBranches_eq, Option.toList_map, List.flatMap_map, List.forall_mem_append,
        List.forall_mem_flatMap, Option.mem_toList]
      refine ⟨⟨fun e he => ihs e he (hsubject e he) (hsubjectUsed e he), fun b hb => ?_⟩,
        fun e he => iho e he (hotherwise e he) (hotherwiseUsed e he)⟩
      exact ⟨(ihb b hb).1 (hbranches b hb).1 (hbranchesUsed b hb).1,
        (ihb b hb).2 (hbranches b hb).2 (hbranchesUsed b hb).2⟩
  | _ => exact List.forall_mem_nil _

end Expr

end TableQuery
