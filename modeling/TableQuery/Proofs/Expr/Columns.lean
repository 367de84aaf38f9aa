import TableQuery.Proofs.Expr.Marking

/-!
# The columns that an expression names

The names of columns in an expression, those in the arguments of aggregates among them. Telling
aggregates apart does not change them.
-/

namespace TableQuery.Expr

mutual

/-- The names of the columns in an expression, those in the arguments of aggregates among them. -/
def columns : Expr → List String
  | identifier name => [name]
  | call _ args => columnsAll args
  | aggregate _ argument _ => argument.columns
  | binary _ left right => left.columns ++ right.columns
  | case subject branches otherwise =>
    columnsOption subject ++ columnsBranches branches ++ columnsOption otherwise
  | _ => []
termination_by structural e => e

/-- The names of the columns in a list of expressions. -/
def columnsAll : List Expr → List String
  | [] => []
  | e :: rest => e.columns ++ columnsAll rest
termination_by structural l => l

/-- The names of the columns in branches. -/
def columnsBranches : List (Expr × Expr) → List String
  | [] => []
  | (condition, result) :: rest => condition.columns ++ result.columns ++ columnsBranches rest
termination_by structural l => l

/-- The names of the columns in an expression that may be missing. -/
def columnsOption : Option Expr → List String
  | none => []
  | some e => e.columns
termination_by structural o => o

end

theorem columnsAll_eq (l : List Expr) : columnsAll l = l.flatMap columns := by
  induction l with
  | nil => rfl
  | cons e l ih => rw [columnsAll, ih, List.flatMap_cons]

theorem columnsBranches_eq (l : List (Expr × Expr)) :
    columnsBranches l = l.flatMap fun b => b.1.columns ++ b.2.columns := by
  induction l with
  | nil => rfl
  | cons b l ih => rw [columnsBranches, ih, List.flatMap_cons]

theorem columnsOption_eq (o : Option Expr) : columnsOption o = o.toList.flatMap columns := by
  cases o <;> simp [columnsOption]

variable {names : List String}

theorem flatMap_subset_iff {α : Type} {f : α → List String} {l : List α} :
    l.flatMap f ⊆ names ↔ ∀ a ∈ l, f a ⊆ names :=
  List.forall_mem_flatMap

theorem columns_call_subset {name : String} {args : List Expr} :
    (call name args).columns ⊆ names ↔ ∀ e ∈ args, e.columns ⊆ names := by
  rw [columns, columnsAll_eq, flatMap_subset_iff]

theorem columns_binary_subset {op : Operator} {left right : Expr} :
    (binary op left right).columns ⊆ names ↔ left.columns ⊆ names ∧ right.columns ⊆ names := by
  rw [columns, List.append_subset]

theorem columns_case_subset {subject : Option Expr} {branches : List (Expr × Expr)}
    {otherwise : Option Expr} :
    (case subject branches otherwise).columns ⊆ names ↔
      (∀ e ∈ subject, e.columns ⊆ names) ∧
        (∀ b ∈ branches, b.1.columns ⊆ names ∧ b.2.columns ⊆ names) ∧
        ∀ e ∈ otherwise, e.columns ⊆ names := by
  simp only [columns, columnsOption_eq, columnsBranches_eq, List.append_subset,
    flatMap_subset_iff, Option.mem_toList, Option.mem_def, and_assoc]

/-- Only columns of an expression are named in its parts. -/
theorem columns_parts_subset {e : Expr} (h : e.columns ⊆ names) :
    ∀ s ∈ e.parts, s.columns ⊆ names := by
  induction e using induction with
  | call name args ih =>
      have hargs := columns_call_subset.1 h
      exact forall_mem_parts_call.2 ⟨h, fun e he => ih e he (hargs e he)⟩
  | binary op left right ihl ihr =>
      obtain ⟨hleft, hright⟩ := columns_binary_subset.1 h
      exact forall_mem_parts_binary.2 ⟨h, ihl hleft, ihr hright⟩
  | case subject branches otherwise ihs ihb iho =>
      obtain ⟨hsubject, hbranches, hotherwise⟩ := columns_case_subset.1 h
      exact forall_mem_parts_case.2 ⟨h, fun e he => ihs e he (hsubject e he),
        fun b hb => ⟨(ihb b hb).1 (hbranches b hb).1, (ihb b hb).2 (hbranches b hb).2⟩,
        fun e he => iho e he (hotherwise e he)⟩
  | _ => exact List.forall_mem_singleton.2 h

theorem columns_argument_subset {e : Expr} (h : e.columns ⊆ names) {a : Aggregate}
    (ha : a ∈ e.nodes) : a.argument.columns ⊆ names := by
  obtain ⟨s, hs, hvalue⟩ := List.mem_filterMap.1 ha
  have hcolumns := columns_parts_subset h s hs
  cases s with
  | aggregate function argument id =>
      cases hvalue
      exact hcolumns
  | _ => cases hvalue

/-- Telling aggregates apart changes no names of columns. -/
theorem columns_marked (e : Expr) : e.marked.columns = e.columns := by
  induction e using induction with
  | call name args ih =>
      rw [marked]
      cases hcall : Aggregate.ofCall? name args with
      | some a =>
          obtain ⟨function, argument, -, rfl, rfl⟩ := Aggregate.ofCall?_eq_some hcall
          exact (List.append_nil argument.columns).symm
      | none =>
          rw [columns, columns, columnsAll_eq, columnsAll_eq, markedAll_eq, List.flatMap_map]
          exact List.flatMap_congr ih
  | binary op left right ihl ihr => rw [marked, columns, columns, ihl, ihr]
  | case subject branches otherwise ihs ihb iho =>
      simp only [marked, markedOption_eq, markedBranches_eq, columns, columnsOption_eq,
        columnsBranches_eq, Option.toList_map, List.flatMap_map]
      have hs := List.flatMap_congr fun e he => ihs e (Option.mem_toList.1 he)
      have hb : (branches.flatMap fun b => b.1.marked.columns ++ b.2.marked.columns) =
          branches.flatMap fun b => b.1.columns ++ b.2.columns :=
        List.flatMap_congr fun b hb => by rw [(ihb b hb).1, (ihb b hb).2]
      have ho := List.flatMap_congr fun e he => iho e (Option.mem_toList.1 he)
      rw [hs, hb, ho]
  | _ => rfl

end TableQuery.Expr
