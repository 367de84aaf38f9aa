import TableQuery.Evaluation
import TableQuery.Proofs.Expr.Columns
import TableQuery.Proofs.OrderedMap

/-!
# The columns that an expression reads

An expression has the same value, or fails alike, on two rows that agree on the columns it names.
The columns of a row outside a list can therefore be dropped before an expression is evaluated that
names none of them.
-/

namespace TableQuery

/-- The values under some of the keys, in an order that only these decide. -/
def OrderedMap.pick {α β : Type} [DecidableEq α] (m : OrderedMap α β) : List α → OrderedMap α β
  | [] => ∅
  | k :: keys =>
    match m.get? k with
    | some v => (m.pick keys).insert k v
    | none => m.pick keys

namespace OrderedMap

variable {α β : Type} [DecidableEq α]

theorem get?_pick (m : OrderedMap α β) (keys : List α) (l : α) :
    (m.pick keys).get? l = if l ∈ keys then m.get? l else none := by
  induction keys with
  | nil => simp [pick]
  | cons k keys ih =>
      rw [pick]
      split
      · next v hv =>
        rw [get?_insert, ih]
        by_cases hl : l = k
        · simp [hl, hv]
        · simp [hl]
      · next hk =>
        rw [ih]
        by_cases hl : l = k
        · simp [hl, hk]
        · simp [hl]

theorem pick_congr {m m' : OrderedMap α β} {keys : List α}
    (h : ∀ k ∈ keys, m.get? k = m'.get? k) : m.pick keys = m'.pick keys := by
  induction keys with
  | nil => rfl
  | cons k keys ih =>
      obtain ⟨hk, hkeys⟩ := List.forall_mem_cons.1 h
      rw [pick, pick, hk, ih hkeys]

end OrderedMap

namespace Row

/-- Two rows have the same values in some columns, or none in both, and carry the same values of
aggregates. -/
structure AgreesOn (names : List String) (row other : Row) : Prop where
  columns : ∀ name ∈ names, row.get? name = other.get? name
  aggregates : row.aggregates = other.aggregates

/-- The row cut down to some of its columns. -/
def keep (names : List String) (row : Row) : Row :=
  { row with columns := row.columns.pick names }

variable {names : List String} {row other : Row}

theorem agreesOn_keep (names : List String) (row : Row) : (row.keep names).AgreesOn names row where
  columns name hname := (row.columns.get?_pick names name).trans (if_pos hname)
  aggregates := rfl

theorem AgreesOn.keep_eq (h : row.AgreesOn names other) : row.keep names = other.keep names := by
  rw [keep, keep, OrderedMap.pick_congr h.columns, h.aggregates]

end Row

namespace Expr

variable [PatternEngine] {names : List String} {row other : Row}

theorem evalAll_congr {l : List Expr} (h : ∀ e ∈ l, e.eval row = e.eval other) :
    evalAll row l = evalAll other l := by
  induction l with
  | nil => rfl
  | cons e l ih =>
      obtain ⟨he, hl⟩ := List.forall_mem_cons.1 h
      rw [evalAll, evalAll, he, ih hl]

theorem evalBranches_congr (subject : Option Value) {l : List (Expr × Expr)}
    (h : ∀ b ∈ l, b.1.eval row = b.1.eval other ∧ b.2.eval row = b.2.eval other) :
    evalBranches row subject l = evalBranches other subject l := by
  induction l with
  | nil => rfl
  | cons b l ih =>
      obtain ⟨⟨hcondition, hresult⟩, hl⟩ := List.forall_mem_cons.1 h
      rw [evalBranches, evalBranches, hcondition, hresult, ih hl]

theorem evalOption_congr {o : Option Expr} (h : ∀ e ∈ o, e.eval row = e.eval other) :
    evalOption row o = evalOption other o := by
  cases o with
  | none => rfl
  | some e => rw [evalOption, evalOption, h e rfl]

/-- An expression is evaluated alike on rows that agree on the columns in it. -/
theorem eval_congr (hrow : row.AgreesOn names other) {e : Expr}
    (h : e.columns ⊆ names) : e.eval row = e.eval other := by
  induction e using induction with
  | identifier name => rw [eval, eval, hrow.columns name (h List.mem_cons_self)]
  | call name args ih =>
      have hargs := columns_call_subset.1 h
      rw [eval, eval, evalAll_congr fun e he => ih e he (hargs e he)]
  | aggregate function argument id _ =>
      rw [eval, eval, Row.aggregate?, Row.aggregate?, hrow.aggregates]
  | binary op left right ihl ihr =>
      obtain ⟨hleft, hright⟩ := columns_binary_subset.1 h
      rw [eval, eval, ihl hleft, ihr hright]
  | case subject branches otherwise ihs ihb iho =>
      obtain ⟨hsubject, hbranches, hotherwise⟩ := columns_case_subset.1 h
      have hs := evalOption_congr fun e he => ihs e he (hsubject e he)
      have hb := fun v => evalBranches_congr v fun b hb =>
        ⟨(ihb b hb).1 (hbranches b hb).1, (ihb b hb).2 (hbranches b hb).2⟩
      have ho := evalOption_congr fun e he => iho e he (hotherwise e he)
      simp only [eval, hs, hb, ho]
  | _ => rfl

theorem eval_keep {e : Expr} (h : e.columns ⊆ names) (row : Row) :
    e.eval (row.keep names) = e.eval row :=
  eval_congr (row.agreesOn_keep names) h

theorem evalAll_keep {l : List Expr} (h : ∀ e ∈ l, e.columns ⊆ names) (row : Row) :
    evalAll (row.keep names) l = evalAll row l :=
  evalAll_congr fun e he => eval_keep (h e he) row

end Expr

end TableQuery
