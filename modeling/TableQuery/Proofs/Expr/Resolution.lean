import TableQuery.Proofs.Query.Meaning

/-! # Aggregates read from a row

The value of an expression on a group can be had in two ways: by replacing its aggregates with
their values on the rows of the group, or by reading them from a row that carries these values
under the identities of the aggregates. -/

namespace TableQuery

open Evaluation

variable [PatternEngine]

/-- The row has the columns of `first`, and carries the values on `rows` of the aggregates of a
list. -/
def Row.Carries (row first : Row) (rows : List Row) (l : List Aggregate) : Prop :=
  row.columns = first.columns ∧
    ∀ a ∈ l, ∃ v, a.value rows = .ok v ∧ row.aggregate? a.id = some v

namespace Row.Carries

variable {row first : Row} {rows : List Row} {l l' : List Aggregate}

theorem mono (h : row.Carries first rows l) (hsub : l' ⊆ l) : row.Carries first rows l' :=
  ⟨h.1, fun a ha => h.2 a (hsub ha)⟩

theorem left (h : row.Carries first rows (l ++ l')) : row.Carries first rows l :=
  h.mono (List.subset_append_left l l')

theorem right (h : row.Carries first rows (l ++ l')) : row.Carries first rows l' :=
  h.mono (List.subset_append_right l l')

end Row.Carries

namespace Expr

theorem eval_ofValue (row : Row) (v : Value) : (ofValue v).eval row = pure v := by
  cases v <;> rfl

/-- An aggregate is replaced by what the row carries for it. -/
theorem resolve_aggregate {row first : Row} {rows : List Row} {a : Aggregate}
    (h : row.Carries first rows [a]) :
    ∃ e, ofValue <$> a.value rows = .ok e ∧ a.toExpr.eval row = e.eval first := by
  obtain ⟨v, hvalue, hcarried⟩ := h.2 a List.mem_cons_self
  refine ⟨ofValue v, by rw [hvalue]; rfl, ?_⟩
  rw [eval_ofValue, Aggregate.toExpr, eval, hcarried]
  rfl

variable {row first : Row} {rows : List Row}

mutual

theorem exists_resolve : ∀ e : Expr, row.Carries first rows e.aggregates →
    ∃ resolved, e.resolve rows = .ok resolved ∧ e.marked.eval row = resolved.eval first
  | null, _ | bool _, _ | number _ _, _ | string _, _ | star, _ => ⟨_, rfl, rfl⟩
  | identifier name, h => by
    refine ⟨identifier name, rfl, ?_⟩
    change (identifier name).eval row = _
    rw [eval, eval, Row.get?, Row.get?, h.1]
  | aggregate function argument id, h => resolve_aggregate h
  | call name args, h => by
    rw [aggregates] at h
    rw [resolve, marked]
    cases hcall : Aggregate.ofCall? name args with
    | some a =>
        rw [hcall] at h
        exact resolve_aggregate h
    | none =>
        rw [hcall] at h
        obtain ⟨resolved, hresolve, heval⟩ := exists_resolveAll args h
        refine ⟨call name resolved, by rw [hresolve]; rfl, ?_⟩
        rw [eval, eval, heval]
  | binary op left right, h => by
    obtain ⟨l, hl, hleft⟩ := exists_resolve left h.left
    obtain ⟨r, hr, hright⟩ := exists_resolve right h.right
    refine ⟨binary op l r, by rw [resolve, hl, hr]; rfl, ?_⟩
    rw [marked, eval, eval, hleft, hright]
  | case subject branches otherwise, h => by
    obtain ⟨s, hs, hsubject⟩ := exists_resolveOption subject h.left.left
    obtain ⟨b, hb, hbranches⟩ := exists_resolveBranches branches h.left.right
    obtain ⟨o, ho, hotherwise⟩ := exists_resolveOption otherwise h.right
    refine ⟨case s b o, by rw [resolve, hs, hb, ho]; rfl, ?_⟩
    simp only [marked, eval, hsubject, hbranches, hotherwise]

theorem exists_resolveAll : ∀ l : List Expr, row.Carries first rows (aggregatesAll l) →
    ∃ resolved, resolveAll rows l = .ok resolved ∧
      evalAll row (markedAll l) = evalAll first resolved
  | [], _ => ⟨[], rfl, rfl⟩
  | e :: rest, h => by
    obtain ⟨f, hf, hhead⟩ := exists_resolve e h.left
    obtain ⟨fs, hfs, htail⟩ := exists_resolveAll rest h.right
    refine ⟨f :: fs, by rw [resolveAll, hf, hfs]; rfl, ?_⟩
    rw [markedAll, evalAll, evalAll, hhead, htail]

theorem exists_resolveBranches : ∀ l : List (Expr × Expr),
    row.Carries first rows (aggregatesBranches l) →
    ∃ resolved, resolveBranches rows l = .ok resolved ∧
      ∀ subject, evalBranches row subject (markedBranches l) =
        evalBranches first subject resolved
  | [], _ => ⟨[], rfl, fun _ => rfl⟩
  | (condition, result) :: rest, h => by
    obtain ⟨c, hc, hcondition⟩ := exists_resolve condition h.left.left
    obtain ⟨r, hr, hresult⟩ := exists_resolve result h.left.right
    obtain ⟨b, hb, hbranches⟩ := exists_resolveBranches rest h.right
    refine ⟨(c, r) :: b, by rw [resolveBranches, hc, hr, hb]; rfl, ?_⟩
    intro subject
    rw [markedBranches, evalBranches, evalBranches, hcondition, hresult, hbranches]

theorem exists_resolveOption : ∀ o : Option Expr, row.Carries first rows (aggregatesOption o) →
    ∃ resolved, resolveOption rows o = .ok resolved ∧
      evalOption row (markedOption o) = evalOption first resolved
  | none, _ => ⟨none, rfl, rfl⟩
  | some e, h => by
    obtain ⟨f, hf, heval⟩ := exists_resolve e h
    refine ⟨some f, by rw [resolveOption, hf]; rfl, ?_⟩
    rw [markedOption, evalOption, evalOption, heval]

end

end Expr

/-- On a row that carries its aggregates an expression has its value on the group. -/
theorem Group.value_eq {g : Group} {row : Row} {e : Expr}
    (h : row.Carries g.first g.rows e.aggregates) : g.value e = e.marked.value row := by
  obtain ⟨resolved, hresolve, heval⟩ := Expr.exists_resolve e h
  rw [Group.value, hresolve, Expr.value, heval]
  rfl

end TableQuery
