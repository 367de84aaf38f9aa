import TableQuery.Proofs.Evaluation.Transparency

/-! # The spelling of numerals

A numeral may be written in several ways. Evaluation reads its value only. -/

namespace TableQuery.Expr

mutual

/-- The expression without the texts of its numerals. -/
def unspelled : Expr → Expr
  | number value _ => number value ""
  | call name args => call name (unspelledAll args)
  | binary op left right => binary op left.unspelled right.unspelled
  | case subject branches otherwise =>
    case (unspelledOption subject) (unspelledBranches branches) (unspelledOption otherwise)
  | e => e
termination_by structural e => e

/-- A list of expressions without the texts of numerals. -/
def unspelledAll : List Expr → List Expr
  | [] => []
  | e :: rest => e.unspelled :: unspelledAll rest
termination_by structural l => l

/-- Branches without the texts of numerals. -/
def unspelledBranches : List (Expr × Expr) → List (Expr × Expr)
  | [] => []
  | (condition, result) :: rest =>
    (condition.unspelled, result.unspelled) :: unspelledBranches rest
termination_by structural l => l

/-- An expression that may be missing, without the texts of numerals. -/
def unspelledOption : Option Expr → Option Expr
  | none => none
  | some e => some e.unspelled
termination_by structural o => o

end

variable [PatternEngine] (row : Row)

mutual

theorem eval_unspelled : ∀ e : Expr, e.unspelled.eval row = e.eval row
  | null | bool _ | number _ _ | string _ | identifier _ | star | aggregate .. => rfl
  | call name args => by
    rw [unspelled, eval, eval, evalAll_unspelled args]
  | binary op left right => by
    rw [unspelled, eval, eval, eval_unspelled left, eval_unspelled right]
  | case subject branches otherwise => by
    simp only [unspelled, eval, evalOption_unspelled, evalBranches_unspelled]

theorem evalAll_unspelled : ∀ l : List Expr, evalAll row (unspelledAll l) = evalAll row l
  | [] => rfl
  | e :: rest => by
    rw [unspelledAll, evalAll, evalAll, eval_unspelled e, evalAll_unspelled rest]

theorem evalBranches_unspelled : ∀ (l : List (Expr × Expr)) (subject : Option Value),
    evalBranches row subject (unspelledBranches l) = evalBranches row subject l
  | [], _ => rfl
  | (condition, result) :: rest, subject => by
    rw [unspelledBranches, evalBranches, evalBranches, eval_unspelled condition,
      eval_unspelled result, evalBranches_unspelled rest subject]

theorem evalOption_unspelled : ∀ o : Option Expr,
    evalOption row (unspelledOption o) = evalOption row o
  | none => rfl
  | some e => by
    rw [unspelledOption, evalOption, evalOption, eval_unspelled e]

end

theorem value_eq_of_unspelled_eq {e f : Expr} (h : e.unspelled = f.unspelled) :
    e.value row = f.value row := by
  have heval : e.eval row = f.eval row := by
    rw [← eval_unspelled row e, h, eval_unspelled row f]
  exact congrArg Evaluation.value heval

end TableQuery.Expr
