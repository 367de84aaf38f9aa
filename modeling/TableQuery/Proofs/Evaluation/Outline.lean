import TableQuery.Proofs.Evaluation.Transparency
import TableQuery.Proofs.Expr.Parts

/-! # Outlines of evaluations

What an evaluation answers when only the kind of an error counts. The texts in an error may
show how an expression is written; its kind does not. -/

namespace TableQuery

/-- What an error is about, without its details. -/
inductive Error.Kind where
  | cannotOpen | table | lexical | unexpected | semantic
  | columnNotFound | unknownFunction | unknownOperator
deriving DecidableEq, Repr

/-- The kind of an error. -/
def Error.kind : Error → Kind
  | .cannotOpen .. => .cannotOpen
  | .table _ => .table
  | .lexical _ => .lexical
  | .unexpected .. => .unexpected
  | .semantic _ => .semantic
  | .columnNotFound _ => .columnNotFound
  | .unknownFunction _ => .unknownFunction
  | .unknownOperator _ => .unknownOperator

namespace Evaluation

variable {α β : Type}

/-- The evaluation with its error reduced to a kind. -/
def outline (m : Evaluation α) : ExceptT Error.Kind (StateM Patterns) α := fun known =>
  ((m known).1.mapError Error.kind, (m known).2)

theorem outline_bind (m : Evaluation α) (f : α → Evaluation β) :
    (m >>= f).outline = m.outline >>= fun a => (f a).outline := by
  funext known
  change _ = (ExceptT.bindCont (fun a => (f a).outline) (m.outline known).1 : StateM _ _)
    (m.outline known).2
  cases h : (m known).1 with
  | error e =>
      rw [outline, outline, bind_of_error h, h]
      rfl
  | ok a =>
      rw [outline, outline, bind_of_ok h, h]
      rfl

theorem outline_map (g : α → β) (m : Evaluation α) : (g <$> m).outline = g <$> m.outline := by
  rw [map_eq_bind, outline_bind, map_eq_pure_bind]
  rfl

theorem outline_ofOption {e e' : Error} (h : e.kind = e'.kind) (o : Option α) :
    (ofOption e o).outline = (ofOption e' o).outline := by
  cases o with
  | some a => rfl
  | none =>
      funext known
      exact Prod.ext (congrArg Except.error h) rfl

end Evaluation

namespace Expr

open Evaluation

variable [PatternEngine] {row : Row} {f : Expr → Expr}

mutual

/-- Leaves may be replaced by ones that are evaluated alike. -/
theorem outline_mapLeaves (h : ∀ e, ((f e).eval row).outline = (e.eval row).outline) :
    ∀ e : Expr, ((e.mapLeaves f).eval row).outline = (e.eval row).outline
  | null | bool _ | number _ _ | string _ | identifier _ | star | aggregate .. => h _
  | call name args => by
    rw [mapLeaves, eval, eval, outline_bind, outline_bind, outlineAll_mapLeaves h args]
  | binary op left right => by
    simp only [mapLeaves, eval, outline_bind, outline_mapLeaves h left,
      outline_mapLeaves h right]
  | case subject branches otherwise => by
    simp only [mapLeaves, eval, outline_bind, outlineOption_mapLeaves h subject]
    congr 1
    funext v
    rw [outlineBranches_mapLeaves h branches v]
    congr 1
    funext taken
    cases taken with
    | some w => rfl
    | none => rw [outline_bind, outline_bind, outlineOption_mapLeaves h otherwise]

theorem outlineAll_mapLeaves (h : ∀ e, ((f e).eval row).outline = (e.eval row).outline) :
    ∀ l : List Expr, (evalAll row (mapLeavesAll f l)).outline = (evalAll row l).outline
  | [] => rfl
  | e :: rest => by
    simp only [mapLeavesAll, evalAll, outline_bind, outline_mapLeaves h e,
      outlineAll_mapLeaves h rest]

theorem outlineBranches_mapLeaves
    (h : ∀ e, ((f e).eval row).outline = (e.eval row).outline) :
    ∀ (l : List (Expr × Expr)) (subject : Option Value),
    (evalBranches row subject (mapLeavesBranches f l)).outline =
      (evalBranches row subject l).outline
  | [], _ => rfl
  | (condition, result) :: rest, subject => by
    simp only [mapLeavesBranches, evalBranches, outline_bind, outline_mapLeaves h condition]
    congr 1
    funext v
    split
    · rw [outline_map, outline_map, outline_mapLeaves h result]
    · exact outlineBranches_mapLeaves h rest subject

theorem outlineOption_mapLeaves
    (h : ∀ e, ((f e).eval row).outline = (e.eval row).outline) :
    ∀ o : Option Expr, (evalOption row (mapLeavesOption f o)).outline = (evalOption row o).outline
  | none => rfl
  | some e => by
    rw [mapLeavesOption, evalOption, evalOption, outline_map, outline_map, outline_mapLeaves h e]

end

end Expr

end TableQuery
