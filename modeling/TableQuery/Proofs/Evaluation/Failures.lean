import TableQuery.Proofs.Evaluation.Transparency
import TableQuery.Proofs.Evaluation.Outline
import TableQuery.Proofs.Expr.Marking

/-!
# Failures of evaluations

On a row that carries the aggregates of an expression the evaluation answers, or it meets the name
of a column or of a function that does not exist. It fails in no other way, given an engine that
compiles every pattern, as is meant throughout.
-/

namespace TableQuery

/-- The error is about the name of a column or of a function that does not exist. -/
def Error.IsUnknownName (e : Error) : Prop :=
  e.kind = .columnNotFound ∨ e.kind = .unknownFunction

/-- The answer satisfies `Q`, or it is an error about a name. -/
def Answers {α : Type} (Q : α → Prop) : Except Error α → Prop
  | .ok a => Q a
  | .error e => e.IsUnknownName

theorem Answers.isUnknownName {α : Type} {Q : α → Prop} {answer : Except Error α} {e : Error}
    (h : Answers Q answer) (he : answer = .error e) : e.IsUnknownName := by
  rw [he] at h
  exact h

namespace Evaluation

variable {α β : Type} {Q : α → Prop} {R : β → Prop}

/-- Whatever patterns are known, the answer satisfies `Q`, or it is an error about a name. -/
def Answers (Q : α → Prop) (m : Evaluation α) : Prop :=
  ∀ known, TableQuery.Answers Q (m known).1

namespace Answers

theorem ok {m : Evaluation α} {known later : Patterns} {a : α} (h : m.Answers Q)
    (heq : m known = (.ok a, later)) : Q a := by
  have hanswer := h known
  rw [heq] at hanswer
  exact hanswer

theorem error {m : Evaluation α} {known later : Patterns} {e : Error} (h : m.Answers Q)
    (heq : m known = (.error e, later)) : e.IsUnknownName :=
  (h known).isUnknownName (congrArg Prod.fst heq)

theorem pure {a : α} (h : Q a) : (pure a : Evaluation α).Answers Q := fun _ => h

theorem bind {m : Evaluation α} {f : α → Evaluation β} (hm : m.Answers Q)
    (hf : ∀ a, Q a → (f a).Answers R) : (m >>= f).Answers R := by
  intro known
  have hfirst := hm known
  cases h : (m known).1 with
  | error e =>
      rw [h] at hfirst
      rw [bind_of_error h]
      exact hfirst
  | ok a =>
      rw [h] at hfirst
      rw [bind_of_ok h]
      exact hf a hfirst _

theorem map {m : Evaluation α} {g : α → β} (hm : m.Answers Q) (hg : ∀ a, Q a → R (g a)) :
    (g <$> m).Answers R := by
  rw [map_eq_bind]
  exact hm.bind fun a ha => .pure (hg a ha)

theorem ofOption {e : Error} {o : Option α} (h : o.isSome ∨ e.IsUnknownName) :
    (ofOption e o).Answers fun _ => True := by
  intro known
  cases o with
  | some a => trivial
  | none => exact h.resolve_left nofun

end Answers

end Evaluation

theorem Operator.answers_apply (op : Operator) (left right : Value) :
    (op.apply left right).Answers fun _ => True := by
  cases op with
  | like =>
      rw [apply_like]
      exact fun _ => trivial
  | _ => exact fun _ => trivial

namespace Expr

open Evaluation

variable {row : Row}

theorem answers_evalAll {l : List Expr} (h : ∀ e ∈ l, (e.eval row).Answers fun _ => True) :
    (evalAll row l).Answers fun _ => True := by
  induction l with
  | nil => exact .pure trivial
  | cons e l ih =>
      obtain ⟨he, hl⟩ := List.forall_mem_cons.1 h
      exact he.bind fun _ _ => (ih hl).bind fun _ _ => .pure trivial

theorem answers_evalOption {o : Option Expr}
    (h : ∀ e ∈ o, (e.eval row).Answers fun _ => True) :
    (evalOption row o).Answers fun _ => True := by
  cases o with
  | none => exact .pure trivial
  | some e => exact (h e rfl).map fun _ _ => trivial

theorem answers_evalBranches (subject : Option Value) {l : List (Expr × Expr)}
    (h : ∀ b ∈ l, ((b.1.eval row).Answers fun _ => True) ∧ (b.2.eval row).Answers fun _ => True) :
    (evalBranches row subject l).Answers fun _ => True := by
  induction l with
  | nil => exact .pure trivial
  | cons b l ih =>
      obtain ⟨⟨hcondition, hresult⟩, hl⟩ := List.forall_mem_cons.1 h
      refine hcondition.bind fun v _ => ?_
      split
      · exact hresult.map fun _ _ => trivial
      · exact ih hl

/-- An expression whose aggregates the row carries has a value on it, unless a name in it is
unknown. -/
theorem answers_eval {e : Expr} (h : ∀ a ∈ e.nodes, (row.aggregate? a.id).isSome) :
    (e.eval row).Answers fun _ => True := by
  induction e using induction with
  | identifier name => exact .ofOption (.inr (.inl rfl))
  | call name args ih =>
      rw [nodes_call, List.forall_mem_flatMap] at h
      refine (answers_evalAll fun e he => ih e he (h e he)).bind fun _ _ => ?_
      exact .ofOption (.inr (.inr rfl))
  | aggregate function argument id =>
      exact .ofOption (.inl (h ⟨function, argument, id⟩ List.mem_cons_self))
  | binary op left right ihl ihr =>
      rw [nodes_binary, List.forall_mem_append] at h
      exact (ihl h.1).bind fun v _ => (ihr h.2).bind fun w _ => op.answers_apply v w
  | case subject branches otherwise ihs ihb iho =>
      simp only [nodes_case, List.forall_mem_append, List.forall_mem_flatMap,
        Option.mem_toList] at h
      obtain ⟨⟨hsubject, hbranches⟩, hotherwise⟩ := h
      have hb : ∀ b ∈ branches,
          ((b.1.eval row).Answers fun _ => True) ∧ (b.2.eval row).Answers fun _ => True :=
        fun b hb => ⟨(ihb b hb).1 (hbranches b hb).1, (ihb b hb).2 (hbranches b hb).2⟩
      refine (answers_evalOption fun e he => ihs e he (hsubject e he)).bind fun v _ => ?_
      refine (answers_evalBranches v hb).bind fun taken _ => ?_
      cases taken with
      | some w => exact .pure trivial
      | none =>
          refine (answers_evalOption fun e he => iho e he (hotherwise e he)).bind fun _ _ => ?_
          exact .pure trivial
  | _ => exact .pure trivial

end Expr

end TableQuery
