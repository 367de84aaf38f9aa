import Mathlib.Data.List.Basic
import TableQuery.Expr.Parser

/-!
# Heights of expressions

The height of an expression as one maximum over the heights of its parts, which is how the
parser computes it.
-/

namespace TableQuery.Expr

theorem foldl_max (l : List Nat) (n : Nat) : l.foldl max n = max n (l.foldl max 0) := by
  induction l generalizing n with
  | nil => simp
  | cons a l ih =>
      rw [List.foldl_cons, List.foldl_cons, ih (max n a), ih (max 0 a)]
      omega

theorem foldl_max_append (l l' : List Nat) :
    (l ++ l').foldl max 0 = max (l.foldl max 0) (l'.foldl max 0) := by
  rw [List.foldl_append, foldl_max]

theorem le_foldl_max {l : List Nat} {n : Nat} (h : n ∈ l) : n ≤ l.foldl max 0 := by
  induction l with
  | nil => simp at h
  | cons a l ih =>
      rw [List.foldl_cons, foldl_max]
      rcases List.mem_cons.mp h with rfl | h
      · omega
      · have := ih h
        omega

theorem foldl_max_le {l : List Nat} {n : Nat} (h : ∀ a ∈ l, a ≤ n) : l.foldl max 0 ≤ n := by
  induction l with
  | nil => simp
  | cons a l ih =>
      rw [List.foldl_cons, foldl_max]
      have ha := h a List.mem_cons_self
      have hl := ih fun b hb => h b (List.mem_cons_of_mem _ hb)
      omega

theorem heightAll_eq (l : List Expr) : heightAll l = (l.map height).foldl max 0 := by
  induction l with
  | nil => rfl
  | cons e l ih =>
      rw [heightAll, List.map_cons, List.foldl_cons, foldl_max, ih]
      omega

theorem heightBranches_eq (l : List (Expr × Expr)) :
    heightBranches l = (l.map fun b => max b.1.height b.2.height).foldl max 0 := by
  induction l with
  | nil => rfl
  | cons b l ih =>
      rw [heightBranches, List.map_cons, List.foldl_cons, foldl_max, ih, Nat.zero_max,
        Nat.max_comm]

theorem heightOption_eq (o : Option Expr) :
    heightOption o = (o.toList.map height).foldl max 0 := by
  cases o <;> simp [heightOption]

theorem height_pos (e : Expr) : 0 < e.height := by
  cases e <;> simp [height]

theorem height_call (name : String) (args : List Expr) :
    (call name args).height = (args.map height).foldl max 0 + 1 := by
  rw [height, heightAll_eq]

theorem height_case (subject : Option Expr) (branches : List (Expr × Expr))
    (otherwise : Option Expr) :
    (case subject branches otherwise).height =
      (subject.toList.map height ++ (branches.map fun b => max b.1.height b.2.height) ++
        otherwise.toList.map height).foldl max 0 + 1 := by
  rw [height, heightBranches_eq, heightOption_eq, heightOption_eq, foldl_max_append,
    foldl_max_append, Nat.max_assoc]

theorem lt_height_call {name : String} {args : List Expr} {e : Expr} (h : e ∈ args) :
    e.height < (call name args).height := by
  rw [height_call]
  exact Nat.lt_succ_of_le (le_foldl_max (List.mem_map_of_mem h))

/-- Every part of a choice is less high than the choice. -/
theorem lt_height_case (subject : Option Expr) (branches : List (Expr × Expr))
    (otherwise : Option Expr) :
    (∀ e ∈ subject, e.height < (case subject branches otherwise).height) ∧
      (∀ b ∈ branches, max b.1.height b.2.height < (case subject branches otherwise).height) ∧
      ∀ e ∈ otherwise, e.height < (case subject branches otherwise).height := by
  rw [height_case]
  refine ⟨fun e he => ?_, fun b hb => ?_, fun e he => ?_⟩ <;>
    refine Nat.lt_succ_of_le (le_foldl_max ?_) <;>
    simp only [List.mem_append]
  · exact .inl (.inl (List.mem_map_of_mem (Option.mem_toList.mpr he)))
  · exact .inl (.inr (List.mem_map_of_mem hb))
  · exact .inr (List.mem_map_of_mem (Option.mem_toList.mpr he))

/-- The expression with its own height. -/
def Sized.ofExpr (e : Expr) : Sized := ⟨e, e.height⟩

theorem sized_call (name : String) (args : List Expr) :
    sized (ofCall name ((args.map Sized.ofExpr).map (·.expr)))
        (((args.map Sized.ofExpr).map (·.height)).foldl max 0 + 1) =
      sized (ofCall name args) (ofCall name args).height := by
  rw [ofCall, ofCall, height_call, List.map_map, List.map_map]
  simp only [Function.comp_def, Sized.ofExpr, List.map_id']

theorem sized_case (subject : Option Expr) (branches : List (Expr × Expr))
    (otherwise : Option Expr) :
    sized
        (case ((subject.map Sized.ofExpr).map (·.expr))
          ((branches.map fun b => (b, max b.1.height b.2.height)).map (·.1))
          ((otherwise.map Sized.ofExpr).map (·.expr)))
        (((subject.map Sized.ofExpr).toList.map (·.height) ++
          (branches.map fun b => (b, max b.1.height b.2.height)).map (·.2) ++
          (otherwise.map Sized.ofExpr).toList.map (·.height)).foldl max 0 + 1) =
      sized (case subject branches otherwise) (case subject branches otherwise).height := by
  rw [height_case]
  simp only [Function.comp_def, Sized.ofExpr, List.map_id', Option.map_map, List.map_map,
    Option.toList_map, Option.map_id_fun']
  rfl

end TableQuery.Expr
