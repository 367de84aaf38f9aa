import TableQuery.Expr

/-! # The parts of an expression

The expressions in an expression, and what becomes of it when some of them are replaced. An
aggregate stands for a value that has been computed, so it is not taken apart. -/

namespace TableQuery.Expr

/-- Induction on expressions, with a hypothesis for each expression in a list, a branch or an
option. -/
@[elab_as_elim]
theorem induction {P : Expr → Prop} (null : P .null) (bool : ∀ b, P (.bool b))
    (number : ∀ value text, P (.number value text)) (string : ∀ s, P (.string s))
    (identifier : ∀ name, P (.identifier name)) (star : P .star)
    (call : ∀ name args, (∀ e ∈ args, P e) → P (.call name args))
    (aggregate : ∀ function argument id, P argument → P (.aggregate function argument id))
    (binary : ∀ op left right, P left → P right → P (.binary op left right))
    (case : ∀ subject branches otherwise, (∀ e ∈ subject, P e) →
      (∀ b ∈ branches, P b.1 ∧ P b.2) → (∀ e ∈ otherwise, P e) →
      P (.case subject branches otherwise)) (e : Expr) : P e := by
  have hnone : ∀ e ∈ (none : Option Expr), P e := fun e he => by cases he
  have hsome : ∀ e, P e → ∀ f ∈ some e, P f := fun e he f hf => Option.some.inj hf ▸ he
  exact @Expr.rec P (fun l => ∀ e ∈ l, P e) (fun o => ∀ e ∈ o, P e)
    (fun l => ∀ b ∈ l, P b.1 ∧ P b.2) (fun b => P b.1 ∧ P b.2)
    null bool number string identifier star call aggregate binary case
    (List.forall_mem_nil _) (fun _ _ he hl => List.forall_mem_cons.2 ⟨he, hl⟩)
    hnone hsome
    (List.forall_mem_nil _) (fun _ _ hb hl => List.forall_mem_cons.2 ⟨hb, hl⟩)
    (fun _ _ hcondition hresult => ⟨hcondition, hresult⟩) e

mutual

/-- The expression and the ones in it, each before what it is made of. -/
def parts : Expr → List Expr
  | call name args => call name args :: partsAll args
  | binary op left right => binary op left right :: (left.parts ++ right.parts)
  | case subject branches otherwise =>
    case subject branches otherwise ::
      (partsOption subject ++ partsBranches branches ++ partsOption otherwise)
  | e => [e]
termination_by structural e => e

/-- The parts of a list of expressions. -/
def partsAll : List Expr → List Expr
  | [] => []
  | e :: rest => e.parts ++ partsAll rest
termination_by structural l => l

/-- The parts of branches, those of a condition before those of its result. -/
def partsBranches : List (Expr × Expr) → List Expr
  | [] => []
  | (condition, result) :: rest => condition.parts ++ result.parts ++ partsBranches rest
termination_by structural l => l

/-- The parts of an expression that may be missing. -/
def partsOption : Option Expr → List Expr
  | none => []
  | some e => e.parts
termination_by structural o => o

end

theorem partsAll_eq (l : List Expr) : partsAll l = l.flatMap parts := by
  induction l with
  | nil => rfl
  | cons e l ih => rw [partsAll, ih, List.flatMap_cons]

theorem partsBranches_eq (l : List (Expr × Expr)) :
    partsBranches l = l.flatMap fun b => b.1.parts ++ b.2.parts := by
  induction l with
  | nil => rfl
  | cons b l ih => rw [partsBranches, ih, List.flatMap_cons]

theorem partsOption_eq (o : Option Expr) : partsOption o = o.toList.flatMap parts := by
  cases o <;> simp [partsOption]

section Parts

variable {P : Expr → Prop}

theorem forall_mem_parts_call {name : String} {args : List Expr} :
    (∀ s ∈ (call name args).parts, P s) ↔
      P (call name args) ∧ ∀ e ∈ args, ∀ s ∈ e.parts, P s := by
  rw [parts, partsAll_eq, List.forall_mem_cons, List.forall_mem_flatMap]

theorem forall_mem_parts_binary {op : Operator} {left right : Expr} :
    (∀ s ∈ (binary op left right).parts, P s) ↔
      P (binary op left right) ∧ (∀ s ∈ left.parts, P s) ∧ ∀ s ∈ right.parts, P s := by
  rw [parts, List.forall_mem_cons, List.forall_mem_append]

theorem forall_mem_parts_case {subject : Option Expr} {branches : List (Expr × Expr)}
    {otherwise : Option Expr} :
    (∀ s ∈ (case subject branches otherwise).parts, P s) ↔
      P (case subject branches otherwise) ∧ (∀ e ∈ subject, ∀ s ∈ e.parts, P s) ∧
        (∀ b ∈ branches, (∀ s ∈ b.1.parts, P s) ∧ ∀ s ∈ b.2.parts, P s) ∧
        ∀ e ∈ otherwise, ∀ s ∈ e.parts, P s := by
  simp only [parts, partsBranches_eq, partsOption_eq, List.forall_mem_cons,
    List.forall_mem_append, List.forall_mem_flatMap, Option.mem_toList, Option.mem_def, and_assoc]

end Parts

mutual

/-- The expression with `f` applied to each part that has no parts of its own. -/
def mapLeaves (f : Expr → Expr) : Expr → Expr
  | call name args => call name (mapLeavesAll f args)
  | binary op left right => binary op (left.mapLeaves f) (right.mapLeaves f)
  | case subject branches otherwise =>
    case (mapLeavesOption f subject) (mapLeavesBranches f branches) (mapLeavesOption f otherwise)
  | e => f e
termination_by structural e => e

/-- A list of expressions with `f` applied to their leaves. -/
def mapLeavesAll (f : Expr → Expr) : List Expr → List Expr
  | [] => []
  | e :: rest => e.mapLeaves f :: mapLeavesAll f rest
termination_by structural l => l

/-- Branches with `f` applied to their leaves. -/
def mapLeavesBranches (f : Expr → Expr) : List (Expr × Expr) → List (Expr × Expr)
  | [] => []
  | (condition, result) :: rest =>
    (condition.mapLeaves f, result.mapLeaves f) :: mapLeavesBranches f rest
termination_by structural l => l

/-- An expression that may be missing, with `f` applied to its leaves. -/
def mapLeavesOption (f : Expr → Expr) : Option Expr → Option Expr
  | none => none
  | some e => some (e.mapLeaves f)
termination_by structural o => o

end

section Leaves

variable (f : Expr → Expr)

theorem mapLeavesAll_eq (l : List Expr) : mapLeavesAll f l = l.map (mapLeaves f) := by
  induction l with
  | nil => rfl
  | cons e l ih => rw [mapLeavesAll, ih, List.map_cons]

theorem mapLeavesBranches_eq (l : List (Expr × Expr)) :
    mapLeavesBranches f l = l.map fun b => (b.1.mapLeaves f, b.2.mapLeaves f) := by
  induction l with
  | nil => rfl
  | cons b l ih => rw [mapLeavesBranches, ih, List.map_cons]

theorem mapLeavesOption_eq (o : Option Expr) :
    mapLeavesOption f o = o.map (mapLeaves f) := by
  cases o <;> rfl

variable {f}

/-- Where `f` changes no part, it changes nothing. -/
theorem mapLeaves_eq_self {e : Expr} (h : ∀ s ∈ e.parts, f s = s) : e.mapLeaves f = e := by
  induction e using induction with
  | call name args ih =>
      obtain ⟨-, hargs⟩ := forall_mem_parts_call.1 h
      have hsame := List.map_congr_left fun e he => ih e he (hargs e he)
      rw [mapLeaves, mapLeavesAll_eq, hsame, List.map_id']
  | binary op left right ihl ihr =>
      obtain ⟨-, hleft, hright⟩ := forall_mem_parts_binary.1 h
      rw [mapLeaves, ihl hleft, ihr hright]
  | case subject branches otherwise ihs ihb iho =>
      obtain ⟨-, hsubject, hbranches, hotherwise⟩ := forall_mem_parts_case.1 h
      have hs := Option.map_congr fun e he => ihs e he (hsubject e he)
      have hb : (branches.map fun b => (b.1.mapLeaves f, b.2.mapLeaves f)) = branches.map id :=
        List.map_congr_left fun b hb =>
          Prod.ext ((ihb b hb).1 (hbranches b hb).1) ((ihb b hb).2 (hbranches b hb).2)
      have ho := Option.map_congr fun e he => iho e he (hotherwise e he)
      rw [mapLeaves, mapLeavesOption_eq, mapLeavesBranches_eq, mapLeavesOption_eq, hs, hb, ho,
        Option.map_id_fun', List.map_id]
      rfl
  | _ => exact h _ List.mem_cons_self

end Leaves

end TableQuery.Expr
