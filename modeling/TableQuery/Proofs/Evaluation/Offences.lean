import TableQuery.Proofs.Evaluation.Transparency
import TableQuery.Proofs.Expr.Marking

/-!
# What an evaluation can fail at

Two things in an expression offend: a column that the row does not have, and a function that does
not exist. Without them an evaluation succeeds, whatever the values are. Where there is no choice
between branches every part is evaluated, from left to right and before the part it belongs to, and
the first one that offends on this way gives the error. Patterns are no offence here: each of them
compiles.
-/

namespace TableQuery

namespace Expr

mutual

/-- The expression and the ones in it, from left to right, each behind what it is made of. -/
def postorder : Expr → List Expr
  | call name args => postorderAll args ++ [call name args]
  | binary op left right => left.postorder ++ right.postorder ++ [binary op left right]
  | case subject branches otherwise =>
    postorderOption subject ++ postorderBranches branches ++ postorderOption otherwise ++
      [case subject branches otherwise]
  | e => [e]
termination_by structural e => e

/-- The parts of a list of expressions, in this order. -/
def postorderAll : List Expr → List Expr
  | [] => []
  | e :: rest => e.postorder ++ postorderAll rest
termination_by structural l => l

/-- The parts of branches, in this order. -/
def postorderBranches : List (Expr × Expr) → List Expr
  | [] => []
  | (condition, result) :: rest =>
    condition.postorder ++ result.postorder ++ postorderBranches rest
termination_by structural l => l

/-- The parts of an expression that may be missing, in this order. -/
def postorderOption : Option Expr → List Expr
  | none => []
  | some e => e.postorder
termination_by structural o => o

end

/-- The error of a column that the row does not have, or of a function that does not exist. -/
def offence? (row : Row) : Expr → Option Error
  | identifier name =>
    if name ∈ row.columns.keys then none else some (.columnNotFound (nameText name))
  | call name _ =>
    if Text.asciiUpper name ∈ ScalarFunction.names.map Prod.fst then none
    else some (.unknownFunction name)
  | _ => none

/-- The row has every column of the expression, and every function exists, in whatever case its
name is written. -/
structure Resolves (row : Row) (e : Expr) : Prop where
  columns : ∀ name, identifier name ∈ e.postorder → name ∈ row.columns.keys
  functions : ∀ name args, call name args ∈ e.postorder →
    Text.asciiUpper name ∈ ScalarFunction.names.map Prod.fst

/-- Whether the expression chooses between branches. -/
def isChoice : Expr → Bool
  | case .. => true
  | _ => false

variable {row : Row} {e : Expr}

theorem resolves_iff : e.Resolves row ↔ ∀ s ∈ e.postorder, s.offence? row = none := by
  constructor
  · rintro ⟨hcolumns, hfunctions⟩ s hs
    cases s with
    | identifier name => exact if_pos (hcolumns name hs)
    | call name args => exact if_pos (hfunctions name args hs)
    | _ => rfl
  · intro h
    refine ⟨fun name hname => ?_, fun name args hcall => ?_⟩
    · simpa [offence?] using h _ hname
    · simpa [offence?] using h _ hcall

theorem postorderAll_eq (l : List Expr) : postorderAll l = l.flatMap postorder := by
  induction l with
  | nil => rfl
  | cons e l ih => rw [postorderAll, ih, List.flatMap_cons]

theorem postorderBranches_eq (l : List (Expr × Expr)) :
    postorderBranches l = l.flatMap fun b => b.1.postorder ++ b.2.postorder := by
  induction l with
  | nil => rfl
  | cons b l ih => rw [postorderBranches, ih, List.flatMap_cons]

theorem postorderOption_eq (o : Option Expr) : postorderOption o = o.toList.flatMap postorder := by
  cases o <;> simp [postorderOption]

end Expr

namespace Evaluation

variable {α β : Type}

/-- Whatever patterns are known, the evaluation fails with the given error; without one it
succeeds. -/
def Meets (m : Evaluation α) : Option Error → Prop
  | some e => ∀ known, (m known).1 = .error e
  | none => ∀ known, ∃ a, (m known).1 = .ok a

namespace Meets

theorem pure (a : α) : (Pure.pure a : Evaluation α).Meets none := fun _ => ⟨a, rfl⟩

/-- Of two evaluations in sequence, the later one counts where the earlier one succeeds. -/
theorem bind {o o' : Option Error} {m : Evaluation α} {f : α → Evaluation β} (hm : m.Meets o)
    (hf : ∀ a, (f a).Meets o') : (m >>= f).Meets (o.or o') := by
  cases o with
  | some e => exact fun known => congrArg Prod.fst (bind_of_error (hm known))
  | none =>
      have hlater : ∀ known, ∃ a later, (m >>= f) known = f a later := fun known => by
        obtain ⟨a, ha⟩ := hm known
        exact ⟨a, _, bind_of_ok ha⟩
      cases o' with
      | some e =>
          intro known
          obtain ⟨a, later, h⟩ := hlater known
          exact (congrArg Prod.fst h).trans (hf a later)
      | none =>
          intro known
          obtain ⟨a, later, h⟩ := hlater known
          rw [h]
          exact hf a later

theorem map {o : Option Error} {m : Evaluation α} (hm : m.Meets o) (g : α → β) :
    (g <$> m).Meets o := by
  have hbind := hm.bind fun a => pure (g a)
  rwa [Option.or_none, ← map_eq_bind] at hbind

theorem ofOption (e : Error) (o : Option α) :
    (Evaluation.ofOption e o).Meets (if o.isSome then none else some e) := by
  cases o with
  | some a => exact pure a
  | none => exact fun _ => rfl

end Meets

end Evaluation

theorem Operator.apply_meets (op : Operator) (left right : Value) :
    (op.apply left right).Meets none := by
  cases op with
  | like =>
      rw [apply_like]
      exact fun _ => ⟨_, rfl⟩
  | _ => exact fun _ => ⟨_, rfl⟩

theorem ScalarFunction.isSome_ofName?_iff (name : String) :
    (ofName? name).isSome ↔ Text.asciiUpper name ∈ names.map Prod.fst := by
  rw [ofName?, Option.isSome_iff_ne_none, ne_eq, OrderedMap.lookup_eq_none_iff, not_not]

theorem Row.isSome_get?_iff (row : Row) (name : String) :
    (row.get? name).isSome ↔ name ∈ row.columns.keys := by
  rw [get?, Option.isSome_iff_ne_none, ne_eq, OrderedMap.get?_eq_none_iff, not_not]

namespace Expr

open Evaluation

variable {row : Row} {l l' : List Expr} {e : Expr}

/-- Either all of the expressions are evaluated, whatever their values are, or none of them
offends. -/
def Steady (row : Row) (l : List Expr) : Prop :=
  (∀ s ∈ l, s.isChoice = false) ∨ ∀ s ∈ l, s.offence? row = none

theorem Steady.mono (h : Steady row l') (hl : l ⊆ l') : Steady row l :=
  h.imp (fun h s hs => h s (hl hs)) fun h s hs => h s (hl hs)

theorem evalAll_meets
    (h : ∀ e ∈ l, (e.eval row).Meets (e.postorder.findSome? (offence? row))) :
    (evalAll row l).Meets ((postorderAll l).findSome? (offence? row)) := by
  induction l with
  | nil => exact .pure []
  | cons e l ih =>
      obtain ⟨he, hl⟩ := List.forall_mem_cons.1 h
      have hall := he.bind fun v => (ih hl).bind fun values => .pure (v :: values)
      rwa [Option.or_none, ← List.findSome?_append] at hall

theorem evalOption_meets {o : Option Expr} (h : ∀ e ∈ o, (e.eval row).Meets none) :
    (evalOption row o).Meets none := by
  cases o with
  | none => exact .pure none
  | some e => exact (h e rfl).map some

theorem evalBranches_meets (subject : Option Value) {l : List (Expr × Expr)}
    (h : ∀ b ∈ l, (b.1.eval row).Meets none ∧ (b.2.eval row).Meets none) :
    (evalBranches row subject l).Meets none := by
  induction l with
  | nil => exact .pure none
  | cons b l ih =>
      obtain ⟨⟨hcondition, hresult⟩, hl⟩ := List.forall_mem_cons.1 h
      refine hcondition.bind fun v => ?_
      split
      · exact hresult.map some
      · exact ih hl

theorem eval_identifier_meets (name : String) :
    ((identifier name).eval row).Meets (offence? row (identifier name)) := by
  have h := Meets.ofOption (.columnNotFound (nameText name)) (row.get? name)
  rwa [if_congr (row.isSome_get?_iff name) rfl rfl] at h

theorem eval_call_meets {name : String} {args : List Expr} {o : Option Error}
    (hargs : (evalAll row args).Meets o) :
    ((call name args).eval row).Meets (o.or (offence? row (call name args))) := by
  refine hargs.bind fun values => ?_
  have h := Meets.ofOption (.unknownFunction name)
    ((ScalarFunction.ofName? name).map (·.apply values))
  rwa [Option.isSome_map, if_congr (ScalarFunction.isSome_ofName?_iff name) rfl rfl] at h

theorem eval_case_meets {subject : Option Expr} {branches : List (Expr × Expr)}
    {otherwise : Option Expr} (hs : ∀ e ∈ subject, (e.eval row).Meets none)
    (hb : ∀ b ∈ branches, (b.1.eval row).Meets none ∧ (b.2.eval row).Meets none)
    (ho : ∀ e ∈ otherwise, (e.eval row).Meets none) :
    ((case subject branches otherwise).eval row).Meets none := by
  refine (evalOption_meets hs).bind fun v => (evalBranches_meets v hb).bind fun taken => ?_
  cases taken with
  | some w => exact .pure w
  | none => exact (evalOption_meets ho).bind fun w => .pure (w.getD .null)

/-- Parts without an offence meet none. -/
theorem eval_meets_none (hquiet : ∀ s ∈ e.postorder, s.offence? row = none)
    (h : Steady row e.postorder → (e.eval row).Meets (e.postorder.findSome? (offence? row))) :
    (e.eval row).Meets none := by
  have hmeets := h (.inr hquiet)
  rwa [List.findSome?_eq_none_iff.2 hquiet] at hmeets

/-- An expression without aggregates meets the first offence among its parts, as long as it makes
no choice or nothing in it offends. -/
theorem eval_meets (hnodes : e.nodes = []) (h : Steady row e.postorder) :
    (e.eval row).Meets (e.postorder.findSome? (offence? row)) := by
  induction e using induction with
  | identifier name => exact List.findSome?_singleton ▸ eval_identifier_meets name
  | call name args ih =>
      rw [nodes_call, List.flatMap_eq_nil_iff] at hnodes
      have hargs : ∀ e ∈ args, (e.eval row).Meets (e.postorder.findSome? (offence? row)) := by
        refine fun e he => ih e he (hnodes e he) (h.mono fun s hs => ?_)
        rw [postorder, postorderAll_eq]
        exact List.mem_append_left _ (List.mem_flatMap.2 ⟨e, he, hs⟩)
      rw [postorder, List.findSome?_append, List.findSome?_singleton]
      exact eval_call_meets (evalAll_meets hargs)
  | aggregate function argument id => cases hnodes
  | binary op left right ihl ihr =>
      rw [nodes_binary, List.append_eq_nil_iff] at hnodes
      have hl := ihl hnodes.1 (h.mono fun s hs => by simp [postorder, hs])
      have hr := ihr hnodes.2 (h.mono fun s hs => by simp [postorder, hs])
      have hboth := hl.bind fun v => hr.bind fun w => op.apply_meets v w
      rw [postorder, List.findSome?_append, List.findSome?_append, Option.or_assoc]
      exact hboth
  | case subject branches otherwise ihs ihb iho =>
      -- a branch may be left out, so the parts say nothing unless none of them offends
      have hquiet : ∀ s ∈ (case subject branches otherwise).postorder, s.offence? row = none := by
        refine h.resolve_left fun hchoice => ?_
        exact Bool.noConfusion (hchoice (case subject branches otherwise) (by simp [postorder]))
      rw [List.findSome?_eq_none_iff.2 hquiet]
      simp only [postorder, postorderOption_eq, postorderBranches_eq, List.forall_mem_append,
        List.forall_mem_flatMap, Option.mem_toList] at hquiet
      obtain ⟨⟨⟨hsubject, hbranches⟩, hotherwise⟩, -⟩ := hquiet
      simp only [nodes_case, List.append_eq_nil_iff, List.flatMap_eq_nil_iff,
        Option.mem_toList] at hnodes
      obtain ⟨⟨hns, hnb⟩, hno⟩ := hnodes
      exact eval_case_meets (fun e he => eval_meets_none (hsubject e he) (ihs e he (hns e he)))
        (fun b hb => ⟨eval_meets_none (hbranches b hb).1 ((ihb b hb).1 (hnb b hb).1),
          eval_meets_none (hbranches b hb).2 ((ihb b hb).2 (hnb b hb).2)⟩)
        fun e he => eval_meets_none (hotherwise e he) (iho e he (hno e he))
  | _ => exact .pure _

/-- An expression without aggregates has a value on a row that has all its columns, if all its
functions exist. Without a choice between branches it has none otherwise: the error is that of the
first part that offends. -/
theorem eval_meets_first_offence (hnodes : e.nodes = []) (row : Row) (known : Patterns) :
    (e.Resolves row → ∃ v, (e.eval row known).1 = .ok v) ∧
      ((∀ s ∈ e.postorder, s.isChoice = false) → ¬e.Resolves row →
        ∃ error, e.postorder.findSome? (offence? row) = some error ∧
          (e.eval row known).1 = .error error) := by
  constructor
  · intro hresolves
    have hquiet := resolves_iff.1 hresolves
    exact eval_meets_none hquiet (eval_meets hnodes) known
  · intro hchoice hresolves
    rw [resolves_iff, ← List.findSome?_eq_none_iff, ← ne_eq,
      Option.ne_none_iff_exists'] at hresolves
    obtain ⟨error, herror⟩ := hresolves
    have hmeets := @eval_meets row e hnodes (.inl hchoice)
    rw [herror] at hmeets
    exact ⟨error, herror, hmeets known⟩

/-- Both operands of AND are evaluated, an argument comes before its function, and the first
offence counts. -/
theorem eval_meets_first_offence_behind_false :
    let e := binary .and (bool false) (call "SHOUT" [identifier "first name", call "LEN" []])
    e.nodes = [] ∧ (∀ s ∈ e.postorder, s.isChoice = false) ∧ ¬e.Resolves {} ∧
      (e.eval {} ∅).1 = .error (.columnNotFound "`first name`") := by
  intro e
  have hnodes : e.nodes = [] := rfl
  have hchoice : ∀ s ∈ e.postorder, s.isChoice = false := by decide
  have hresolves : ¬e.Resolves {} := fun h =>
    absurd (h.columns "first name" (by simp [e, postorder, postorderAll])) (by simp)
  have hfirst : e.postorder.findSome? (offence? {}) =
      some (.columnNotFound "`first name`") := by decide +kernel
  obtain ⟨error, herror, hfails⟩ :=
    (eval_meets_first_offence hnodes {} ∅).2 hchoice hresolves
  obtain rfl := Option.some.inj (hfirst.symm.trans herror)
  exact ⟨hnodes, hchoice, hresolves, hfails⟩

end Expr

end TableQuery
