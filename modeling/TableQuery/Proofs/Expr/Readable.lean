import TableQuery.Expr.Printer
import TableQuery.Proofs.Grammar.Soundness
import TableQuery.Proofs.Text.LetterCase
import TableQuery.Proofs.Token.Cutting

/-!
# Expressions whose text can be read back

The parser returns expressions of a certain form: a numeral says its value, the name of a
function is in uppercase, a star only stands as the argument of `COUNT(*)` and a choice has a
branch. The text of a call shows the name of the function as it is, so it can only be read back
where that is a bare name.
-/

namespace TableQuery

namespace Expr

mutual

/-- The names of the functions that are called. -/
def callNames : Expr → List String
  | call name args => name :: callNamesAll args
  | aggregate _ argument _ => argument.callNames
  | binary _ left right => left.callNames ++ right.callNames
  | case subject branches otherwise =>
    callNamesOption subject ++ callNamesBranches branches ++ callNamesOption otherwise
  | _ => []
termination_by structural e => e

/-- The names of the functions called in a list of expressions. -/
def callNamesAll : List Expr → List String
  | [] => []
  | e :: rest => e.callNames ++ callNamesAll rest
termination_by structural l => l

/-- The names of the functions called in branches. -/
def callNamesBranches : List (Expr × Expr) → List String
  | [] => []
  | (condition, result) :: rest =>
    condition.callNames ++ result.callNames ++ callNamesBranches rest
termination_by structural l => l

/-- The names of the functions called in an expression that may be missing. -/
def callNamesOption : Option Expr → List String
  | none => []
  | some e => e.callNames
termination_by structural o => o

end

theorem callNamesAll_eq (l : List Expr) : callNamesAll l = l.flatMap callNames := by
  induction l with
  | nil => rfl
  | cons e l ih => rw [callNamesAll, ih, List.flatMap_cons]

theorem callNamesBranches_eq (l : List (Expr × Expr)) :
    callNamesBranches l = l.flatMap fun b => b.1.callNames ++ b.2.callNames := by
  induction l with
  | nil => rfl
  | cons b l ih => rw [callNamesBranches, ih, List.flatMap_cons]

theorem callNamesOption_eq (o : Option Expr) : callNamesOption o = o.toList.flatMap callNames := by
  cases o <;> simp [callNamesOption]

/-- The expressions whose text can be read back. -/
inductive Readable : Expr → Prop where
  | null : Readable .null
  | bool (b : Bool) : Readable (.bool b)
  | number {s : List Char} (h : Token.Numeral s) :
      Readable (.number (Number.ofDecimalText s) (String.ofList s))
  | string (s : String) : Readable (.string s)
  | identifier (name : String) : Readable (.identifier name)
  | countRows : Readable (.call "COUNT" [.star])
  | call {name : String} {args : List Expr} (hbare : isBareName name = true)
      (hupper : Text.asciiUpper name = name) (h : ∀ e ∈ args, Readable e) :
      Readable (.call name args)
  | binary (op : Operator) {left right : Expr} (hleft : Readable left) (hright : Readable right) :
      Readable (.binary op left right)
  | case {subject : Option Expr} {branches : List (Expr × Expr)} {otherwise : Option Expr}
      (hne : branches ≠ []) (hsubject : ∀ e ∈ subject, Readable e)
      (hcondition : ∀ b ∈ branches, Readable b.1) (hresult : ∀ b ∈ branches, Readable b.2)
      (hotherwise : ∀ e ∈ otherwise, Readable e) : Readable (.case subject branches otherwise)

end Expr

namespace OperatorTree

theorem callNames_toExpr (t : OperatorTree Expr) :
    t.toExpr.callNames = t.inorder.items.flatMap Expr.callNames := by
  induction t with
  | leaf a => simp [toExpr, inorder, Chain.items]
  | node op left right ihl ihr =>
      rw [toExpr, Expr.callNames, ihl, ihr, items_inorder_node, List.flatMap_append]

theorem readable_toExpr {t : OperatorTree Expr} (h : ∀ e ∈ t.inorder.items, e.Readable) :
    t.toExpr.Readable := by
  induction t with
  | leaf a => exact h a List.mem_cons_self
  | node op left right ihl ihr =>
      rw [items_inorder_node, List.forall_mem_append] at h
      exact .binary op (ihl h.1) (ihr h.2)

end OperatorTree

namespace Grammar

open TableQuery.Expr

/-- What the parser returns can be read back when the names of functions are bare. -/
theorem Derives.readable {category : Category} {p : Phrase Expr} (h : Derives category p)
    (htokens : Token.NumeralsRead p.tokens)
    (hnames : ∀ name ∈ p.value.callNames, isBareName name = true) : p.value.Readable := by
  induction h with
  | null t => exact .null
  | bool b t => exact .bool b
  | number t =>
      obtain ⟨s, hs, ht⟩ := htokens t.1 List.mem_cons_self t.2
      rw [ht]
      exact .number hs
  | string t => exact .string _
  | column t => exact .identifier _
  | parentheses o c h ih => exact ih (htokens.mono (by simp +contextual)) hnames
  | countRows t o star c h =>
      rw [ofCall, h]
      exact .countRows
  | callNothing t o c =>
      rw [ofCall] at hnames ⊢
      exact .call (hnames _ List.mem_cons_self) (Text.asciiUpper_asciiUpper _) (by simp)
  | @call t o c args h ih =>
      simp only [ofCall, callNames, callNamesAll_eq, List.forall_mem_cons] at hnames
      refine .call hnames.1 (Text.asciiUpper_asciiUpper _) (List.forall_mem_map.mpr fun p hp => ?_)
      refine ih p hp (htokens.mono fun t ht => ?_) fun name hname => ?_
      · simp [Chain.phrase, Phrase.mem_chainTokens hp ht]
      · exact hnames.2 name (List.mem_flatMap.mpr ⟨_, List.mem_map_of_mem hp, hname⟩)
  | @case start finish subject branches otherwise hsubject hcondition hresult hotherwise ihs ihc
      ihr iho =>
      simp only [callNames, callNamesOption_eq, callNamesBranches_eq, List.forall_mem_append,
        List.forall_mem_flatMap] at hnames
      obtain ⟨⟨hsubNames, hbranchNames⟩, hothNames⟩ := hnames
      have hbranchTokens : ∀ b ∈ branches.items, ∀ t ∈ b.phrase.tokens,
          t ∈ (branches.map id Branch.phrase).phrase.tokens := fun b hb t ht =>
        Phrase.mem_chainTokens
          (Chain.items_map id Branch.phrase branches ▸ List.mem_map_of_mem hb) ht
      have hvalue : (branches.map id Branch.phrase).phrase.value =
          branches.items.map fun b => b.phrase.value := by
        rw [Chain.phrase, Chain.items_map, List.map_map]
        rfl
      rw [hvalue, List.forall_mem_map] at hbranchNames
      refine .case (by simp [hvalue, Chain.items]) (fun e he => ?_) ?_ ?_ (fun e he => ?_)
      · obtain ⟨p, rfl, rfl⟩ := Phrase.exists_of_mem_option he
        refine ihs p rfl (htokens.mono fun t ht => ?_) fun name hname => ?_
        · simp [Phrase.option, ht]
        · exact hsubNames _ (Option.mem_toList.mpr he) name hname
      · rw [hvalue]
        refine List.forall_mem_map.mpr fun b hb => ihc b hb (htokens.mono fun t ht => ?_) ?_
        · have := hbranchTokens b hb t (by simp [Branch.phrase, ht])
          simp [this]
        · exact fun name hname => (hbranchNames b hb).1 name hname
      · rw [hvalue]
        refine List.forall_mem_map.mpr fun b hb => ihr b hb (htokens.mono fun t ht => ?_) ?_
        · have := hbranchTokens b hb t (by simp [Branch.phrase, ht])
          simp [this]
        · exact fun name hname => (hbranchNames b hb).2 name hname
      · obtain ⟨l, rfl, rfl⟩ := Phrase.exists_of_mem_clause he
        refine iho l rfl (htokens.mono fun t ht => ?_) fun name hname => ?_
        · simp [Phrase.clause, ht]
        · exact hothNames _ (Option.mem_toList.mpr he) name hname
  | @chain c h ih =>
      refine OperatorTree.readable_toExpr ?_
      simp only [Chain.toExpr, OperatorTree.callNames_toExpr] at hnames
      rw [Chain.inorder_arrange, Chain.items_map] at hnames ⊢
      refine List.forall_mem_map.mpr fun p hp => ?_
      refine ih p hp (htokens.mono fun t ht => ?_) fun name hname => ?_
      · exact Phrase.mem_chainTokens hp ht
      · exact hnames name (List.mem_flatMap.mpr ⟨_, List.mem_map_of_mem hp, hname⟩)

end Grammar

end TableQuery
