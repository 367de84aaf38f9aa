import Mathlib.Order.Compare
import TableQuery.Sorting

/-!
# The order of values

Sorting compares values, and lists of values under terms. Both comparisons are total preorders: a
value ties with itself, exchanging two values turns their comparison round, and what comes no
later is passed on. Lists of values are compared as long as they have one value for each term.
-/

namespace TableQuery

open Std

/-- A comparison of images is as good as the comparison it is made from. -/
theorem transCmp_comap {α β : Type} {cmp : β → β → Ordering} (f : α → β) [TransCmp cmp] :
    TransCmp fun a b => cmp (f a) (f b) where
  eq_swap := OrientedCmp.eq_swap
  isLE_trans := TransCmp.isLE_trans

instance : TransCmp Number.totalCompare :=
  inferInstanceAs (TransCmp (compareOn Number.orderKey))

namespace Value

theorem SortKey.compare_swap (k l : SortKey) : k.compare l = (l.compare k).swap := by
  cases k with
  | null => cases l <;> rfl
  | number m =>
      cases l with
      | number n => exact @OrientedCmp.eq_swap _ Number.totalCompare _ m n
      | _ => rfl
  | text s =>
      cases l with
      | text t => exact @OrientedCmp.eq_swap _ Ord.compare _ s t
      | _ => rfl

instance : OrientedCmp SortKey.compare := ⟨SortKey.compare_swap _ _⟩

instance : TransCmp SortKey.compare where
  isLE_trans {k l m} hkl hlm := by
    cases k with
    | null => cases m <;> rfl
    | number x =>
        cases l with
        | null => cases hkl
        | text s =>
            cases m with
            | text t => rfl
            | _ => cases hlm
        | number y =>
            cases m with
            | null => cases hlm
            | text t => rfl
            | number z => exact @TransCmp.isLE_trans _ Number.totalCompare _ x y z hkl hlm
    | text s =>
        cases l with
        | text t =>
            cases m with
            | text u => exact @TransCmp.isLE_trans _ Ord.compare _ s t u hkl hlm
            | _ => cases hlm
        | _ => cases hkl

instance : TransCmp sortCompare := transCmp_comap sortKey

end Value

namespace Sorting

theorem transCmp_direction (d : Direction) :
    TransCmp fun v w : Value => d.apply (v.sortCompare w) := by
  cases d with
  | ascending => exact inferInstanceAs (TransCmp Value.sortCompare)
  | descending =>
      have hswap : (fun v w : Value => (v.sortCompare w).swap) = fun v w => w.sortCompare v :=
        funext₂ fun v w => OrientedCmp.eq_swap.symm
      change TransCmp fun v w : Value => (v.sortCompare w).swap
      rw [hswap]
      exact TransCmp.opposite

theorem compareKeys_swap (terms : List OrderingTerm) (v w : List Value) :
    compareKeys terms v w = (compareKeys terms w v).swap := by
  induction terms generalizing v w with
  | nil => rfl
  | cons t terms ih =>
      cases v with
      | nil => cases w <;> rfl
      | cons x v =>
          cases w with
          | nil => rfl
          | cons y w =>
              have hfirst := (transCmp_direction t.direction).eq_swap (a := x) (b := y)
              simp only [compareKeys, Ordering.swap_then, ← ih v w, ← hfirst]

instance (terms : List OrderingTerm) : OrientedCmp (compareKeys terms) :=
  ⟨compareKeys_swap terms _ _⟩

/-- One value for each term. -/
abbrev Keys (terms : List OrderingTerm) : Type := { v : List Value // v.length = terms.length }

namespace Keys

variable {t : OrderingTerm} {terms : List OrderingTerm}

/-- The value for the first term. -/
def first (v : Keys (t :: terms)) : Value := v.1.headD .null

/-- The values for the other terms. -/
def others (v : Keys (t :: terms)) : Keys terms := ⟨v.1.tail, by simp [v.2]⟩

theorem compareKeys_eq (v w : Keys (t :: terms)) :
    compareKeys (t :: terms) v.1 w.1 =
      (t.direction.apply (v.first.sortCompare w.first)).then
        (compareKeys terms v.others.1 w.others.1) := by
  obtain ⟨v, hv⟩ := v
  obtain ⟨w, hw⟩ := w
  cases v with
  | nil => cases hv
  | cons x v =>
      cases w with
      | nil => cases hw
      | cons y w => rfl

/-- The first term on which two lists of values differ decides. -/
theorem transCmp_compareKeys (terms : List OrderingTerm) :
    TransCmp fun v w : Keys terms => compareKeys terms v.1 w.1 := by
  induction terms with
  | nil =>
      exact { eq_swap := rfl, isLE_trans := fun _ _ => rfl }
  | cons t terms ih =>
      have hfirst := @transCmp_comap (Keys (t :: terms)) _ _ first (transCmp_direction t.direction)
      have hothers := @transCmp_comap (Keys (t :: terms)) _ _ others ih
      have hlex : TransCmp (compareLex
          (fun v w : Keys (t :: terms) => t.direction.apply (v.first.sortCompare w.first))
          fun v w => compareKeys terms v.others.1 w.others.1) := inferInstance
      have heq : (fun v w : Keys (t :: terms) => compareKeys (t :: terms) v.1 w.1) = _ :=
        funext₂ compareKeys_eq
      rw [heq]
      exact hlex

end Keys

end Sorting

/-- A comparison under which any two members are comparable: a member ties with itself, exchanging
two members turns their comparison round, and what comes no later is passed on, strictly where one
of the two steps is strict. -/
structure TotalPreorder {α : Type} (cmp : α → α → Ordering) : Prop where
  compare_self (a : α) : cmp a a = .eq
  eq_swap (a b : α) : cmp a b = (cmp b a).swap
  isLE_trans {a b c : α} (hab : (cmp a b).isLE) (hbc : (cmp b c).isLE) : (cmp a c).isLE
  lt_of_lt_of_isLE {a b c : α} (hab : cmp a b = .lt) (hbc : (cmp b c).isLE) : cmp a c = .lt
  lt_of_isLE_of_lt {a b c : α} (hab : (cmp a b).isLE) (hbc : cmp b c = .lt) : cmp a c = .lt

theorem TotalPreorder.of_transCmp {α : Type} (cmp : α → α → Ordering) [TransCmp cmp] :
    TotalPreorder cmp where
  compare_self _ := ReflCmp.compare_self
  eq_swap _ _ := OrientedCmp.eq_swap
  isLE_trans := TransCmp.isLE_trans
  lt_of_lt_of_isLE := TransCmp.lt_of_lt_of_isLE
  lt_of_isLE_of_lt := TransCmp.lt_of_isLE_of_lt

/-- Sorting compares values by a total preorder, and under any terms also lists with one value for
each term. -/
theorem Sorting.compares_by_preorders :
    TotalPreorder Value.sortCompare ∧
      ∀ terms : List OrderingTerm,
        TotalPreorder fun v w : Sorting.Keys terms => Sorting.compareKeys terms v.1 w.1 := by
  refine ⟨.of_transCmp _, fun terms => ?_⟩
  have hkeys := Sorting.Keys.transCmp_compareKeys terms
  exact .of_transCmp _

/-- A blank text and zero tie, as do `0x10` and 16; a text that is no numeral comes behind them, and
the empty text, which is NULL, before. -/
example :
    Value.sortCompare (.text " ") (.number (Number.ofNat 0)) = .eq ∧
      Value.sortCompare (.text "0x10") (.number (Number.ofNat 16)) = .eq ∧
      Value.sortCompare (.number (Number.ofNat 16)) (.text "1a") = .lt ∧
      Value.sortCompare (.text "") (.bool false) = .lt := by
  decide +kernel

end TableQuery
