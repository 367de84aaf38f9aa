import TableQuery.Evaluation
import TableQuery.Proofs.Number.Exact
import TableQuery.Sorting

/-!
# Sorting against comparing

Sorting compares numbers by their bits, the comparison operators by their values. A larger value has
larger bits, so the two agree on all values that read as numbers, other than on a zero and a
negative zero: these are equal to the operators, but sorting puts negative zero first.
-/

namespace TableQuery

namespace Number

variable {x y : Number}

/-- One of the numbers is zero and the other negative zero. -/
def OppositeZeros (x y : Number) : Prop :=
  x = negativeZero ∧ y = ofNat 0 ∨ x = ofNat 0 ∧ y = negativeZero

instance (x y : Number) : Decidable (x.OppositeZeros y) :=
  inferInstanceAs (Decidable (x = negativeZero ∧ y = ofNat 0 ∨ x = ofNat 0 ∧ y = negativeZero))

/-- Numbers of the same value are equal, unless one is zero and the other negative zero. -/
theorem eq_or_oppositeZeros_of_value_eq (h : x.value = y.value) : x = y ∨ x.OppositeZeros y := by
  rcases eq_or_zero_of_value_eq h with heq | ⟨hx, hy⟩
  · exact .inl heq
  rcases eq_zero_or_of_magnitude_eq_zero hx with rfl | rfl
  · exact (eq_zero_or_of_magnitude_eq_zero hy).imp Eq.symm fun hy => .inr ⟨rfl, hy⟩
  · exact (eq_zero_or_of_magnitude_eq_zero hy).symm.imp Eq.symm fun hy => .inl ⟨rfl, hy⟩

theorem units_lt_units_iff : x.units < y.units ↔ x.magnitude < y.magnitude :=
  unitsOfMagnitude_strictMono.lt_iff_lt

/-- A larger value stands later in the total order. -/
theorem orderKey_lt_of_value_lt (h : x.value < y.value) : x.orderKey < y.orderKey := by
  have hxy := units_lt_units_iff (x := x) (y := y)
  have hyx := units_lt_units_iff (x := y) (y := x)
  rw [value, value] at h
  rw [orderKey, orderKey]
  cases hxsign : x.isNegative with
  | true =>
      cases hysign : y.isNegative with
      | true =>
          simp only [hxsign, hysign, if_true] at h ⊢
          omega
      | false =>
          -- whatever the values are, the bits of a negative number come first
          simp only [if_true, Bool.false_eq_true, if_false]
          omega
  | false =>
      cases hysign : y.isNegative with
      | true =>
          simp only [hxsign, hysign, if_true, Bool.false_eq_true, if_false] at h
          omega
      | false =>
          simp only [hxsign, hysign, Bool.false_eq_true, if_false] at h ⊢
          omega

/-- The total order is the order of the values, but for opposite zeros. -/
theorem totalCompare_eq_iff :
    x.totalCompare y = compare x.value y.value ↔ ¬x.OppositeZeros y := by
  constructor
  · rintro h (⟨rfl, rfl⟩ | ⟨rfl, rfl⟩)
    · exact absurd h (by decide +kernel)
    · exact absurd h (by decide +kernel)
  · intro h
    rw [totalCompare]
    rcases lt_trichotomy x.value y.value with hlt | heq | hgt
    · rw [compare_lt_iff_lt.2 hlt, compare_lt_iff_lt.2 (orderKey_lt_of_value_lt hlt)]
    · obtain rfl := (eq_or_oppositeZeros_of_value_eq heq).resolve_right h
      rw [compare_eq_iff_eq.2 rfl, compare_eq_iff_eq.2 rfl]
    · rw [compare_gt_iff_gt.2 hgt, compare_gt_iff_gt.2 (orderKey_lt_of_value_lt hgt)]

end Number

namespace Operator

variable [PatternEngine]

/-- The operator holds of the values, whatever patterns are known. -/
def Holds (op : Operator) (v w : Value) : Prop :=
  ∀ known : Patterns, op.apply v w known = (.ok (.bool true), known)

/-- An operator that always gives a truth value holds just where this is TRUE. -/
theorem holds_iff {op : Operator} {v w : Value} {b : Bool}
    (h : ∀ known, op.apply v w known = (.ok (.bool b), known)) : op.Holds v w ↔ b = true := by
  constructor
  · intro hholds
    have hok := congrArg Prod.fst ((h ∅).symm.trans (hholds ∅))
    exact Value.bool.inj (Except.ok.inj hok)
  · rintro rfl
    exact h

end Operator

namespace Value

variable {v w : Value}

theorem sortCompare_eq_totalCompare (hv : v.isNull = false) (hw : w.isNull = false)
    (hv' : v.toNumber.isNan = false) (hw' : w.toNumber.isNan = false) :
    v.sortCompare w = v.toNumber.totalCompare w.toNumber := by
  rw [sortCompare, sortKey, sortKey, hv, hw, number?, number?, hv', hw']
  rfl

/-- Sorting places the values as the comparison operators do. -/
structure ComparesAlike [PatternEngine] (v w : Value) : Prop where
  lt : v.sortCompare w = .lt ↔ Operator.less.Holds v w
  gt : v.sortCompare w = .gt ↔ Operator.greater.Holds v w
  eq : v.sortCompare w = .eq ↔ Operator.atMost.Holds v w ∧ Operator.atLeast.Holds v w

theorem comparesAlike_iff_eq_compare [PatternEngine] (hv : v.toNumber.isNan = false)
    (hw : w.toNumber.isNan = false) :
    v.ComparesAlike w ↔ v.sortCompare w = compare v.toNumber.value w.toNumber.value := by
  have hless : Operator.less.Holds v w ↔ v.toNumber.value < w.toNumber.value :=
    (Operator.holds_iff fun _ => rfl).trans (Number.less_iff hv hw)
  have hgreater : Operator.greater.Holds v w ↔ w.toNumber.value < v.toNumber.value :=
    (Operator.holds_iff fun _ => rfl).trans (Number.less_iff hw hv)
  have hatMost : Operator.atMost.Holds v w ↔ v.toNumber.value ≤ w.toNumber.value :=
    (Operator.holds_iff fun _ => rfl).trans (Number.atMost_iff hv hw)
  have hatLeast : Operator.atLeast.Holds v w ↔ w.toNumber.value ≤ v.toNumber.value :=
    (Operator.holds_iff fun _ => rfl).trans (Number.atMost_iff hw hv)
  constructor
  · rintro ⟨hlt, hgt, heq⟩
    rw [hless] at hlt
    rw [hgreater] at hgt
    rw [hatMost, hatLeast, ← le_antisymm_iff] at heq
    rcases lt_trichotomy v.toNumber.value w.toNumber.value with h | h | h
    · rw [hlt.2 h, compare_lt_iff_lt.2 h]
    · rw [heq.2 h, compare_eq_iff_eq.2 h]
    · rw [hgt.2 h, compare_gt_iff_gt.2 h]
  · intro h
    refine ⟨?_, ?_, ?_⟩
    · rw [h, hless, compare_lt_iff_lt]
    · rw [h, hgreater, compare_gt_iff_gt]
    · rw [h, hatMost, hatLeast, compare_eq_iff_eq, le_antisymm_iff]

/-- Values that tie, and no others, are decided by the next term. -/
theorem compareKeys_cons_iff : (∀ t terms vs ws, Sorting.compareKeys (t :: terms) (v :: vs)
    (w :: ws) = Sorting.compareKeys terms vs ws) ↔ v.sortCompare w = .eq := by
  constructor
  · intro h
    have hone := h ⟨.null, .ascending⟩ [] [] []
    exact (Ordering.then_eq_eq.1 hone).1
  · intro h t terms vs ws
    rw [Sorting.compareKeys, h]
    cases t.direction <;> rfl

/-- Sorting places values that are not NULL and read as numbers as the comparison operators do, and
lets the next term decide between them if they are numerically equal, unless one of them is zero and
the other negative zero. -/
theorem comparesAlike_iff [PatternEngine] (hv : v.isNull = false) (hw : w.isNull = false)
    (hv' : v.toNumber.isNan = false) (hw' : w.toNumber.isNan = false) :
    (v.ComparesAlike w ↔ ¬v.toNumber.OppositeZeros w.toNumber) ∧
      (v.toNumber.NumericallyEqual w.toNumber →
        ((∀ t terms vs ws, Sorting.compareKeys (t :: terms) (v :: vs) (w :: ws) =
          Sorting.compareKeys terms vs ws) ↔ ¬v.toNumber.OppositeZeros w.toNumber)) := by
  have hsort : v.sortCompare w = compare v.toNumber.value w.toNumber.value ↔
      ¬v.toNumber.OppositeZeros w.toNumber := by
    rw [sortCompare_eq_totalCompare hv hw hv' hw']
    exact Number.totalCompare_eq_iff
  refine ⟨(comparesAlike_iff_eq_compare hv' hw').trans hsort, fun hequal => ?_⟩
  rw [compare_eq_iff_eq.2 hequal.2.2] at hsort
  exact compareKeys_cons_iff.trans hsort

theorem comparesAlike_iff_spellings :
    let v := Value.text "0x10"
    let w := Value.text " 16.0"
    v.ComparesAlike w ∧ ∀ t terms vs ws, Sorting.compareKeys (t :: terms) (v :: vs) (w :: ws) =
      Sorting.compareKeys terms vs ws := by
  intro v w
  have h := comparesAlike_iff (v := v) (w := w) (by decide) (by decide) (by decide +kernel)
    (by decide +kernel)
  exact ⟨h.1.2 (by decide +kernel), (h.2 (by decide +kernel)).2 (by decide +kernel)⟩

/-- Zero and negative zero tie for the operators, but sorting puts negative zero first, whatever the
next term says. -/
theorem sortCompare_negativeZero :
    let v := Value.text "-0"
    let w := Value.text "0"
    let terms : List OrderingTerm :=
      [⟨.identifier "a", .ascending⟩, ⟨.identifier "b", .ascending⟩]
    v.isNull = false ∧ w.isNull = false ∧ v.toNumber.isNan = false ∧ w.toNumber.isNan = false ∧
      v.sortCompare w = .lt ∧ ¬Operator.less.Holds v w ∧
      Operator.atMost.Holds v w ∧ Operator.atLeast.Holds v w ∧
      Sorting.compareKeys terms [v, .text "2"] [w, .text "1"] = .lt ∧
      Sorting.compareKeys terms.tail [.text "2"] [.text "1"] = .gt := by
  intro v w terms
  have hless : ¬Operator.less.Holds v w := fun h =>
    absurd ((Operator.holds_iff fun _ => rfl).1 h) (by decide +kernel)
  have hatMost : Operator.atMost.Holds v w :=
    (Operator.holds_iff fun _ => rfl).2 (by decide +kernel)
  have hatLeast : Operator.atLeast.Holds v w :=
    (Operator.holds_iff fun _ => rfl).2 (by decide +kernel)
  exact ⟨by decide, by decide, by decide +kernel, by decide +kernel, by decide +kernel, hless,
    hatMost, hatLeast, by decide +kernel, by decide +kernel⟩

end Value

end TableQuery
