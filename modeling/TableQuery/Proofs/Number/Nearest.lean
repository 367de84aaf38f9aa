import Mathlib
import TableQuery.Proofs.Number.Numerals
import TableQuery.Proofs.Number.Rounding

/-!
# The nearest number

Rounding is what distances alone make of it: a decimal is read as a number that no other number is
nearer to, and as the even one of two that are equally near. The units of two neighbouring
magnitudes bracket each quotient, and rounding chooses between these two; since more magnitude is
more units, all other magnitudes are farther away.
-/

namespace TableQuery.Number

/-- The value of a number. Infinity has the value that the number behind the largest finite one
would have. -/
def toRat (x : Number) : ℚ := x.value / unitsPerOne

/-- The value of a decimal. -/
def Decimal.toRat (x : Decimal) : ℚ := x.digits * 10 ^ x.exponent

/-- No number is nearer to `q`, and where another one is as near, this one is even. -/
structure IsNearest (x : Number) (q : ℚ) : Prop where
  isNan_eq_false : x.isNan = false
  closest : ∀ y : Number, y.isNan = false → |x.toRat - q| ≤ |y.toRat - q|
  even : ∀ y : Number, y.isNan = false → |y.toRat - q| = |x.toRat - q| →
    y.magnitude = x.magnitude ∨ Even x.magnitude

variable {a n d k shift quotient : Nat} {q : ℚ} {x y : Number}

section Neighbours

/-- On the grid of a shift, magnitudes count multiples of the step between neighbours. -/
theorem unitsOfMagnitude_grid (hlow : shift = 0 ∨ leadingBit ≤ quotient)
    (hhigh : quotient ≤ 2 * leadingBit) :
    unitsOfMagnitude (shift * leadingBit + quotient) = quotient * 2 ^ shift := by
  rcases Nat.lt_or_ge quotient leadingBit with hlt | hge
  · obtain rfl : shift = 0 := hlow.resolve_right (Nat.not_le.2 hlt)
    rw [Nat.zero_mul, Nat.zero_add, unitsOfMagnitude_of_lt hlt, Nat.pow_zero, Nat.mul_one]
  · obtain ⟨fraction, rfl⟩ := Nat.exists_eq_add_of_le hge
    rcases Nat.lt_or_ge fraction leadingBit with hfraction | hlast
    · rw [← Nat.add_assoc, ← Nat.succ_mul, unitsOfMagnitude_add hfraction]
    · obtain rfl : fraction = leadingBit := by omega
      have hnext : shift * leadingBit + (leadingBit + leadingBit) =
          (shift + 1 + 1) * leadingBit + 0 := by
        rw [Nat.succ_mul, Nat.succ_mul]
        omega
      rw [hnext, unitsOfMagnitude_add (by decide), Nat.pow_succ', Nat.add_zero, ← Nat.mul_assoc,
        Nat.mul_two]

/-- A number without the bits that its shift takes away has at most 53 bits. -/
theorem div_lt_two_mul_leadingBit (n : Nat) : n / 2 ^ (n.log2 - 52) < 2 * leadingBit := by
  refine Nat.div_lt_of_lt_mul ?_
  calc n < 2 ^ (n.log2 + 1) := Nat.lt_log2_self
    _ ≤ 2 ^ (n.log2 - 52 + 53) := Nat.pow_le_pow_right (by decide) (by omega)
    _ = 2 ^ (n.log2 - 52) * (2 * leadingBit) := Nat.pow_add 2 (n.log2 - 52) 53

/-- It has 53 bits where bits are taken away. -/
theorem leadingBit_le_div (n : Nat) :
    n.log2 - 52 = 0 ∨ leadingBit ≤ n / 2 ^ (n.log2 - 52) := by
  refine (Nat.eq_zero_or_pos (n.log2 - 52)).imp_right fun hpos => ?_
  have hne : n ≠ 0 := by
    rintro rfl
    exact absurd hpos (by decide)
  rw [Nat.le_div_iff_mul_le (Nat.two_pow_pos _)]
  calc leadingBit * 2 ^ (n.log2 - 52) = 2 ^ (52 + (n.log2 - 52)) := (Nat.pow_add 2 52 _).symm
    _ = 2 ^ n.log2 := by rw [Nat.add_sub_cancel' (by omega)]
    _ ≤ n := Nat.log2_self_le hne

/-- The quotient is below the middle of `a` and its successor, or it is the middle and `a` is
even. -/
def RoundsDown (n d a : Nat) : Prop :=
  2 * n < (unitsOfMagnitude a + unitsOfMagnitude (a + 1)) * d ∨
    2 * n = (unitsOfMagnitude a + unitsOfMagnitude (a + 1)) * d ∧ Even a

/-- Two neighbouring magnitudes bracket a quotient, and rounding chooses between them. -/
theorem exists_neighbours (n : Nat) (hd : 0 < d) :
    ∃ a, unitsOfMagnitude a * d ≤ n ∧ n < unitsOfMagnitude (a + 1) * d ∧
      (RoundsDown n d a ∧ nearestMagnitude n d = min a infiniteMagnitude ∨
        ¬RoundsDown n d a ∧ nearestMagnitude n d = min (a + 1) infiniteMagnitude) := by
  have hhigh := div_lt_two_mul_leadingBit (n / d)
  have hlow := leadingBit_le_div (n / d)
  obtain ⟨shift, hshift⟩ : ∃ shift, shift = (n / d).log2 - 52 := ⟨_, rfl⟩
  have hnearest : nearestMagnitude n d =
      min (shift * leadingBit + divideToEven n (d * 2 ^ shift)) infiniteMagnitude := by
    rw [nearestMagnitude, hshift]
    rfl
  rw [← hshift, Nat.div_div_eq_div_mul] at hhigh hlow
  obtain ⟨step, hstep⟩ : ∃ step, step = d * 2 ^ shift := ⟨_, rfl⟩
  rw [← hstep] at hhigh hlow hnearest
  have hpos : 0 < step := hstep ▸ Nat.mul_pos hd (Nat.two_pow_pos shift)
  have hbelow : unitsOfMagnitude (shift * leadingBit + n / step) * d = n / step * step := by
    rw [unitsOfMagnitude_grid hlow hhigh.le, hstep, Nat.mul_assoc, Nat.mul_comm d]
  have habove : unitsOfMagnitude (shift * leadingBit + n / step + 1) * d =
      n / step * step + step := by
    rw [Nat.add_assoc, unitsOfMagnitude_grid (hlow.imp_right Nat.le_succ_of_le) hhigh,
      ← Nat.succ_mul, hstep, Nat.mul_assoc, Nat.mul_comm d]
  have hdivision : n = n / step * step + n % step := by rw [Nat.div_add_mod']
  have hremainder : n % step < step := Nat.mod_lt n hpos
  have heven : Even (shift * leadingBit + n / step) ↔ n / step % 2 = 0 := by
    rw [Nat.even_iff]
    simp only [leadingBit]
    omega
  refine ⟨shift * leadingBit + n / step, by omega, by omega, ?_⟩
  rw [hnearest, RoundsDown, Nat.add_mul, hbelow, habove, heven]
  simp only [divideToEven, Bool.or_eq_true, decide_eq_true_eq, Bool.and_eq_true, beq_iff_eq]
  split
  · next hdown => exact .inl ⟨by omega, rfl⟩
  · next hup => exact .inr ⟨by omega, by rw [Nat.add_assoc]⟩

/-- No magnitude has units nearer to the quotient, and where another one has, this one is even. -/
theorem nearestMagnitude_closest (n : Nat) (hd : 0 < d) (hk : k ≤ infiniteMagnitude) :
    Nat.dist (unitsOfMagnitude (nearestMagnitude n d) * d) n ≤
        Nat.dist (unitsOfMagnitude k * d) n ∧
      (Nat.dist (unitsOfMagnitude k * d) n =
          Nat.dist (unitsOfMagnitude (nearestMagnitude n d) * d) n →
        k = nearestMagnitude n d ∨ Even (nearestMagnitude n d)) := by
  obtain ⟨a, hbelow, habove, hchoice⟩ := exists_neighbours n hd
  have hlt : ∀ {i j}, i < j → unitsOfMagnitude i * d < unitsOfMagnitude j * d := fun h =>
    Nat.mul_lt_mul_of_pos_right (unitsOfMagnitude_strictMono h) hd
  -- all magnitudes but `a` itself are below `a`, above the next one, or the next one
  have hplace : k = a ∨ unitsOfMagnitude k * d < unitsOfMagnitude a * d ∨ k = a + 1 ∨
      unitsOfMagnitude (a + 1) * d < unitsOfMagnitude k * d := by
    rcases Nat.lt_trichotomy k a with h | h | h
    · exact .inr (.inl (hlt h))
    · exact .inl h
    · exact .inr (.inr ((Nat.eq_or_lt_of_le h).imp Eq.symm hlt))
  rw [Nat.dist, Nat.dist]
  rcases Nat.lt_or_ge a infiniteMagnitude with ha | ha
  · have hnext : a + 1 ≤ infiniteMagnitude := ha
    rw [Nat.min_eq_left ha.le, Nat.min_eq_left hnext, RoundsDown, Nat.add_mul, Nat.even_iff]
      at hchoice
    rcases hchoice with ⟨hdown, hnearest⟩ | ⟨hup, hnearest⟩
    · rw [hnearest, Nat.even_iff]
      rcases hplace with rfl | h | rfl | h <;> omega
    · rw [hnearest, Nat.even_iff]
      rcases hplace with rfl | h | rfl | h <;> omega
  · rw [Nat.min_eq_right ha, Nat.min_eq_right (Nat.le_succ_of_le ha)] at hchoice
    rw [hchoice.elim And.right And.right]
    have hbound : unitsOfMagnitude infiniteMagnitude * d ≤ unitsOfMagnitude a * d :=
      Nat.mul_le_mul_right d (unitsOfMagnitude_strictMono.monotone ha)
    rcases Nat.eq_or_lt_of_le hk with rfl | h
    · exact ⟨le_rfl, fun _ => .inl rfl⟩
    · have hfarther := hlt h
      omega

end Neighbours

section Nearest

theorem toRat_ofMagnitude {m : Nat} (h : m ≤ infiniteMagnitude) :
    (ofMagnitude false m).toRat = unitsOfMagnitude m / unitsPerOne := by
  rw [toRat, value, isNegative_ofMagnitude false h, if_neg Bool.false_ne_true, units,
    magnitude_ofMagnitude false h, Int.cast_natCast]

/-- A negative number is no nearer to a positive one than its absolute value. -/
theorem abs_units_sub_le (hq : 0 ≤ q) : |(x.units : ℚ) / unitsPerOne - q| ≤ |x.toRat - q| := by
  rw [toRat, value]
  split
  · have hunits : (0 : ℚ) ≤ x.units / unitsPerOne :=
      div_nonneg (Nat.cast_nonneg _) (Nat.cast_nonneg _)
    rw [Int.cast_neg, Int.cast_natCast, neg_div, abs_sub_comm (-_) q, sub_neg_eq_add,
      abs_of_nonneg (add_nonneg hq hunits), abs_le]
    constructor <;> linarith
  · rw [Int.cast_natCast]

/-- The distance to a quotient of units, counted in naturals. -/
theorem abs_div_sub_div (m n : Nat) (hd : 0 < d) :
    |(m : ℚ) / unitsPerOne - n / d / unitsPerOne| = Nat.dist (m * d) n / d / unitsPerOne := by
  have hd' : (0 : ℚ) < d := Nat.cast_pos.2 hd
  have hdist : |(m : ℚ) * d - n| = Nat.dist (m * d) n := by
    rcases Nat.le_total n (m * d) with h | h
    · rw [Nat.dist_eq_sub_of_le_right h, Nat.cast_sub h, Nat.cast_mul, abs_of_nonneg]
      exact sub_nonneg.2 (by exact_mod_cast h)
    · rw [Nat.dist_eq_sub_of_le h, Nat.cast_sub h, Nat.cast_mul, abs_sub_comm, abs_of_nonneg]
      exact sub_nonneg.2 (by exact_mod_cast h)
  rw [← sub_div, abs_div, Nat.abs_cast, sub_div' hd'.ne', abs_div, Nat.abs_cast, hdist]

theorem isNearest_nearestMagnitude (n : Nat) (hd : 0 < d) :
    (ofMagnitude false (nearestMagnitude n d)).IsNearest (n / d / unitsPerOne) := by
  have hle := nearestMagnitude_le n d
  have hone : (0 : ℚ) < unitsPerOne := Nat.cast_pos.2 unitsPerOne_pos
  have hd' : (0 : ℚ) < d := Nat.cast_pos.2 hd
  have hq : (0 : ℚ) ≤ n / d / unitsPerOne :=
    div_nonneg (div_nonneg (Nat.cast_nonneg n) hd'.le) hone.le
  have hclosest : ∀ y : Number, y.isNan = false →
      |(ofMagnitude false (nearestMagnitude n d)).toRat - n / d / unitsPerOne| ≤
        |(y.units : ℚ) / unitsPerOne - n / d / unitsPerOne| := by
    intro y hy
    rw [toRat_ofMagnitude hle, abs_div_sub_div _ n hd, abs_div_sub_div _ n hd]
    have hdist := (nearestMagnitude_closest n hd (magnitude_le hy)).1
    exact div_le_div_of_nonneg_right
      (div_le_div_of_nonneg_right (Nat.cast_le.2 hdist) hd'.le) hone.le
  refine ⟨isNan_ofMagnitude false hle, fun y hy => (hclosest y hy).trans (abs_units_sub_le hq),
    fun y hy hequal => ?_⟩
  have hunits : |(y.units : ℚ) / unitsPerOne - n / d / unitsPerOne| =
      |(ofMagnitude false (nearestMagnitude n d)).toRat - n / d / unitsPerOne| :=
    le_antisymm (hequal ▸ abs_units_sub_le hq) (hclosest y hy)
  rw [toRat_ofMagnitude hle, abs_div_sub_div _ n hd, abs_div_sub_div _ n hd,
    div_left_inj' hone.ne', div_left_inj' hd'.ne', Nat.cast_inj] at hunits
  rw [magnitude_ofMagnitude false hle]
  exact (nearestMagnitude_closest n hd (magnitude_le hy)).2 hunits

theorem Decimal.toRat_eq (x : Decimal) : x.toRat =
    (x.digits * 10 ^ x.exponent.toNat : Nat) / (10 ^ (-x.exponent).toNat : Nat) := by
  rw [Decimal.toRat]
  push_cast
  rcases Int.le_total 0 x.exponent with h | h
  · have hdown : (-x.exponent).toNat = 0 := by omega
    nth_rewrite 1 [← Int.toNat_of_nonneg h]
    rw [hdown, pow_zero, div_one, zpow_natCast]
  · have hup : x.exponent.toNat = 0 := by omega
    have hexponent : x.exponent = -((-x.exponent).toNat : Int) := by omega
    nth_rewrite 1 [hexponent]
    rw [hup, pow_zero, mul_one, zpow_neg, zpow_natCast, div_eq_mul_inv]

/-- A decimal is read as the number nearest to it. -/
theorem Decimal.isNearest (x : Decimal) : (ofMagnitude false x.nearest).IsNearest x.toRat := by
  have hpos : 0 < 10 ^ (-x.exponent).toNat := Nat.pow_pos (by decide)
  have hone : (unitsPerOne : ℚ) ≠ 0 := Nat.cast_ne_zero.2 unitsPerOne_pos.ne'
  have hnearest := isNearest_nearestMagnitude
    (x.digits * 10 ^ x.exponent.toNat * unitsPerOne) hpos
  rwa [Nat.cast_mul, mul_div_right_comm, mul_div_assoc _ (unitsPerOne : ℚ), div_self hone, mul_one,
    ← toRat_eq, ← nearest_eq] at hnearest

/-- A number that is nearest to the value of some number has this value. -/
theorem IsNearest.toRat_eq (h : x.IsNearest y.toRat) (hy : y.isNan = false) :
    x.toRat = y.toRat := by
  have hle := h.closest y hy
  rw [sub_self, abs_zero] at hle
  exact sub_eq_zero.1 (abs_nonpos_iff.1 hle)

end Nearest

section Naturals

/-- A number without a minus is a natural number iff its units are as many times one. -/
theorem toRat_eq_natCast_iff (hsign : x.isNegative = false) :
    x.toRat = n ↔ x.units = n * unitsPerOne := by
  have hone : (unitsPerOne : ℚ) ≠ 0 := Nat.cast_ne_zero.2 unitsPerOne_pos.ne'
  rw [toRat, value, hsign, if_neg Bool.false_ne_true, Int.cast_natCast, div_eq_iff hone,
    ← Nat.cast_mul, Nat.cast_inj]

theorem unitsOfMagnitude_two_pow (k : Nat) :
    unitsOfMagnitude ((1022 + k + 1) * leadingBit) = 2 ^ k * unitsPerOne := by
  have hfraction : 0 < leadingBit := by decide
  have hbits : leadingBit = 2 ^ 52 := rfl
  have hunits : unitsOfMagnitude ((1022 + k + 1) * leadingBit + 0) =
      (leadingBit + 0) * 2 ^ (1022 + k) := unitsOfMagnitude_add hfraction
  simp only [Nat.add_zero] at hunits
  -- named, so that no step works out the power of two
  obtain ⟨bits, hone⟩ : ∃ bits, bits = 1074 := ⟨_, rfl⟩
  have hexponent : 52 + (1022 + k) = k + bits := by omega
  rw [hunits, hbits, ← Nat.pow_add, hexponent, Nat.pow_add, unitsPerOne_eq hone]

/-- Each natural number up to `2 ^ 53` is the value of a number. -/
theorem exists_number (h : n ≤ 2 ^ 53) : ∃ y : Number, y.isNan = false ∧ y.toRat = n := by
  have hmagnitude : ∃ m ≤ infiniteMagnitude, unitsOfMagnitude m = n * unitsPerOne := by
    rcases Nat.lt_or_eq_of_le h with hlt | rfl
    · obtain ⟨m, hm, hunits⟩ := exists_magnitude hlt
      exact ⟨m, hm.le, hunits⟩
    · exact ⟨_, by decide, unitsOfMagnitude_two_pow 53⟩
  obtain ⟨m, hm, hunits⟩ := hmagnitude
  have hsign := isNegative_ofMagnitude false hm
  refine ⟨.ofMagnitude false m, isNan_ofMagnitude false hm, ?_⟩
  rwa [toRat_eq_natCast_iff hsign, units, magnitude_ofMagnitude false hm]

end Naturals

end TableQuery.Number
