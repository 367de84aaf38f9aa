import TableQuery.Number.Decimal
import TableQuery.Proofs.Number.Exact

/-!
# The number nearest to a decimal

Rounding looks at a quotient only, so it does not matter how a decimal is spelled: zeros at the end
of its digits may be moved into its exponent. The two shortcuts, for decimals that are very large or
very small, round as all others do. A magnitude is nearest to the shortest decimal found for it.
-/

namespace TableQuery.Number

variable {n d k m : Nat}

theorem divideToEven_mul_mul (hk : 0 < k) : divideToEven (n * k) (d * k) = divideToEven n d := by
  have hlt : 2 * (n % d * k) < d * k ↔ 2 * (n % d) < d := by
    rw [← Nat.mul_assoc, Nat.mul_lt_mul_right hk]
  have heq : 2 * (n % d * k) = d * k ↔ 2 * (n % d) = d := by
    rw [← Nat.mul_assoc, Nat.mul_left_inj hk.ne']
  simp only [divideToEven, Nat.mul_mod_mul_right, Nat.mul_div_mul_right _ _ hk, hlt,
    Bool.beq_eq_decide_eq, heq]

/-- Rounding depends on the quotient alone. -/
theorem nearestMagnitude_mul_mul (hk : 0 < k) :
    nearestMagnitude (n * k) (d * k) = nearestMagnitude n d := by
  simp only [nearestMagnitude, Nat.mul_div_mul_right _ _ hk, Nat.mul_right_comm d k,
    divideToEven_mul_mul hk]

theorem nearestMagnitude_of_small (h : 2 * n < d) : nearestMagnitude n d = 0 := by
  have hlt : n < d := by omega
  have hround : divideToEven n (d * 1) = 0 := by
    rw [Nat.mul_one, divideToEven, Nat.div_eq_of_lt hlt, Nat.mod_eq_of_lt hlt]
    simp [h]
  rw [nearestMagnitude, Nat.div_eq_of_lt hlt]
  change min (0 * leadingBit + divideToEven n (d * 1)) infiniteMagnitude = 0
  rw [hround, Nat.zero_mul]
  exact Nat.zero_min _

theorem nearestMagnitude_of_large (h : 2 ^ k ≤ n) (hk : 2099 ≤ k) :
    nearestMagnitude n 1 = infiniteMagnitude := by
  have hne : n ≠ 0 := (Nat.lt_of_lt_of_le (Nat.two_pow_pos k) h).ne'
  have hlog : k ≤ n.log2 := (Nat.le_log2 hne).2 h
  rw [nearestMagnitude, Nat.div_one]
  refine Nat.min_eq_right ?_
  calc infiniteMagnitude = 2047 * leadingBit := rfl
    _ ≤ (n.log2 - 52) * leadingBit := Nat.mul_le_mul_right _ (by omega)
    _ ≤ _ := Nat.le_add_right _ _

namespace Decimal

variable {x : Decimal} {digits : Nat}

theorem eight_pow (k : Nat) : 2 ^ (3 * k) ≤ 10 ^ k := by
  rw [Nat.pow_mul]
  exact Nat.pow_le_pow_left (by decide) k

/-- A decimal counts at least as many units as three bits for each power of ten can. -/
theorem pow_le_of_ne_zero (h : digits ≠ 0) (k : Nat) :
    2 ^ (3 * k + 1074) ≤ digits * 10 ^ k * unitsPerOne := by
  obtain ⟨bits, hbits⟩ : ∃ bits, bits = 1074 := ⟨_, rfl⟩
  rw [unitsPerOne_eq hbits, ← hbits, Nat.pow_add]
  exact Nat.mul_le_mul_right _
    (Nat.le_trans (eight_pow k) (Nat.le_mul_of_pos_left _ (Nat.pos_of_ne_zero h)))

/-- A decimal that is tiny is less than half a unit. -/
theorem small_of_isTiny (h : x.isTiny = true) :
    x.exponent.toNat = 0 ∧ 2 * (x.digits * unitsPerOne) < 10 ^ (-x.exponent).toNat := by
  have hle : x.digits.log2 + 1 + 1100 ≤ 3 * (-x.exponent).toNat := of_decide_eq_true h
  -- named, so that no step works out the power of two
  obtain ⟨bits, hbits⟩ : ∃ bits, bits = 1074 := ⟨_, rfl⟩
  refine ⟨by omega, ?_⟩
  rw [unitsPerOne_eq hbits]
  calc 2 * (x.digits * 2 ^ bits) < 2 * (2 ^ (x.digits.log2 + 1) * 2 ^ bits) :=
        Nat.mul_lt_mul_of_pos_left
          (Nat.mul_lt_mul_of_pos_right Nat.lt_log2_self (Nat.two_pow_pos bits)) (by decide)
    _ = 2 ^ (x.digits.log2 + 1 + bits + 1) := by rw [← Nat.pow_add, ← Nat.pow_succ']
    _ ≤ 2 ^ (3 * (-x.exponent).toNat) := Nat.pow_le_pow_right (by decide) (by omega)
    _ ≤ 10 ^ (-x.exponent).toNat := eight_pow _

/-- The shortcuts of rounding do not change its result. -/
theorem nearest_eq (x : Decimal) :
    x.nearest = nearestMagnitude (x.digits * 10 ^ x.exponent.toNat * unitsPerOne)
      (10 ^ (-x.exponent).toNat) := by
  rw [nearest]
  split
  · next hzero =>
    refine (nearestMagnitude_of_small ?_).symm
    rw [Bool.or_eq_true, decide_eq_true_eq] at hzero
    rcases hzero with hdigits | htiny
    · rw [hdigits, Nat.zero_mul, Nat.zero_mul]
      exact Nat.pow_pos (by decide)
    · obtain ⟨hexponent, hsmall⟩ := small_of_isTiny htiny
      rwa [hexponent, Nat.pow_zero, Nat.mul_one]
  · next hzero =>
    rw [Bool.or_eq_true, decide_eq_true_eq, not_or] at hzero
    split
    · next hhuge =>
      have hhuge : 400 ≤ x.exponent := hhuge
      have hexponent : (-x.exponent).toNat = 0 := by omega
      have hlarge := pow_le_of_ne_zero hzero.1 x.exponent.toNat
      rw [hexponent]
      exact (nearestMagnitude_of_large hlarge (by omega)).symm
    · rfl

/-- A zero at the end of the digits may be moved into the exponent. -/
theorem nearest_mul_ten (digits : Nat) (exponent : Int) :
    (⟨digits * 10, exponent⟩ : Decimal).nearest = (⟨digits, exponent + 1⟩ : Decimal).nearest := by
  rw [nearest_eq, nearest_eq]
  rcases Int.lt_or_le exponent 0 with h | h
  · have hup : exponent.toNat = 0 ∧ (exponent + 1).toNat = 0 := by omega
    have hdown : (-exponent).toNat = (-(exponent + 1)).toNat + 1 := by omega
    simp only [hup.1, hup.2, hdown, Nat.pow_zero, Nat.mul_one, Nat.pow_succ,
      Nat.mul_right_comm digits 10 unitsPerOne]
    exact nearestMagnitude_mul_mul (by decide)
  · have hup : (exponent + 1).toNat = exponent.toNat + 1 := by omega
    have hdown : (-exponent).toNat = 0 ∧ (-(exponent + 1)).toNat = 0 := by omega
    rw [hup, hdown.1, hdown.2, Nat.pow_succ', Nat.mul_assoc digits]

theorem nearest_mul_pow (digits k : Nat) (exponent : Int) :
    (⟨digits * 10 ^ k, exponent⟩ : Decimal).nearest =
      (⟨digits, exponent + k⟩ : Decimal).nearest := by
  induction k generalizing exponent with
  | zero => rw [Nat.pow_zero, Nat.mul_one, Nat.cast_zero, Int.add_zero]
  | succ k ih =>
      rw [Nat.pow_succ, ← Nat.mul_assoc, nearest_mul_ten, ih, Nat.cast_succ, Int.add_assoc,
        Int.add_comm 1]

theorem nearest_stripZeros (count : Nat) (x : Decimal) :
    (stripZeros count x).nearest = x.nearest := by
  induction count generalizing x with
  | zero => rfl
  | succ count ih =>
      rw [stripZeros]
      split
      · next hzero =>
        rw [ih, ← nearest_mul_ten, Nat.div_mul_cancel (Nat.dvd_of_mod_eq_zero hzero)]
      · rfl

/-- The exact value of a magnitude is not rounded. -/
theorem nearest_exact (h : m ≤ infiniteMagnitude) : (exact m).nearest = m := by
  have hexponent : (exact m).exponent.toNat = 0 ∧ (-(exact m).exponent).toNat = 1074 := ⟨rfl, rfl⟩
  have hdigits : (exact m).digits = unitsOfMagnitude m * Nat.pow 5 1074 := rfl
  rw [nearest_eq, hexponent.1, hexponent.2, hdigits]
  generalize hbits : 1074 = bits
  have hone : unitsOfMagnitude m * Nat.pow 5 bits * 10 ^ 0 * unitsPerOne =
      unitsOfMagnitude m * 10 ^ bits := by
    rw [unitsPerOne_eq hbits.symm, Nat.pow_zero, Nat.mul_one, Nat.pow_eq, Nat.mul_assoc,
      ← Nat.mul_pow]
  have hscale := nearestMagnitude_mul_mul (n := unitsOfMagnitude m) (d := 1)
    (Nat.pow_pos (n := bits) (by decide : 0 < 10))
  rw [Nat.one_mul] at hscale
  rw [hone, hscale, nearestMagnitude_unitsOfMagnitude h]

/-- A magnitude is nearest to the decimal that is written for it. -/
theorem nearest_shortest (h : m ≤ infiniteMagnitude) : (shortest m).nearest = m := by
  rw [shortest, nearest_stripZeros]
  cases hfound : (candidates m).find? (·.nearest == m) with
  | none =>
      rw [Option.getD_none]
      exact nearest_exact h
  | some x =>
      rw [Option.getD_some]
      have hnearest := List.find?_some hfound
      exact beq_iff_eq.1 hnearest

end Decimal

end TableQuery.Number
