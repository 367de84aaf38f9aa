import Mathlib
import TableQuery.Number.Binary

/-!
# The bits and the value of a number

A number is its sign and its magnitude, and there is one NaN. A larger magnitude stands for more
units, so a number is determined by its value, the two zeros apart. Rounding undoes the reading of a
magnitude in units, and the natural numbers below `2 ^ 53` are not rounded.
-/

namespace TableQuery.Number

/-- The number is finite, and its value is the natural number. -/
def IsExactly (x : Number) (n : Nat) : Prop :=
  x.magnitude < infiniteMagnitude ∧ x.value = n * unitsPerOne

variable {x y : Number} {m n : Nat}

section Magnitudes

open Float.Model in
/-- Bits are kept unless they are those of NaN. -/
theorem toBits_ofBits {b : UInt64} (h : b.toNat % signBit ≤ infiniteMagnitude) :
    (Float.ofBits b).toBits = b := by
  have hnan : @UnpackedFloat.isNaNBits Format.binary64 b.toBitVec = false := by
    rw [UnpackedFloat.isNaNBits, decide_eq_false_iff_not]
    rintro ⟨hexponent, hfraction⟩
    have hexp := congrArg BitVec.toNat hexponent
    have hfrac := fun hz => hfraction (BitVec.eq_of_toNat_eq hz)
    simp [UnpackedFloat.unpackExponent, UnpackedFloat.unpackMantissa, signBit, infiniteMagnitude,
      Nat.shiftRight_eq_div_pow] at hexp hfrac h
    omega
  have hpack := @UnpackedFloat.pack_unpack Format.binary64 b.toBitVec
  rw [hnan] at hpack
  exact UInt64.toBitVec_inj.1 hpack

theorem toNat_toBits (x : Number) :
    x.toBits.toNat = (if x.isNegative then signBit else 0) + x.magnitude := by
  have hlt := x.toBits.toNat_lt
  rw [isNegative, magnitude]
  by_cases h : signBit ≤ x.toBits.toNat
  · rw [decide_eq_true h, if_pos rfl]
    simp only [signBit] at *
    omega
  · rw [decide_eq_false h, if_neg Bool.false_ne_true, Nat.zero_add, Nat.mod_eq_of_lt (by omega)]

theorem eq_of_magnitude_eq (hsign : x.isNegative = y.isNegative)
    (hmagnitude : x.magnitude = y.magnitude) : x = y := by
  refine Float.toBits_inj.1 (UInt64.toNat_inj.1 ?_)
  rw [toNat_toBits, toNat_toBits, hsign, hmagnitude]

theorem toNat_toBits_ofMagnitude (negative : Bool) (h : m ≤ infiniteMagnitude) :
    (ofMagnitude negative m).toBits.toNat = (if negative then signBit else 0) + m := by
  have hnat : (UInt64.ofNat (if negative then signBit + m else m)).toNat =
      (if negative then signBit else 0) + m := by
    simp only [signBit, infiniteMagnitude] at *
    rw [UInt64.toNat_ofNat']
    split <;> omega
  rw [ofMagnitude, toBits_ofBits, hnat]
  rw [hnat]
  simp only [signBit, infiniteMagnitude] at *
  split <;> omega

theorem magnitude_ofMagnitude (negative : Bool) (h : m ≤ infiniteMagnitude) :
    (ofMagnitude negative m).magnitude = m := by
  rw [magnitude, toNat_toBits_ofMagnitude negative h]
  simp only [signBit, infiniteMagnitude] at *
  split <;> omega

theorem isNegative_ofMagnitude (negative : Bool) (h : m ≤ infiniteMagnitude) :
    (ofMagnitude negative m).isNegative = negative := by
  rw [isNegative, toNat_toBits_ofMagnitude negative h]
  simp only [signBit, infiniteMagnitude] at *
  cases negative with
  | false => simpa using by omega
  | true => simp

open Float.Model in
/-- There is one NaN. -/
theorem eq_nan (h : x.isNan = true) : x = nan := by
  have hlt : infiniteMagnitude < x.toBits.toNat % signBit := of_decide_eq_true h
  have hbits : x.toBits.toBitVec = UnpackedFloat.packedNaN Format.binary64 := by
    refine x.toModel.valid.eq_packedNaN (BitVec.eq_of_toNat_eq ?_) fun hfraction => ?_
    · change (@UnpackedFloat.unpackExponent Format.binary64 x.toBits.toBitVec).toNat = _
      simp [UnpackedFloat.unpackExponent, signBit, infiniteMagnitude,
        Nat.shiftRight_eq_div_pow] at hlt ⊢
      omega
    · have hfrac := congrArg BitVec.toNat hfraction
      change (@UnpackedFloat.unpackMantissa Format.binary64 x.toBits.toBitVec).toNat = _
        at hfrac
      simp [UnpackedFloat.unpackMantissa, signBit, infiniteMagnitude] at hlt hfrac
      omega
  refine Float.toBits_inj.1 (UInt64.toBitVec_inj.1 (hbits.trans ?_))
  decide +kernel

theorem magnitude_le (h : x.isNan = false) : x.magnitude ≤ infiniteMagnitude :=
  Nat.not_lt.1 (of_decide_eq_false h)

theorem eq_ofMagnitude (h : x.isNan = false) : x = ofMagnitude x.isNegative x.magnitude :=
  have hle := magnitude_le h
  eq_of_magnitude_eq (isNegative_ofMagnitude _ hle).symm (magnitude_ofMagnitude _ hle).symm

/-- The zero with a minus. -/
def negativeZero : Number := ofMagnitude true 0

theorem eq_zero_or_of_magnitude_eq_zero (h : x.magnitude = 0) : x = ofNat 0 ∨ x = negativeZero := by
  have hx := eq_ofMagnitude (x := x) (decide_eq_false (by rw [h]; decide))
  rw [h] at hx
  cases hsign : x.isNegative with
  | false =>
      rw [hsign] at hx
      exact .inl (hx.trans (by decide +kernel))
  | true =>
      rw [hsign] at hx
      exact .inr hx

end Magnitudes

section Units

theorem unitsPerOne_eq {k : Nat} (h : k = 1074) : unitsPerOne = 2 ^ k := by
  subst h
  decide +kernel

theorem unitsPerOne_pos : 0 < unitsPerOne := by decide +kernel

theorem unitsOfMagnitude_of_lt (h : m < leadingBit) : unitsOfMagnitude m = m := if_pos h

theorem unitsOfMagnitude_add {shift fraction : Nat} (h : fraction < leadingBit) :
    unitsOfMagnitude ((shift + 1) * leadingBit + fraction) =
      (leadingBit + fraction) * 2 ^ shift := by
  have hpos : 0 < leadingBit := by decide
  have hge : ¬(shift + 1) * leadingBit + fraction < leadingBit := by
    rw [Nat.succ_mul]
    omega
  rw [unitsOfMagnitude, if_neg hge, Nat.mul_comm (shift + 1), Nat.mul_add_mod,
    Nat.mod_eq_of_lt h, Nat.mul_add_div hpos, Nat.div_eq_of_lt h]
  rfl

/-- A magnitude is below the leading bit, or it has an exponent and a fraction. -/
theorem magnitude_cases (m : Nat) : m < leadingBit ∨
    ∃ shift fraction, fraction < leadingBit ∧ m = (shift + 1) * leadingBit + fraction := by
  rcases Nat.lt_or_ge m leadingBit with h | h
  · exact .inl h
  · refine .inr ⟨m / leadingBit - 1, m % leadingBit, Nat.mod_lt _ (by decide), ?_⟩
    have hdiv : 1 ≤ m / leadingBit := Nat.div_pos h (by decide)
    rw [Nat.sub_add_cancel hdiv, Nat.div_add_mod']

theorem unitsOfMagnitude_strictMono : StrictMono unitsOfMagnitude := by
  refine strictMono_nat_of_lt_succ fun m => ?_
  rcases magnitude_cases m with h | ⟨shift, fraction, h, rfl⟩
  · rw [unitsOfMagnitude_of_lt h]
    rcases Nat.lt_or_ge (m + 1) leadingBit with hnext | hnext
    · rw [unitsOfMagnitude_of_lt hnext]
      exact Nat.lt_succ_self m
    · have hlast : m + 1 = (0 + 1) * leadingBit + 0 := by omega
      rw [hlast, unitsOfMagnitude_add (by decide)]
      omega
  · have hpos := Nat.two_pow_pos shift
    rw [unitsOfMagnitude_add h]
    rcases Nat.lt_or_ge (fraction + 1) leadingBit with hnext | hnext
    · rw [Nat.add_assoc, unitsOfMagnitude_add hnext]
      exact Nat.mul_lt_mul_of_pos_right (by omega) hpos
    · have hlast : (shift + 1) * leadingBit + fraction + 1 =
          (shift + 1 + 1) * leadingBit + 0 := by
        rw [Nat.succ_mul (shift + 1)]
        omega
      rw [hlast, unitsOfMagnitude_add (by decide)]
      calc (leadingBit + fraction) * 2 ^ shift
          < (leadingBit + 0) * 2 * 2 ^ shift := Nat.mul_lt_mul_of_pos_right (by omega) hpos
        _ = (leadingBit + 0) * 2 ^ (shift + 1) := by rw [Nat.mul_assoc, Nat.pow_succ']

theorem units_eq_zero_iff : x.units = 0 ↔ x.magnitude = 0 :=
  unitsOfMagnitude_strictMono.injective.eq_iff (b := 0)

/-- Numbers of the same value are equal, or they are the two zeros. -/
theorem eq_or_zero_of_value_eq (h : x.value = y.value) :
    x = y ∨ x.magnitude = 0 ∧ y.magnitude = 0 := by
  rw [value, value] at h
  by_cases hsign : x.isNegative = y.isNegative
  · left
    have hunits : x.units = y.units := by
      rw [hsign] at h
      split at h <;> omega
    exact eq_of_magnitude_eq hsign (unitsOfMagnitude_strictMono.injective hunits)
  · right
    rw [← units_eq_zero_iff, ← units_eq_zero_iff]
    split at h <;> split at h <;> simp_all

end Units

section Comparing

/-- The numbers have the same value, which for the two zeros is one; NaN has none. -/
def NumericallyEqual (x y : Number) : Prop :=
  x.isNan = false ∧ y.isNan = false ∧ x.value = y.value

instance (x y : Number) : Decidable (x.NumericallyEqual y) :=
  inferInstanceAs (Decidable (x.isNan = false ∧ y.isNan = false ∧ x.value = y.value))

theorem atMost_iff (hx : x.isNan = false) (hy : y.isNan = false) :
    x.atMost y = true ↔ x.value ≤ y.value := by
  simp [atMost, hx, hy]

theorem less_iff (hx : x.isNan = false) (hy : y.isNan = false) :
    x.less y = true ↔ x.value < y.value := by
  simp [less, hx, hy]

end Comparing

section Rounding

theorem log2_mul_two_pow (hm : m ≠ 0) (shift : Nat) :
    (m * 2 ^ shift).log2 = m.log2 + shift := by
  have hpos := Nat.two_pow_pos shift
  rw [Nat.log2_eq_iff (Nat.mul_ne_zero hm hpos.ne'), Nat.pow_add, Nat.add_right_comm, Nat.pow_add]
  exact ⟨Nat.mul_le_mul_right _ (Nat.log2_self_le hm),
    Nat.mul_lt_mul_of_pos_right Nat.lt_log2_self hpos⟩

theorem divideToEven_mul (q : Nat) {d : Nat} (hd : 0 < d) : divideToEven (q * d) d = q := by
  simp [divideToEven, hd]

/-- The magnitude that is nearest to as many units as a magnitude has is this magnitude. -/
theorem nearestMagnitude_unitsOfMagnitude (h : m ≤ infiniteMagnitude) :
    nearestMagnitude (unitsOfMagnitude m) 1 = m := by
  rcases magnitude_cases m with hm | ⟨shift, fraction, hfraction, rfl⟩
  · have hlog : m.log2 - 52 = 0 := by
      rcases Nat.eq_zero_or_pos m with rfl | hpos
      · rfl
      · have := (Nat.log2_lt (k := 52) (by omega)).2 hm
        omega
    have hround := divideToEven_mul m (Nat.two_pow_pos 0)
    rw [Nat.pow_zero, Nat.mul_one] at hround
    rw [unitsOfMagnitude_of_lt hm, nearestMagnitude, Nat.div_one, hlog]
    change min (0 * leadingBit + divideToEven m 1) _ = m
    rw [hround, Nat.zero_mul, Nat.zero_add, Nat.min_eq_left h]
  · have hsignificand : (leadingBit + fraction).log2 = 52 := by
      rw [Nat.log2_eq_iff (by simp [leadingBit])]
      simp only [leadingBit] at *
      omega
    have hlog : ((leadingBit + fraction) * 2 ^ shift).log2 = 52 + shift := by
      rw [log2_mul_two_pow (by simp [leadingBit]), hsignificand]
    have hround := divideToEven_mul (leadingBit + fraction) (Nat.two_pow_pos shift)
    rw [unitsOfMagnitude_add hfraction, nearestMagnitude, Nat.div_one, hlog,
      Nat.add_sub_cancel_left, Nat.one_mul]
    change min (shift * leadingBit + divideToEven _ (2 ^ shift)) _ = _
    rw [hround, ← Nat.add_assoc, ← Nat.succ_mul, Nat.min_eq_left h]

theorem log2_le (hpos : 0 < n) (h : n < 2 ^ 53) : n.log2 ≤ 52 :=
  Nat.le_of_lt_succ ((Nat.log2_lt hpos.ne').2 h)

/-- A natural number below `2 ^ 53` fills a significand, with zeros behind it. -/
theorem log2_significand (hpos : 0 < n) (h : n < 2 ^ 53) :
    (n * 2 ^ (52 - n.log2)).log2 = 52 := by
  rw [log2_mul_two_pow hpos.ne', Nat.add_sub_cancel' (log2_le hpos h)]

/-- A natural number below `2 ^ 53` has a magnitude: the bits behind its leading one, and an
exponent for its logarithm. -/
theorem exists_fraction (hpos : 0 < n) (h : n < 2 ^ 53) :
    ∃ fraction < leadingBit, n * 2 ^ (52 - n.log2) = leadingBit + fraction ∧
      (1022 + n.log2 + 1) * leadingBit + fraction < infiniteMagnitude ∧
      unitsOfMagnitude ((1022 + n.log2 + 1) * leadingBit + fraction) = n * unitsPerOne := by
  have hlog := log2_le hpos h
  have hne : n * 2 ^ (52 - n.log2) ≠ 0 := Nat.mul_ne_zero hpos.ne' (Nat.two_pow_pos _).ne'
  obtain ⟨hlow, hhigh⟩ := (Nat.log2_eq_iff hne).1 (log2_significand hpos h)
  obtain ⟨fraction, hfraction⟩ := Nat.exists_eq_add_of_le hlow
  have hlt : fraction < leadingBit := by
    simp only [leadingBit]
    omega
  refine ⟨fraction, hlt, hfraction, ?_, ?_⟩
  · have hexponent : (1022 + n.log2 + 1) * leadingBit ≤ 2046 * leadingBit :=
      Nat.mul_le_mul_right _ (by omega)
    exact Nat.add_lt_add_of_le_of_lt hexponent hlt
  · have hall : 52 - n.log2 + (1022 + n.log2) = 1074 := by omega
    have hone : leadingBit + fraction = n * 2 ^ (52 - n.log2) := hfraction.symm
    rw [unitsOfMagnitude_add hlt, hone, Nat.mul_assoc, ← Nat.pow_add, unitsPerOne_eq hall]

/-- Each natural number below `2 ^ 53` is the value of a magnitude. -/
theorem exists_magnitude (h : n < 2 ^ 53) :
    ∃ m < infiniteMagnitude, unitsOfMagnitude m = n * unitsPerOne := by
  rcases Nat.eq_zero_or_pos n with rfl | hpos
  · exact ⟨0, by decide, (Nat.zero_mul unitsPerOne).symm⟩
  · obtain ⟨fraction, -, -, hfinite, hunits⟩ := exists_fraction hpos h
    exact ⟨_, hfinite, hunits⟩

/-- A natural number below `2 ^ 53` is not rounded. -/
theorem isExactly_ofNat (h : n < 2 ^ 53) : (ofNat n).IsExactly n := by
  obtain ⟨m, hm, hunits⟩ := exists_magnitude h
  have hofNat : ofNat n = ofMagnitude false m := by
    rw [ofNat, ← hunits, nearestMagnitude_unitsOfMagnitude hm.le]
  rw [hofNat, IsExactly, magnitude_ofMagnitude false hm.le, value, units,
    isNegative_ofMagnitude false hm.le, magnitude_ofMagnitude false hm.le, hunits]
  exact ⟨hm, rfl⟩

theorem IsExactly.wholePart_eq (h : x.IsExactly n) : x.wholePart = n := by
  have hpos := unitsPerOne_pos
  obtain ⟨-, hvalue⟩ := h
  rw [value] at hvalue
  rw [wholePart]
  generalize unitsPerOne = u at *
  split at hvalue
  · next hneg =>
    have hzero : n * u = 0 := by
      have hsum : (n * u + x.units : Int) = 0 := by omega
      norm_cast at hsum
      omega
    rw [if_pos hneg, (Nat.mul_eq_zero.1 hzero).resolve_right hpos.ne']
  · next hneg =>
    have hunits : x.units = n * u := by exact_mod_cast hvalue
    rw [if_neg hneg, hunits, Nat.mul_div_cancel _ hpos]

end Rounding

end TableQuery.Number
