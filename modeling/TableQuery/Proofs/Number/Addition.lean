import TableQuery.Proofs.Number.Exact

/-!
# Adding natural numbers

Adding two numbers brings their significands to one exponent, adds them and rounds the sum. Where
the sum fills a significand and has only zeros behind it, nothing is rounded: so the sums of natural
numbers are exact below `2 ^ 53`.
-/

namespace TableQuery.Number

open Float.Model UnpackedFloat

variable {x y z : Number} {m n : Nat} {e : Int}

section Rounding

variable (hpos : 0 < m) (hm : m.log2 = 52) (he : -1074 ≤ e)
include hpos hm he

/-- A significand stands at its exponent, however many zeros are written behind it. -/
theorem targetExponent_eq (s : Nat) :
    Format.binary64.targetExponent (totalExponent (m * 2 ^ s) (e - s)) = e := by
  rw [totalExponent, log2_mul_two_pow hpos.ne', hm, Format.targetExponent]
  simp [Format.mantissaBits, Format.minExponent]
  omega

/-- The zeros behind a significand are shifted out, and leave no trace. -/
theorem shiftToTargetExponent_eq (s : Nat) :
    shiftToTargetExponent Format.binary64 (m * 2 ^ s) (e - s) .exact =
      (.ofMantissaAndAccuracy m .exact, e) := by
  have hexact (s m : Nat) : s.repeat ExtendedMantissa.shiftRightOne
      (.ofMantissaAndAccuracy (m * 2 ^ s) .exact) = .ofMantissaAndAccuracy m .exact := by
    induction s generalizing m with
    | zero => rw [Nat.pow_zero, Nat.mul_one, Nat.repeat]
    | succ s ih =>
        have hdouble : m * 2 ^ (s + 1) = m * 2 * 2 ^ s := by
          rw [Nat.pow_succ', Nat.mul_assoc]
        rw [Nat.repeat, hdouble, ih, ExtendedMantissa.shiftRightOne]
        simp [ExtendedMantissa.ofMantissaAndAccuracy]
  have hshift : (e - (e - s)).toNat = s := by omega
  rw [shiftToTargetExponent, targetExponent_eq hpos hm he, shiftToExponent, hshift,
    Int.sub_add_cancel]
  exact congrArg (·, e) (hexact s m)

/-- A significand with zeros behind it is not rounded. -/
theorem normalize_eq (s : Nat) :
    UnpackedFloat.normalize Format.binary64 (m * 2 ^ s : Nat) (e - s) .positive =
      .finite .positive m e hpos := by
  have hshift := shiftToTargetExponent_eq hpos hm he s
  have hagain := shiftToTargetExponent_eq hpos hm he 0
  rw [Nat.pow_zero, Nat.mul_one, Int.natCast_zero, Int.sub_zero] at hagain
  have hnone : (e - s - e).toNat = 0 := by omega
  have hcompare : compare ((m * 2 ^ s : Nat) : Int) 0 = .gt :=
    Int.compare_eq_gt.2 (Int.natCast_pos.2 (Nat.mul_pos hpos (Nat.two_pow_pos s)))
  rw [UnpackedFloat.normalize, hcompare]
  change UnpackedFloat.round Format.binary64 .positive (m * 2 ^ s) (e - s) = _
  rw [UnpackedFloat.round, targetExponent_eq hpos hm he, decreaseExponent, hnone]
  simp only [Nat.shiftLeft_zero, Int.natCast_zero, Int.sub_zero]
  rw [roundWithAccuracy, hshift]
  change (match shiftToTargetExponent Format.binary64 m e .exact with
    | (final, exponent) => if h : final.mantissa = 0 then UnpackedFloat.zero .positive
      else .finite .positive final.mantissa exponent (Nat.pos_of_ne_zero h)) = _
  rw [hagain]
  exact dif_neg hpos.ne'

end Rounding

section Fields

variable {bits : Float.Model} {exponent fraction : Nat}
  (hfraction : fraction < leadingBit)
  (hbits : bits.toBits.toNat = exponent * leadingBit + fraction)
include hfraction hbits

theorem toNat_unpackMantissa :
    (@unpackMantissa Format.binary64 bits.toBits.toBitVec).toNat = fraction := by
  simp only [leadingBit] at hfraction hbits
  rw [unpackMantissa_def, BitVec.extractLsb'_toNat, UInt64.toNat_toBitVec, hbits,
    Nat.shiftRight_eq_div_pow]
  change _ / 2 ^ 0 % 2 ^ 52 = _
  omega

variable (hexponent : exponent < 2047)
include hexponent

theorem toNat_unpackExponent :
    (@unpackExponent Format.binary64 bits.toBits.toBitVec).toNat = exponent := by
  simp only [leadingBit] at hfraction hbits
  rw [unpackExponent_def, BitVec.extractLsb'_toNat, UInt64.toNat_toBitVec, hbits,
    Nat.shiftRight_eq_div_pow]
  change _ / 2 ^ 52 % 2 ^ 11 = _
  omega

theorem unpackSign_eq_zero : @unpackSign Format.binary64 bits.toBits.toBitVec = 0#1 := by
  simp only [leadingBit] at hfraction hbits
  refine BitVec.eq_of_toNat_eq ?_
  rw [unpackSign_def, BitVec.extractLsb'_toNat, UInt64.toNat_toBitVec, hbits,
    Nat.shiftRight_eq_div_pow]
  change _ / 2 ^ 63 % 2 ^ 1 = 0
  omega

/-- The parts of a positive number that is not subnormal. -/
theorem unpack_eq (hpos : 0 < exponent) :
    bits.unpack = .finite .positive (leadingBit + fraction) (exponent - 1075)
      (Nat.add_pos_left (by decide) fraction) := by
  have hexponent' := toNat_unpackExponent hfraction hbits hexponent
  have hleading : (1#1 ++ @unpackMantissa Format.binary64 bits.toBits.toBitVec).toNat =
      leadingBit + fraction := by
    rw [BitVec.toNat_append, ← Nat.shiftLeft_add_eq_or_of_lt (BitVec.isLt _),
      toNat_unpackMantissa hfraction hbits]
    rfl
  have hreads (b : BitVec 11) (heq : @unpackExponent Format.binary64 bits.toBits.toBitVec = b) :
      b.toNat = exponent :=
    heq ▸ hexponent'
  have hfinite : ¬@unpackExponent Format.binary64 bits.toBits.toBitVec = -1#11 :=
    fun heq => hexponent.ne' (hreads _ heq)
  have hnormal : ¬@unpackExponent Format.binary64 bits.toBits.toBitVec = 0#11 :=
    fun heq => hpos.ne (hreads _ heq)
  rw [Float.Model.unpack, UnpackedFloat.unpack]
  simp only
  rw [if_neg hfinite, if_neg hnormal]
  simp only [hleading, unpackSign_eq_zero hfraction hbits hexponent, hexponent']
  rfl

end Fields

section Naturals

variable (hpos : 0 < n) (hn : n < 2 ^ 53)
include hpos hn

theorem unpack_ofNat :
    (ofNat n).toModel.unpack = .finite .positive (n * 2 ^ (52 - n.log2)) (n.log2 - 52)
      (Nat.mul_pos hpos (Nat.two_pow_pos _)) := by
  have hlog := log2_le hpos hn
  obtain ⟨fraction, hlt, hfraction, hfinite, hunits⟩ := exists_fraction hpos hn
  have hbits : (ofNat n).toModel.toBits.toNat = (1022 + n.log2 + 1) * leadingBit + fraction := by
    rw [ofNat, ← hunits, nearestMagnitude_unitsOfMagnitude hfinite.le]
    exact (toNat_toBits_ofMagnitude false hfinite.le).trans (Nat.zero_add _)
  have hplace : ((1022 + n.log2 + 1 : Nat) - 1075 : Int) = n.log2 - 52 := by omega
  rw [unpack_eq hlt hbits (by omega) (by omega)]
  simp only [hfraction, hplace]

/-- A natural number at a smaller exponent. -/
theorem decreaseExponent_ofNat {k : Nat} (hk : k ≤ n.log2) :
    decreaseExponent (n * 2 ^ (52 - n.log2)) (n.log2 - 52) (k - 52) =
      (n * 2 ^ (52 - k), (k - 52 : Int)) := by
  have hlog := log2_le hpos hn
  have hshift : ((n.log2 - 52 : Int) - (k - 52)).toNat = n.log2 - k := by omega
  have hzeros : 52 - n.log2 + (n.log2 - k) = 52 - k := by omega
  have hexponent : (n.log2 - 52 - (n.log2 - k : Nat) : Int) = k - 52 := by omega
  rw [decreaseExponent, hshift, Nat.shiftLeft_eq, Nat.mul_assoc, ← Nat.pow_add, hzeros, hexponent]

end Naturals

theorem unpack_ofNat_zero : (ofNat 0).toModel.unpack = .zero .positive := by
  have hzero : ofNat 0 = Float.ofBits 0 := by decide +kernel
  rw [hzero]
  rfl

theorem add_eq_of_unpack (h : UnpackedFloat.add Format.binary64 x.toModel.unpack
    y.toModel.unpack = z.toModel.unpack) : x + y = z := by
  have hpack : Float.Model.pack z.toModel.unpack = z.toModel := by
    cases z.toModel with
    | mk bits valid => simp only [Float.Model.pack, Float.Model.unpack, pack_unpack_of_valid valid]
  exact congrArg Float.ofModel ((congrArg Float.Model.pack h).trans hpack)

theorem add_unpack_of_pos (hm : 0 < m) (hn : 0 < n) (h : m + n < 2 ^ 53) :
    UnpackedFloat.add Format.binary64 (ofNat m).toModel.unpack (ofNat n).toModel.unpack =
      (ofNat (m + n)).toModel.unpack := by
  have hsum : 0 < m + n := Nat.add_pos_left hm n
  have hlog := log2_le hsum h
  let k := min m.log2 n.log2
  have hk : k ≤ (m + n).log2 :=
    (Nat.le_log2 hsum.ne').2 ((Nat.pow_le_pow_right (by decide) (Nat.min_le_left _ _)).trans
      ((Nat.log2_self_le hm.ne').trans (Nat.le_add_right m n)))
  have hexponent : min (m.log2 - 52 : Int) (n.log2 - 52) = k - 52 := by omega
  -- at the smaller exponent the sum is its own significand with zeros behind it
  have hzeros : 52 - (m + n).log2 + ((m + n).log2 - k) = 52 - k := by omega
  have hplace : ((m + n).log2 - 52 - ((m + n).log2 - k : Nat) : Int) = k - 52 := by omega
  have hround := normalize_eq (Nat.mul_pos hsum (Nat.two_pow_pos _)) (log2_significand hsum h)
    (show -1074 ≤ ((m + n).log2 - 52 : Int) by omega) ((m + n).log2 - k)
  rw [Nat.mul_assoc, ← Nat.pow_add, hzeros, hplace, Nat.add_mul, Int.natCast_add] at hround
  rw [unpack_ofNat hm (by omega), unpack_ofNat hn (by omega), unpack_ofNat hsum h, ← hround,
    UnpackedFloat.add]
  simp only [hexponent]
  rw [decreaseExponent_ofNat hm (by omega) (Nat.min_le_left m.log2 n.log2),
    decreaseExponent_ofNat hn (by omega) (Nat.min_le_right m.log2 n.log2)]
  rfl

/-- The sum of natural numbers is exact below `2 ^ 53`. -/
theorem add_ofNat (h : m + n < 2 ^ 53) : ofNat m + ofNat n = ofNat (m + n) := by
  apply add_eq_of_unpack
  rcases Nat.eq_zero_or_pos m with rfl | hm
  · rw [unpack_ofNat_zero, Nat.zero_add]
    rcases Nat.eq_zero_or_pos n with rfl | hn
    · rw [unpack_ofNat_zero]
      rfl
    · rw [unpack_ofNat hn (by omega)]
      rfl
  rcases Nat.eq_zero_or_pos n with rfl | hn
  · rw [Nat.add_zero] at h ⊢
    rw [unpack_ofNat_zero, unpack_ofNat hm h]
    rfl
  · exact add_unpack_of_pos hm hn h

end TableQuery.Number
