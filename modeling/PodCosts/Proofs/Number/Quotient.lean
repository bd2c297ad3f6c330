import PodCosts.Proofs.Number.Order
import Mathlib.Tactic.FieldSimp

/-!
# Quotients of doubles

Arithmetic rounds its exact result once. Whole numbers of up to fifty-three bits are doubles without
any rounding, and a quotient of two of them exceeds the exact quotient by a very small part of it at
most.
-/

namespace PodCosts.Number

open Float.Model (Format UnpackedFloat totalExponent)
open Float.Model.UnpackedFloat (Sign Accuracy ExtendedMantissa)

/-! ## Dropping bits -/

/-- Shifting a mantissa divides it by a power of two. -/
theorem mantissa_shiftRight (extended : ExtendedMantissa) (count : Nat) :
    (extended >>> count).mantissa = extended.mantissa / 2 ^ count := by
  induction count with
  | zero => exact (Nat.div_one _).symm
  | succ count ih =>
    have hstep : extended >>> (count + 1) = (extended >>> count).shiftRightOne := rfl
    rw [hstep, ExtendedMantissa.shiftRightOne, ih, Nat.div_div_eq_div_mul, Nat.pow_succ]

/-- Rounding goes to the mantissa or to the one behind it. -/
theorem roundedMantissa_bounds (extended : ExtendedMantissa) :
    extended.mantissa ≤ extended.roundedMantissa ∧
      extended.roundedMantissa ≤ extended.mantissa + 1 := by
  rw [ExtendedMantissa.roundedMantissa]
  cases extended.accuracy with
  | exact => exact ⟨Nat.le_refl _, Nat.le_succ _⟩
  | inexact order =>
    cases order with
    | lt => exact ⟨Nat.le_refl _, Nat.le_succ _⟩
    | eq =>
      rw [Accuracy.roundToNearestEven]
      omega
    | gt => exact ⟨Nat.le_succ _, Nat.le_refl _⟩

/-- Zeros are dropped without rounding. -/
theorem shiftRight_mul_exact (m count : Nat) :
    ExtendedMantissa.ofMantissaAndAccuracy (m * 2 ^ count) .exact >>> count =
      ExtendedMantissa.ofMantissaAndAccuracy m .exact := by
  induction count generalizing m with
  | zero => rw [Nat.pow_zero, Nat.mul_one]; rfl
  | succ count ih =>
    have hstep (extended : ExtendedMantissa) :
      extended >>> (count + 1) = (extended >>> count).shiftRightOne := rfl
    rw [hstep, Nat.pow_succ, Nat.mul_comm (2 ^ count), ← Nat.mul_assoc, ih]
    simp [ExtendedMantissa.shiftRightOne, ExtendedMantissa.ofMantissaAndAccuracy]

/-- A mantissa is kept whatever its accuracy. -/
theorem ofMantissaAndAccuracy_mantissa (m : Nat) (accuracy : Accuracy) :
    (ExtendedMantissa.ofMantissaAndAccuracy m accuracy).mantissa = m := by
  rcases accuracy with _ | _ | _ | _ <;> rfl

/-! ## Rounding -/

/-- Significands that use all fifty-three bits, with room to the left and to the right. -/
structure Binary64.Normal (significand : Nat) (exponent : Int) : Prop where
  long : 2 ^ 52 ≤ significand
  lt : significand < 2 ^ 53
  least : -1074 ≤ exponent
  most : exponent ≤ 971

/-- A double has fifty-three bits, but no bit below the least one. -/
theorem targetExponent_eq (total : Int) :
    Format.binary64.targetExponent total = max (total - 53) (-1074) :=
  rfl

/-- All bits beyond fifty-three are dropped. -/
theorem shiftToTargetExponent_eq {m count : Nat} {e : Int} (hlog : m.log2 = 52 + count)
    (he : -1074 ≤ e) (accuracy : Accuracy) :
    UnpackedFloat.shiftToTargetExponent Format.binary64 m e accuracy =
      (ExtendedMantissa.ofMantissaAndAccuracy m accuracy >>> count, e + count) := by
  have htarget : Format.binary64.targetExponent (totalExponent m e) = e + count := by
    rw [targetExponent_eq, totalExponent, hlog]
    omega
  have hcount : (e + count - e).toNat = count := by omega
  rw [UnpackedFloat.shiftToTargetExponent, htarget, UnpackedFloat.shiftToExponent, hcount]

/-- The logarithm of a number is that of the power of two it lies above. -/
theorem log2_eq {m k : Nat} (hlow : 2 ^ k ≤ m) (hhigh : m < 2 ^ (k + 1)) : m.log2 = k :=
  (Nat.log2_eq_iff (Nat.ne_of_gt (Nat.lt_of_lt_of_le (Nat.two_pow_pos k) hlow))).mpr ⟨hlow, hhigh⟩

/-- A number with at least fifty-three bits is rounded to one of the two numbers of fifty-three bits
around it. -/
theorem exists_roundWithAccuracy (sign : Sign) {m count rounded : Nat} {e : Int}
    {accuracy : Accuracy} (hlow : 2 ^ (52 + count) ≤ m) (hhigh : m < 2 ^ (53 + count))
    (he : -1074 ≤ e) (hmost : e + count ≤ 970)
    (hrounded : (ExtendedMantissa.ofMantissaAndAccuracy m accuracy >>> count).roundedMantissa =
      rounded) :
    ∃ (significand : Nat) (exponent : Int) (hpos : 0 < significand),
      UnpackedFloat.roundWithAccuracy Format.binary64 sign m e accuracy =
        .finite sign significand exponent hpos ∧
      Binary64.Normal significand exponent ∧
      (significand : Rat) * 2 ^ exponent = rounded * 2 ^ (e + count) := by
  have hlog : m.log2 = 52 + count := log2_eq hlow (by rwa [Nat.add_right_comm])
  obtain ⟨hleast, hnext⟩ :=
    roundedMantissa_bounds (ExtendedMantissa.ofMantissaAndAccuracy m accuracy >>> count)
  rw [mantissa_shiftRight, ofMantissaAndAccuracy_mantissa, hrounded] at hleast hnext
  have hlong : 2 ^ 52 ≤ rounded := by
    refine Nat.le_trans ?_ hleast
    rwa [Nat.le_div_iff_mul_le (Nat.two_pow_pos count), ← Nat.pow_add]
  have hshort : rounded ≤ 2 ^ 53 := by
    refine Nat.le_trans hnext (Nat.succ_le_of_lt ?_)
    rwa [Nat.div_lt_iff_lt_mul (Nat.two_pow_pos count), ← Nat.pow_add]
  rw [UnpackedFloat.roundWithAccuracy, shiftToTargetExponent_eq hlog he]
  dsimp only
  rw [hrounded]
  rcases Nat.lt_or_eq_of_le hshort with hfits | hcarry
  · have hlast : rounded.log2 = 52 + 0 := log2_eq hlong hfits
    have hagain := shiftToTargetExponent_eq hlast (show -1074 ≤ e + count by omega) .exact
    have hkept : (ExtendedMantissa.ofMantissaAndAccuracy rounded .exact >>> 0).mantissa = rounded :=
      rfl
    have hpos : 0 < rounded := Nat.lt_of_lt_of_le (Nat.two_pow_pos 52) hlong
    refine ⟨rounded, e + count, hpos, ?_, ⟨hlong, hfits, by omega, by omega⟩, rfl⟩
    rw [hagain]
    dsimp only
    rw [dif_neg (hkept.trans_ne (Nat.ne_of_gt hpos)), UnpackedFloat.finite.injEq]
    exact ⟨rfl, hkept, Int.add_zero _⟩
  · -- A carry past the first bit leaves a power of two, which takes one bit less.
    subst hcarry
    have hlast : (2 ^ 53).log2 = 52 + 1 := Nat.log2_two_pow
    have hagain := shiftToTargetExponent_eq hlast (show -1074 ≤ e + count by omega) .exact
    have hhalf : (ExtendedMantissa.ofMantissaAndAccuracy (2 ^ 53) .exact >>> 1).mantissa = 2 ^ 52 :=
      rfl
    refine ⟨2 ^ 52, e + count + 1, by decide, ?_, ⟨le_rfl, by decide, by omega, by omega⟩, ?_⟩
    · rw [hagain]
      dsimp only
      rw [dif_neg (hhalf.trans_ne (by decide)), UnpackedFloat.finite.injEq]
      exact ⟨rfl, hhalf, rfl⟩
    · rw [zpow_add_one₀ (by norm_num)]
      push_cast
      ring

/-! ## Packing -/

/-- The sign of a double is found where it was put. -/
theorem sign_packComponents (sign : Sign) (exponent : BitVec 11) (fraction : BitVec 52) :
    Sign.ofBitVec (UnpackedFloat.unpackSign
      (UnpackedFloat.packComponents Format.binary64 sign exponent fraction)) = sign := by
  have hbit : UnpackedFloat.unpackSign
      (UnpackedFloat.packComponents Format.binary64 sign exponent fraction) = sign.toBitVec := by
    change (sign.toBitVec ++ exponent ++ fraction).extractLsb' 63 1 = sign.toBitVec
    rw [BitVec.extractLsb'_append_eq_of_le (by decide),
      BitVec.extractLsb'_append_eq_of_le (by decide)]
    exact BitVec.extractLsb'_eq_self
  rw [hbit]
  cases sign <;> rfl

/-- Between the exponents of zero and of infinity the first bit of a significand is not stored. -/
theorem unpack_packComponents (sign : Sign) {biased fraction : Nat} (hpos : 0 < biased)
    (hlt : biased < 0x7ff) (hfraction : fraction < 2 ^ 52) :
    UnpackedFloat.unpack Format.binary64 (UnpackedFloat.packComponents Format.binary64 sign
        (BitVec.ofNat _ biased) (BitVec.ofNat _ fraction)) =
      .finite sign (2 ^ 52 + fraction) (biased - 1075) (Nat.add_pos_left (by decide) _) := by
  have hbiased : (BitVec.ofNat 11 biased).toNat = biased := Nat.mod_eq_of_lt (by omega)
  have hones : BitVec.ofNat 11 biased ≠ -1#11 := by
    intro heq
    have hnat := congrArg BitVec.toNat heq
    rw [hbiased] at hnat
    change biased = 2047 at hnat
    omega
  have hzero : BitVec.ofNat 11 biased ≠ 0#11 := by
    intro heq
    have hnat := congrArg BitVec.toNat heq
    rw [hbiased] at hnat
    change biased = 0 at hnat
    omega
  have hsignificand : (1#1 ++ BitVec.ofNat 52 fraction).toNat = 2 ^ 52 + fraction := by
    have hnat : (BitVec.ofNat 52 fraction).toNat = fraction := Nat.mod_eq_of_lt hfraction
    rw [BitVec.toNat_append, hnat, Nat.or_comm]
    exact (Nat.or_two_pow_eq_add_of_lt hfraction).trans (Nat.add_comm _ _)
  unfold UnpackedFloat.unpack
  dsimp only
  rw [UnpackedFloat.unpackExponent_packComponents, if_neg hones, if_neg hzero, sign_packComponents,
    UnpackedFloat.finite.injEq, UnpackedFloat.unpackMantissa_packComponents]
  refine ⟨rfl, hsignificand, ?_⟩
  rw [hbiased]
  rfl

/-- A double with a long significand keeps it. -/
theorem unpack_pack (sign : Sign) {significand : Nat} {exponent : Int}
    (h : Binary64.Normal significand exponent) (hpos : 0 < significand) :
    (Float.Model.pack (.finite sign significand exponent hpos)).unpack =
      .finite sign significand exponent hpos := by
  obtain ⟨hlong, hlt, hleast, hmost⟩ := h
  have hlog : significand.log2 = 52 := log2_eq hlong hlt
  have hbias : (exponent + Format.binary64.exponentBias + (52 : Nat)).toNat =
      (exponent + 1075).toNat := by
    change (exponent + 1023 + 52).toNat = _
    omega
  have hstored : ¬ 2 ^ Format.binary64.exponentBits ≤ (exponent + 1075).toNat + 1 := by
    change ¬ 2048 ≤ (exponent + 1075).toNat + 1
    omega
  have hfirst : BitVec.ofNat 52 significand = BitVec.ofNat 52 (significand - 2 ^ 52) := by
    apply BitVec.eq_of_toNat_eq
    rw [BitVec.toNat_ofNat, BitVec.toNat_ofNat]
    omega
  have hpacked : UnpackedFloat.pack Format.binary64 (.finite sign significand exponent hpos) =
      UnpackedFloat.packComponents Format.binary64 sign
        (BitVec.ofNat _ (exponent + 1075).toNat) (BitVec.ofNat _ (significand - 2 ^ 52)) := by
    have hbits : 52 + 1 = Format.binary64.mantissaBits := rfl
    unfold UnpackedFloat.pack
    dsimp only
    rw [hbias, if_neg hstored, hlog, if_pos hbits, hfirst]
  change UnpackedFloat.unpack Format.binary64 (UnpackedFloat.pack Format.binary64 _) = _
  rw [hpacked, unpack_packComponents sign (by omega) (by omega) (by omega),
    UnpackedFloat.finite.injEq]
  exact ⟨rfl, by omega, by omega⟩

/-! ## Whole numbers -/

/-- The exponent of a long significand is known from the size of the number. -/
theorem Binary64.Normal.exponent_bounds {m : Nat} {d a b : Int} (h : Normal m d)
    (hlow : (2 : Rat) ^ a ≤ m * 2 ^ d) (hhigh : (m : Rat) * 2 ^ d < 2 ^ b) :
    a - 53 < d ∧ d < b - 52 := by
  have hpower : (0 : Rat) < 2 ^ d := by positivity
  have hbase : (1 : Rat) < 2 := by norm_num
  constructor
  · have hlt : (2 : Rat) ^ a < 2 ^ (53 + d) := by
      have hshort : (m : Rat) < 2 ^ (53 : Int) := by exact_mod_cast h.lt
      rw [zpow_add₀ (by norm_num)]
      exact hlow.trans_lt (mul_lt_mul_of_pos_right hshort hpower)
    have := (zpow_lt_zpow_iff_right₀ hbase).mp hlt
    omega
  · have hlt : (2 : Rat) ^ (52 + d) < 2 ^ b := by
      have hlong : (2 : Rat) ^ (52 : Int) ≤ m := by exact_mod_cast h.long
      rw [zpow_add₀ (by norm_num)]
      exact (mul_le_mul_of_nonneg_right hlong hpower.le).trans_lt hhigh
    have := (zpow_lt_zpow_iff_right₀ hbase).mp hlt
    omega

/-- Whether a double is positive and has a long significand. -/
def IsNormal (x : Float) (significand : Nat) (exponent : Int) : Prop :=
  Binary64.Normal significand exponent ∧
    ∃ hpos, x.toModel.unpack = .finite .positive significand exponent hpos

variable {x y : Float} {m n : Nat} {d e : Int}

/-- A double with a long significand is finite. -/
theorem IsNormal.isFinite (h : IsNormal x m d) : x.isFinite = true := by
  obtain ⟨-, hpos, hunpack⟩ := h
  change x.toModel.unpack.isFinite = true
  rw [hunpack]
  rfl

/-- The value of a double with a long significand is that significand, scaled. -/
theorem IsNormal.exactValue (h : IsNormal x m d) : exactValue x = m * 2 ^ d := by
  obtain ⟨negative, significand, exponent, hvalue⟩ := exists_ofFloat_eq_finite h.isFinite
  obtain ⟨-, hpos, hunpack⟩ := h
  rw [unpack_of_ofFloat hvalue] at hunpack
  rcases significand.eq_zero_or_pos with rfl | hsome
  · rw [unpacked_zero] at hunpack
    cases hunpack
  · rw [unpacked_of_pos negative hsome, UnpackedFloat.finite.injEq] at hunpack
    obtain ⟨hsign, rfl, rfl⟩ := hunpack
    cases negative with
    | false => exact exactValue_of_ofFloat hvalue
    | true => cases hsign

/-- A number with at least fifty-three bits, rounded, is a double with a long significand. -/
theorem exists_isNormal {count rounded : Nat} {accuracy : Accuracy} (hlow : 2 ^ (52 + count) ≤ m)
    (hhigh : m < 2 ^ (53 + count)) (he : -1074 ≤ e) (hmost : e + count ≤ 970)
    (hrounded : (ExtendedMantissa.ofMantissaAndAccuracy m accuracy >>> count).roundedMantissa =
      rounded)
    (hx : x.toModel = .pack
      (UnpackedFloat.roundWithAccuracy Format.binary64 .positive m e accuracy)) :
    ∃ significand exponent, IsNormal x significand exponent ∧
      (significand : Rat) * 2 ^ exponent = rounded * 2 ^ (e + count) := by
  obtain ⟨significand, exponent, hpos, hround, hnormal, hvalue⟩ :=
    exists_roundWithAccuracy .positive hlow hhigh he hmost hrounded
  refine ⟨significand, exponent, ⟨hnormal, hpos, ?_⟩, hvalue⟩
  rw [hx, hround, unpack_pack _ hnormal]

/-- With zeros behind it a shorter number has exactly fifty-three bits. -/
theorem aligned_bounds (hpos : 0 < n) (hlog : n.log2 ≤ 52) :
    2 ^ 52 ≤ n * 2 ^ (52 - n.log2) ∧ n * 2 ^ (52 - n.log2) < 2 ^ 53 := by
  obtain ⟨hlow, hhigh⟩ := (Nat.log2_eq_iff (Nat.ne_of_gt hpos)).mp rfl
  have hpower : 2 ^ n.log2 * 2 ^ (52 - n.log2) = 2 ^ 52 := by
    rw [← Nat.pow_add, Nat.add_sub_cancel' hlog]
  constructor
  · rw [← hpower]
    exact Nat.mul_le_mul_right _ hlow
  · calc n * 2 ^ (52 - n.log2) < 2 ^ (n.log2 + 1) * 2 ^ (52 - n.log2) :=
          Nat.mul_lt_mul_of_pos_right hhigh (Nat.two_pow_pos _)
      _ = 2 * (2 ^ n.log2 * 2 ^ (52 - n.log2)) := by ring
      _ = 2 ^ 53 := by
          rw [hpower]
          norm_num

/-- A whole number of up to fifty-three bits is converted without rounding. -/
theorem exists_isNormal_toFloat (hpos : 0 < n) (hn : n < 2 ^ 53) :
    ∃ significand exponent, IsNormal n.toUInt64.toFloat significand exponent ∧
      (significand : Rat) * 2 ^ exponent = n := by
  have hlog : n.log2 < 53 := (Nat.log2_lt (Nat.ne_of_gt hpos)).mpr hn
  have htarget : Format.binary64.targetExponent (totalExponent n 0) = n.log2 - 52 := by
    rw [targetExponent_eq, totalExponent]
    omega
  have hshift : (0 - ((n.log2 : Int) - 52)).toNat = 52 - n.log2 := by omega
  have hexponent : 0 - ((52 - n.log2 : Nat) : Int) = n.log2 - 52 := by omega
  have hword : n.toUInt64.toNat = n := Nat.mod_eq_of_lt (by omega)
  have hcompare : compare (n : Int) 0 = .gt := Int.compare_eq_gt.mpr (by omega)
  have hmodel : n.toUInt64.toFloat.toModel = .pack (UnpackedFloat.roundWithAccuracy
      Format.binary64 .positive (n * 2 ^ (52 - n.log2)) (n.log2 - 52) .exact) := by
    change Float.Model.pack (UnpackedFloat.ofNat Format.binary64 n.toUInt64.toNat) = _
    rw [hword, UnpackedFloat.ofNat, UnpackedFloat.ofInt, UnpackedFloat.normalize, hcompare]
    dsimp only
    rw [Int.toNat_natCast, UnpackedFloat.round, htarget, UnpackedFloat.decreaseExponent, hshift,
      hexponent, Nat.shiftLeft_eq]
  obtain ⟨hlong, hshort⟩ : 2 ^ (52 + 0) ≤ n * 2 ^ (52 - n.log2) ∧
      n * 2 ^ (52 - n.log2) < 2 ^ (53 + 0) := aligned_bounds hpos (Nat.le_of_lt_succ hlog)
  obtain ⟨significand, exponent, hnormal, hvalue⟩ :=
    exists_isNormal hlong hshort (by omega) (by omega) rfl hmodel
  refine ⟨significand, exponent, hnormal, hvalue.trans ?_⟩
  have hunit : (2 : Rat) ^ (52 - n.log2) * 2 ^ ((n.log2 : Int) - 52 + (0 : Nat)) = 1 := by
    rw [← zpow_natCast, ← zpow_add₀ (by norm_num), ← zpow_zero (2 : Rat)]
    congr 1
    omega
  change ((n * 2 ^ (52 - n.log2) : Nat) : Rat) * 2 ^ ((n.log2 : Int) - 52 + (0 : Nat)) = n
  rw [Nat.cast_mul, Nat.cast_pow, Nat.cast_ofNat, mul_assoc, hunit, mul_one]

/-- One has a long significand. -/
theorem isNormal_one : IsNormal (Float.ofBits 0x3FF0000000000000) (2 ^ 52) (-52) :=
  ⟨⟨by decide, by decide, by decide, by decide⟩, by decide, rfl⟩

/-- Multiplying by one rounds nothing. -/
theorem exists_isNormal_mul_one (h : IsNormal x m d) (hd : -1022 ≤ d) (hd' : d ≤ 970) :
    ∃ significand exponent, IsNormal (x * Float.ofBits 0x3FF0000000000000) significand exponent ∧
      (significand : Rat) * 2 ^ exponent = m * 2 ^ d := by
  obtain ⟨⟨hlong, hlt, -, -⟩, hpos, hunpack⟩ := h
  obtain ⟨-, hone, hunit⟩ := isNormal_one
  have hmodel : (x * Float.ofBits 0x3FF0000000000000).toModel =
      .pack (UnpackedFloat.roundWithAccuracy Format.binary64 .positive (m * 2 ^ 52) (d + -52)
        .exact) := by
    change Float.Model.pack (UnpackedFloat.mul Format.binary64 x.toModel.unpack
      (Float.ofBits 0x3FF0000000000000).toModel.unpack) = _
    rw [hunpack, hunit]
    rfl
  have hrounded : (ExtendedMantissa.ofMantissaAndAccuracy (m * 2 ^ 52) .exact >>>
      52).roundedMantissa = m := by
    rw [shiftRight_mul_exact]
    rfl
  obtain ⟨significand, exponent, hnormal, hvalue⟩ :=
    exists_isNormal (by omega) (by omega) (by omega) (by omega) hrounded hmodel
  refine ⟨significand, exponent, hnormal, hvalue.trans ?_⟩
  congr 2
  omega

/-- A whole number of up to fifty-three bits is a double without any rounding. -/
theorem exists_isNormal_ofNat (hpos : 0 < n) (hn : n < 2 ^ 53) :
    ∃ significand exponent, IsNormal (Float.ofNat n) significand exponent ∧
      (significand : Rat) * 2 ^ exponent = n ∧ -53 < exponent ∧ exponent < 1 := by
  have hbounds {m : Nat} {d : Int} (h : Binary64.Normal m d) (hvalue : (m : Rat) * 2 ^ d = n) :
      -53 < d ∧ d < 1 := by
    refine h.exponent_bounds (a := 0) (b := 53) ?_ ?_
    · rw [hvalue, zpow_zero]
      exact_mod_cast hpos
    · rw [hvalue]
      exact_mod_cast hn
  have hfloat : Float.ofNat n = n.toUInt64.toFloat * Float.ofBits 0x3FF0000000000000 := by
    have hsmall : n < 2 ^ 53 ∧ 0 ≤ 22 := ⟨hn, by decide⟩
    change Float.ofScientific n false 0 = _
    rw [Float.ofScientific, dif_pos hsmall]
    rfl
  obtain ⟨m, d, hconverted, hvalue⟩ := exists_isNormal_toFloat hpos hn
  obtain ⟨hlow, hhigh⟩ := hbounds hconverted.1 hvalue
  obtain ⟨significand, exponent, hnormal, hproduct⟩ :=
    exists_isNormal_mul_one hconverted (by omega) (by omega)
  rw [hfloat]
  exact ⟨significand, exponent, hnormal, hproduct.trans hvalue,
    hbounds hnormal.1 (hproduct.trans hvalue)⟩

/-! ## Quotients -/

/-- A quotient of long significands has at most one bit too many. -/
theorem exists_quotient_bounds (hm : 2 ^ 52 ≤ m) (hm' : m < 2 ^ 53) (hn : 2 ^ 52 ≤ n)
    (hn' : n < 2 ^ 53) :
    ∃ count ≤ 1, 2 ^ (52 + count) ≤ m * 2 ^ 53 / n ∧ m * 2 ^ 53 / n < 2 ^ (53 + count) := by
  have hpos : 0 < n := by omega
  have hleast : 2 ^ 52 ≤ m * 2 ^ 53 / n := by
    rw [Nat.le_div_iff_mul_le hpos]
    omega
  have hmost : m * 2 ^ 53 / n < 2 ^ 54 := by
    rw [Nat.div_lt_iff_lt_mul hpos]
    omega
  by_cases hshort : m * 2 ^ 53 / n < 2 ^ 53
  · exact ⟨0, by decide, hleast, hshort⟩
  · exact ⟨1, le_rfl, Nat.le_of_not_lt hshort, hmost⟩

/-- A quotient is worked out with enough bits and then rounded. -/
theorem toModel_div (hx : IsNormal x m d) (hy : IsNormal y n e) (hleast : -1021 ≤ d - e) :
    ∃ accuracy, (x / y).toModel = .pack (UnpackedFloat.roundWithAccuracy Format.binary64 .positive
      (m * 2 ^ 53 / n) (d - e - 53) accuracy) := by
  obtain ⟨⟨hlong, hlt, -, -⟩, hpos, hunpack⟩ := hx
  obtain ⟨⟨hlong', hlt', -, -⟩, hpos', hunpack'⟩ := hy
  have htarget :
      min (d - e) (Format.binary64.targetExponent (totalExponent m d - totalExponent n e)) =
        d - e - 53 := by
    rw [targetExponent_eq, totalExponent, totalExponent, log2_eq hlong hlt, log2_eq hlong' hlt']
    omega
  have hshift : (d - e - (d - e - 53)).toNat = 53 := by omega
  have hcore : UnpackedFloat.divCore Format.binary64 m d n e = (m * 2 ^ 53 / n, d - e - 53,
      UnpackedFloat.accuracyOfFraction (m * 2 ^ 53 % n) n) := by
    rw [UnpackedFloat.divCore, htarget, hshift, Nat.shiftLeft_eq]
  refine ⟨UnpackedFloat.accuracyOfFraction (m * 2 ^ 53 % n) n, ?_⟩
  change Float.Model.pack (UnpackedFloat.div Format.binary64 x.toModel.unpack y.toModel.unpack) = _
  rw [hunpack, hunpack']
  change Float.Model.pack (UnpackedFloat.roundWithAccuracy Format.binary64 .positive
    (UnpackedFloat.divCore Format.binary64 m d n e).1
    (UnpackedFloat.divCore Format.binary64 m d n e).2.1
    (UnpackedFloat.divCore Format.binary64 m d n e).2.2) = _
  rw [hcore]

/-- Rounding adds a very small part to a number with at least fifty-three bits, at most. -/
theorem rounded_mul_le {quotient count rounded : Nat} (hlow : 2 ^ (52 + count) ≤ quotient)
    (hnext : rounded ≤ quotient / 2 ^ count + 1) :
    (rounded : Rat) * 2 ^ count ≤ quotient * (1 + 1 / 2 ^ 52) := by
  have hstep : (2 : Rat) ^ 52 * 2 ^ count ≤ quotient := by
    rw [Nat.pow_add] at hlow
    exact_mod_cast hlow
  have hrounded : (rounded : Rat) * 2 ^ count ≤ quotient + 2 ^ count := by
    have hnat : rounded * 2 ^ count ≤ quotient + 2 ^ count :=
      calc rounded * 2 ^ count ≤ (quotient / 2 ^ count + 1) * 2 ^ count :=
            Nat.mul_le_mul_right _ hnext
        _ = quotient / 2 ^ count * 2 ^ count + 2 ^ count := Nat.succ_mul _ _
        _ ≤ quotient + 2 ^ count := Nat.add_le_add_right (Nat.div_mul_le_self _ _) _
    exact_mod_cast hnat
  linarith

/-- A quotient exceeds the exact quotient by a very small part of it at most. -/
theorem exists_isNormal_div (hx : IsNormal x m d) (hy : IsNormal y n e) (hleast : -1021 ≤ d - e)
    (hmost : d - e ≤ 970) :
    ∃ significand exponent, IsNormal (x / y) significand exponent ∧
      (significand : Rat) * 2 ^ exponent ≤ exactValue x / exactValue y * (1 + 1 / 2 ^ 52) := by
  obtain ⟨accuracy, hmodel⟩ := toModel_div hx hy hleast
  obtain ⟨count, hcount, hlow, hhigh⟩ :=
    exists_quotient_bounds hx.1.long hx.1.lt hy.1.long hy.1.lt
  obtain ⟨significand, exponent, hnormal, hvalue⟩ :=
    exists_isNormal hlow hhigh (by omega) (by omega) rfl hmodel
  refine ⟨significand, exponent, hnormal, hvalue.trans_le ?_⟩
  have hnext := (roundedMantissa_bounds
    (ExtendedMantissa.ofMantissaAndAccuracy (m * 2 ^ 53 / n) accuracy >>> count)).2
  rw [mantissa_shiftRight, ofMantissaAndAccuracy_mantissa] at hnext
  rw [hx.exactValue, hy.exactValue]
  generalize (ExtendedMantissa.ofMantissaAndAccuracy (m * 2 ^ 53 / n) accuracy >>>
    count).roundedMantissa = rounded at hnext ⊢
  have hn : (0 : Rat) < n := by exact_mod_cast Nat.lt_of_lt_of_le (Nat.two_pow_pos 52) hy.1.long
  have hfloor : ((m * 2 ^ 53 / n : Nat) : Rat) * n ≤ m * 2 ^ 53 := by
    exact_mod_cast Nat.div_mul_le_self (m * 2 ^ 53) n
  generalize m * 2 ^ 53 / n = quotient at hlow hnext hfloor
  have hunit : (2 : Rat) ^ (d - e - 53) = 2 ^ d / 2 ^ e / 2 ^ 53 := by
    rw [zpow_sub₀ (by norm_num), zpow_sub₀ (by norm_num)]
    rfl
  have hpower : (0 : Rat) < 2 ^ (d - e - 53) := by positivity
  calc (rounded : Rat) * 2 ^ (d - e - 53 + count)
      = rounded * 2 ^ count * 2 ^ (d - e - 53) := by
        rw [zpow_add₀ (by norm_num), zpow_natCast]
        ring
    _ ≤ quotient * (1 + 1 / 2 ^ 52) * 2 ^ (d - e - 53) :=
        mul_le_mul_of_nonneg_right (rounded_mul_le hlow hnext) hpower.le
    _ ≤ m * 2 ^ 53 / n * (1 + 1 / 2 ^ 52) * 2 ^ (d - e - 53) := by
        have hle : (quotient : Rat) ≤ m * 2 ^ 53 / n := (le_div_iff₀ hn).mpr hfloor
        gcongr
    _ = m * 2 ^ d / (n * 2 ^ e) * (1 + 1 / 2 ^ 52) := by
        rw [hunit]
        field_simp

/-- A quotient of whole numbers is not negative and hardly exceeds the exact quotient. -/
theorem exactValue_ofNat_div (hmpos : 0 < m) (hm : m < 2 ^ 53) (hnpos : 0 < n) (hn : n < 2 ^ 53) :
    (Float.ofNat m / Float.ofNat n).isFinite = true ∧
      0 ≤ exactValue (Float.ofNat m / Float.ofNat n) ∧
      exactValue (Float.ofNat m / Float.ofNat n) ≤ m / n * (1 + 1 / 2 ^ 52) := by
  obtain ⟨_, d, hleft, hvalue, hlow, hhigh⟩ := exists_isNormal_ofNat hmpos hm
  obtain ⟨_, e, hright, hvalue', hlow', hhigh'⟩ := exists_isNormal_ofNat hnpos hn
  obtain ⟨significand, exponent, hnormal, hle⟩ :=
    exists_isNormal_div hleft hright (by omega) (by omega)
  rw [hleft.exactValue, hright.exactValue, hvalue, hvalue'] at hle
  rw [hnormal.exactValue]
  exact ⟨hnormal.isFinite, by positivity, hle⟩

end PodCosts.Number
