import PodCosts.Proofs.Number.Finite
import Mathlib.Algebra.Order.Field.Power
import Mathlib.Tactic.Ring
import Mathlib.Tactic.Linarith

/-!
# The order of doubles

Comparisons of finite doubles are comparisons of the numbers they stand for. A double is unpacked to
a significand that is as long as its exponent allows, so that the exponents alone decide wherever
they differ.
-/

namespace PodCosts.Number

open Float.Model (Format UnpackedFloat)
open Float.Model.UnpackedFloat (Sign)

/-- The significands that doubles have at an exponent: all fifty-three bits are used, except at the
smallest exponent. -/
structure Binary64.Canonical (significand : Nat) (exponent : Int) : Prop where
  lt : significand < 2 ^ 53
  least : -1074 ≤ exponent
  long : exponent = -1074 ∨ 2 ^ 52 ≤ significand

/-- A number with a sign. -/
def withSign (negative : Bool) (size : Rat) : Rat :=
  if negative then -size else size

/-- The number that a finite double stands for. -/
def exactValue (x : Float) : Rat :=
  (Binary64.ofFloat x).value?.getD 0

/-! ## Fields of a double -/

section Fields

variable (bits : BitVec Format.binary64.numBits)

/-- The exponent of a double is where it is in its bits. -/
theorem toNat_unpackExponent :
    (@UnpackedFloat.unpackExponent Format.binary64 bits).toNat =
      bits.toNat / 0x10000000000000 % 0x800 := by
  simp [UnpackedFloat.unpackExponent, Nat.shiftRight_eq_div_pow]

/-- The fraction of a double is where it is in its bits. -/
theorem toNat_unpackMantissa :
    (@UnpackedFloat.unpackMantissa Format.binary64 bits).toNat =
      bits.toNat % 0x10000000000000 := by
  simp [UnpackedFloat.unpackMantissa, Nat.shiftRight_eq_div_pow]

/-- The sign of a double is where it is in its bits. -/
theorem toNat_unpackSign :
    (@UnpackedFloat.unpackSign Format.binary64 bits).toNat =
      bits.toNat / 0x8000000000000000 % 2 := by
  change (bits.extractLsb 63 63).toNat = _
  simp [Nat.shiftRight_eq_div_pow]

end Fields

/-- The sign of an unpacked number. -/
def signOf (negative : Bool) : Sign :=
  if negative then .negative else .positive

/-- The first bit of a double tells whether it is negative. -/
theorem ofBitVec_unpackSign (bits : BitVec Format.binary64.numBits) :
    Sign.ofBitVec (@UnpackedFloat.unpackSign Format.binary64 bits) =
      signOf (bits.toNat / 0x8000000000000000 % 2 == 1) := by
  have hsign := toNat_unpackSign bits
  rcases Nat.mod_two_eq_zero_or_one (bits.toNat / 0x8000000000000000) with hbit | hbit
  · have hzero : @UnpackedFloat.unpackSign Format.binary64 bits = 0#1 :=
      BitVec.eq_of_toNat_eq (hsign.trans hbit)
    rw [hzero, hbit]
    rfl
  · have hone : @UnpackedFloat.unpackSign Format.binary64 bits = 1#1 :=
      BitVec.eq_of_toNat_eq (hsign.trans hbit)
    rw [hone, hbit]
    rfl

/-- What arithmetic unpacks a double to that stands for `significand * 2 ^ exponent`. -/
def unpacked (negative : Bool) (significand : Nat) (exponent : Int) : UnpackedFloat :=
  if h : significand = 0 then .zero (signOf negative)
  else .finite (signOf negative) significand exponent (Nat.pos_of_ne_zero h)

/-- A finite double is unpacked to the number it stands for. -/
theorem unpack_of_ofFloat {x : Float} {negative : Bool} {significand : Nat} {exponent : Int}
    (h : Binary64.ofFloat x = .finite negative significand exponent) :
    x.toModel.unpack = unpacked negative significand exponent := by
  have hbits : x.toBits.toNat = x.toModel.toBits.toBitVec.toNat := rfl
  rw [Binary64.ofFloat, hbits] at h
  rw [Float.Model.unpack]
  generalize x.toModel.toBits.toBitVec = bits at h ⊢
  unfold Binary64.ofBits at h
  dsimp only at h
  have hmantissa := toNat_unpackMantissa bits
  rw [← toNat_unpackExponent, ← hmantissa] at h
  unfold UnpackedFloat.unpack
  dsimp only
  rw [ofBitVec_unpackSign]
  split_ifs at h with hones hfraction hleast
  · have hnotOnes : @UnpackedFloat.unpackExponent Format.binary64 bits ≠ -1#_ :=
      fun heq => hones (congrArg BitVec.toNat heq)
    have hzero : @UnpackedFloat.unpackExponent Format.binary64 bits = 0#_ :=
      BitVec.eq_of_toNat_eq hleast
    obtain ⟨rfl, rfl, rfl⟩ := by simpa only [Binary64.finite.injEq] using h
    rw [if_neg hnotOnes, if_pos hzero, unpacked]
    by_cases hfraction : @UnpackedFloat.unpackMantissa Format.binary64 bits = 0#_
    · have hnone : (@UnpackedFloat.unpackMantissa Format.binary64 bits).toNat = 0 :=
        congrArg BitVec.toNat hfraction
      rw [dif_pos hfraction, dif_pos hnone]
    · have hsome : (@UnpackedFloat.unpackMantissa Format.binary64 bits).toNat ≠ 0 :=
        fun heq => hfraction (BitVec.eq_of_toNat_eq heq)
      rw [dif_neg hfraction, dif_neg hsome, UnpackedFloat.finite.injEq, hzero]
      exact ⟨rfl, rfl, rfl⟩
  · have hnotOnes : @UnpackedFloat.unpackExponent Format.binary64 bits ≠ -1#_ :=
      fun heq => hones (congrArg BitVec.toNat heq)
    have hnotZero : @UnpackedFloat.unpackExponent Format.binary64 bits ≠ 0#_ :=
      fun heq => hleast (congrArg BitVec.toNat heq)
    obtain ⟨rfl, rfl, rfl⟩ := by simpa only [Binary64.finite.injEq] using h
    rw [if_neg hnotOnes, if_neg hnotZero, unpacked, dif_neg (by omega),
      UnpackedFloat.finite.injEq]
    refine ⟨rfl, ?_, rfl⟩
    -- The leading bit, which is not stored, stands before the stored ones.
    rw [BitVec.toNat_append, Nat.or_comm]
    exact (Nat.or_two_pow_eq_add_of_lt (BitVec.isLt _)).trans (Nat.add_comm _ _)

/-- The significand of a double is as long as its exponent allows. -/
theorem canonical_of_ofFloat {x : Float} {negative : Bool} {significand : Nat} {exponent : Int}
    (h : Binary64.ofFloat x = .finite negative significand exponent) :
    Binary64.Canonical significand exponent := by
  unfold Binary64.ofFloat Binary64.ofBits at h
  dsimp only at h
  split_ifs at h with hones hfraction hleast
  · obtain ⟨-, rfl, rfl⟩ := by simpa only [Binary64.finite.injEq] using h
    exact ⟨by omega, by omega, .inl rfl⟩
  · obtain ⟨-, rfl, rfl⟩ := by simpa only [Binary64.finite.injEq] using h
    exact ⟨by omega, by simp only [Int.ofNat_eq_natCast]; omega, .inr (by omega)⟩

/-! ## Exact values -/

/-- The quotient that a fraction stands for. -/
def Fraction.ratio (size : Fraction) : Rat :=
  size.numerator / size.denominator

/-- The magnitude of a double is its significand scaled by a power of two. -/
theorem ratio_magnitude (significand : Nat) (exponent : Int) :
    (Binary64.magnitude significand exponent).ratio = significand * 2 ^ exponent := by
  rw [Fraction.ratio, Binary64.magnitude]
  push_cast
  cases exponent with
  | ofNat power => simp
  | negSucc power => simp [Int.neg_negSucc, zpow_negSucc, div_eq_mul_inv]

/-- A finite double stands for its magnitude with its sign. -/
theorem value?_finite (negative : Bool) (significand : Nat) (exponent : Int) :
    (Binary64.finite negative significand exponent).value? =
      some (withSign negative (significand * 2 ^ exponent)) := by
  rw [← ratio_magnitude]
  rfl

/-- The exact value of a finite double is its magnitude with its sign. -/
theorem exactValue_of_ofFloat {x : Float} {negative : Bool} {significand : Nat} {exponent : Int}
    (h : Binary64.ofFloat x = .finite negative significand exponent) :
    exactValue x = withSign negative (significand * 2 ^ exponent) := by
  rw [exactValue, h, value?_finite]
  rfl

/-- A number whose exponent is smaller is smaller, whatever its significand. -/
theorem scaled_lt_of_exponent_lt {m n : Nat} {d e : Int} (hm : Binary64.Canonical m d)
    (hn : Binary64.Canonical n e) (h : d < e) : (m : Rat) * 2 ^ d < n * 2 ^ e := by
  have hleast := hm.least
  have hlong : 2 ^ 52 ≤ n := hn.long.resolve_left (by omega)
  have hpower : (0 : Rat) < 2 ^ d := by positivity
  calc (m : Rat) * 2 ^ d < 2 ^ 53 * 2 ^ d := by
        have hshort : (m : Rat) < 2 ^ 53 := by exact_mod_cast hm.lt
        exact mul_lt_mul_of_pos_right hshort hpower
    _ = 2 ^ 52 * 2 ^ (d + 1) := by
        rw [zpow_add_one₀ (by norm_num)]
        ring
    _ ≤ n * 2 ^ (d + 1) := by
        have hcast : (2 ^ 52 : Rat) ≤ n := by exact_mod_cast hlong
        exact mul_le_mul_of_nonneg_right hcast (by positivity)
    _ ≤ n * 2 ^ e :=
        mul_le_mul_of_nonneg_left (zpow_le_zpow_right₀ (by norm_num) (by omega)) (by positivity)

/-- Exponents are compared first, and significands only where the exponents are equal. -/
theorem compare_scaled {m n : Nat} {d e : Int} (hm : Binary64.Canonical m d)
    (hn : Binary64.Canonical n e) :
    (compare d e).then (compare m n) = compare ((m : Rat) * 2 ^ d) (n * 2 ^ e) := by
  rcases lt_trichotomy d e with h | h | h
  · rw [compare_lt_iff_lt.mpr h, compare_lt_iff_lt.mpr (scaled_lt_of_exponent_lt hm hn h)]
    rfl
  · subst h
    have hpower : (0 : Rat) < 2 ^ d := by positivity
    have hmono : StrictMono fun k : Nat => (k : Rat) * 2 ^ d := fun j k hjk =>
      mul_lt_mul_of_pos_right (Nat.cast_lt.mpr hjk) hpower
    rw [compare_eq_iff_eq.mpr rfl, Ordering.eq_then]
    rw [← cmp_eq_compare, ← cmp_eq_compare]
    exact (hmono.cmp_map_eq m n).symm
  · rw [compare_gt_iff_gt.mpr h, compare_gt_iff_gt.mpr (scaled_lt_of_exponent_lt hn hm h)]
    rfl

/-- Without a significand a number is zero. -/
theorem unpacked_zero (negative : Bool) (exponent : Int) :
    unpacked negative 0 exponent = .zero (signOf negative) :=
  dif_pos rfl

/-- With a significand a number is not zero. -/
theorem unpacked_of_pos (negative : Bool) {significand : Nat} (h : 0 < significand)
    (exponent : Int) :
    unpacked negative significand exponent =
      .finite (signOf negative) significand exponent h :=
  dif_neg (Nat.ne_of_gt h)

/-- Comparing unpacked numbers compares what they stand for. -/
theorem compare_unpacked (a b : Bool) {m n : Nat} {d e : Int} (hm : Binary64.Canonical m d)
    (hn : Binary64.Canonical n e) :
    (unpacked a m d).compare (unpacked b n e) =
      some (compare (withSign a (m * 2 ^ d)) (withSign b (n * 2 ^ e))) := by
  have hpos {k : Nat} (hk : 0 < k) (c : Int) : (0 : Rat) < k * 2 ^ c := by positivity
  have hnone (negative : Bool) (c : Int) : withSign negative ((0 : Nat) * 2 ^ c) = 0 := by
    cases negative <;> simp [withSign]
  rcases m.eq_zero_or_pos with rfl | hmpos <;> rcases n.eq_zero_or_pos with rfl | hnpos
  · rw [unpacked_zero, unpacked_zero, hnone, hnone]
    exact congrArg some (compare_eq_iff_eq.mpr rfl).symm
  · have hright := hpos hnpos e
    rw [unpacked_zero, unpacked_of_pos b hnpos, hnone]
    cases b with
    | false => exact congrArg some (compare_lt_iff_lt.mpr hright).symm
    | true => exact congrArg some (compare_gt_iff_gt.mpr (neg_lt_zero.mpr hright)).symm
  · have hleft := hpos hmpos d
    rw [unpacked_zero, unpacked_of_pos a hmpos, hnone]
    cases a with
    | false => exact congrArg some (compare_gt_iff_gt.mpr hleft).symm
    | true => exact congrArg some (compare_lt_iff_lt.mpr (neg_lt_zero.mpr hleft)).symm
  · have hleft := hpos hmpos d
    have hright := hpos hnpos e
    rw [unpacked_of_pos a hmpos, unpacked_of_pos b hnpos]
    cases a with
    | false =>
        cases b with
        | false => exact congrArg some (compare_scaled hm hn)
        | true =>
            have hgt : -((n : Rat) * 2 ^ e) < m * 2 ^ d := by linarith
            exact congrArg some (compare_gt_iff_gt.mpr hgt).symm
    | true =>
        cases b with
        | false =>
            have hlt : -((m : Rat) * 2 ^ d) < n * 2 ^ e := by linarith
            exact congrArg some (compare_lt_iff_lt.mpr hlt).symm
        | true =>
            refine congrArg some ?_
            rw [compare_scaled hm hn, ← cmp_eq_compare, ← cmp_eq_compare, cmp_swap]
            have hanti : StrictAnti fun v : Rat => -v := fun _ _ => neg_lt_neg
            exact (hanti.cmp_map_eq _ _).symm

section Finite

variable {x y : Float} (hx : x.isFinite = true) (hy : y.isFinite = true)
include hx hy

/-- Comparing finite doubles compares what they stand for. -/
theorem compare_toModel :
    x.toModel.unpack.compare y.toModel.unpack =
      some (compare (exactValue x) (exactValue y)) := by
  obtain ⟨a, m, d, hleft⟩ := exists_ofFloat_eq_finite hx
  obtain ⟨b, n, e, hright⟩ := exists_ofFloat_eq_finite hy
  rw [unpack_of_ofFloat hleft, unpack_of_ofFloat hright, exactValue_of_ofFloat hleft,
    exactValue_of_ofFloat hright]
  exact compare_unpacked a b (canonical_of_ofFloat hleft) (canonical_of_ofFloat hright)

/-- A finite double is at most another one exactly where its value is. -/
theorem le_iff_exactValue_le : x ≤ y ↔ exactValue x ≤ exactValue y := by
  have hle : x ≤ y ↔ x.toModel.unpack.le y.toModel.unpack = true :=
    decide_eq_true_iff
  rw [hle, UnpackedFloat.le, compare_toModel hx hy, Option.any_some, Ordering.isLE_iff_ne_gt]
  exact compare_le_iff_le

/-- A finite double is less than another one exactly where its value is. -/
theorem lt_iff_exactValue_lt : x < y ↔ exactValue x < exactValue y := by
  have hlt : x < y ↔ x.toModel.unpack.lt y.toModel.unpack = true :=
    decide_eq_true_iff
  rw [hlt, UnpackedFloat.lt, compare_toModel hx hy, ← compare_lt_iff_lt]
  simp

/-- Finite doubles compare as equal exactly where their values are equal. -/
theorem beq_iff_exactValue_eq : (x == y) = true ↔ exactValue x = exactValue y := by
  have heq : (x == y) = (x.toModel.unpack.compare y.toModel.unpack == some .eq) := rfl
  rw [heq, compare_toModel hx hy, ← compare_eq_iff_eq]
  simp

end Finite

end PodCosts.Number
