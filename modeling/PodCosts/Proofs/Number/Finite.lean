import PodCosts.Number.Binary64
import Mathlib.Tactic.SplitIfs

/-!
# Finite doubles

The doubles that arithmetic takes for finite are those that stand for a whole number of some power
of two.
-/

namespace PodCosts.Number

open Float.Model (Format UnpackedFloat)

/-- A double whose exponent has all its bits set is not finite. -/
theorem exponent_ne_of_isFinite {x : Float} (h : x.isFinite = true) :
    x.toBits.toNat / 0x10000000000000 % 0x800 ≠ 0x7ff := by
  intro hones
  have hmodel : x.toModel.toBits.toNat / 0x10000000000000 % 0x800 = 0x7ff := hones
  have hexponent :
      @UnpackedFloat.unpackExponent Format.binary64 x.toModel.toBits.toBitVec = -1#_ := by
    apply BitVec.eq_of_toNat_eq
    simpa [UnpackedFloat.unpackExponent, Nat.shiftRight_eq_div_pow] using hmodel
  change UnpackedFloat.isFinite (if @UnpackedFloat.unpackExponent Format.binary64
    x.toModel.toBits.toBitVec = -1#_ then _ else _) = true at h
  rw [if_pos hexponent] at h
  split_ifs at h <;> cases h

/-- Every other double is finite. -/
theorem isFinite_of_exponent_ne {x : Float}
    (h : x.toBits.toNat / 0x10000000000000 % 0x800 ≠ 0x7ff) : x.isFinite = true := by
  have hexponent :
      @UnpackedFloat.unpackExponent Format.binary64 x.toModel.toBits.toBitVec ≠ -1#_ := by
    intro hones
    have hmodel : x.toModel.toBits.toNat / 0x10000000000000 % 0x800 = 0x7ff := by
      simpa [UnpackedFloat.unpackExponent, Nat.shiftRight_eq_div_pow] using
        congrArg BitVec.toNat hones
    exact h hmodel
  change UnpackedFloat.isFinite (if @UnpackedFloat.unpackExponent Format.binary64
    x.toModel.toBits.toBitVec = -1#_ then _ else _) = true
  rw [if_neg hexponent]
  by_cases hleast :
      @UnpackedFloat.unpackExponent Format.binary64 x.toModel.toBits.toBitVec = 0#_
  · rw [if_pos hleast]
    by_cases hzero :
        @UnpackedFloat.unpackMantissa Format.binary64 x.toModel.toBits.toBitVec = 0#_
    · rw [dif_pos hzero]
      rfl
    · rw [dif_neg hzero]
      rfl
  · rw [if_neg hleast]
    rfl

/-- A finite double is a whole number of some power of two. -/
theorem exists_ofFloat_eq_finite {x : Float} (h : x.isFinite = true) :
    ∃ negative significand exponent,
      Binary64.ofFloat x = .finite negative significand exponent := by
  unfold Binary64.ofFloat Binary64.ofBits
  dsimp only
  rw [if_neg (exponent_ne_of_isFinite h)]
  split_ifs <;> exact ⟨_, _, _, rfl⟩

/-- Only finite doubles are whole numbers of some power of two. -/
theorem isFinite_of_ofFloat_eq_finite {x : Float} {negative : Bool} {significand : Nat}
    {exponent : Int} (h : Binary64.ofFloat x = .finite negative significand exponent) :
    x.isFinite = true := by
  refine isFinite_of_exponent_ne fun hones => ?_
  unfold Binary64.ofFloat Binary64.ofBits at h
  dsimp only at h
  rw [if_pos hones] at h
  split_ifs at h

/-- A finite double is a number, and not an infinite one. -/
theorem isNaN_isInf_of_isFinite {x : Float} (h : x.isFinite = true) :
    x.isNaN = false ∧ x.isInf = false := by
  change UnpackedFloat.isFinite x.toModel.unpack = true at h
  change UnpackedFloat.isNaN x.toModel.unpack = false ∧
    UnpackedFloat.isInf x.toModel.unpack = false
  cases hx : x.toModel.unpack with
  | notANumber | infinity =>
      rw [hx] at h
      cases h
  | zero | finite => exact ⟨rfl, rfl⟩

end PodCosts.Number
