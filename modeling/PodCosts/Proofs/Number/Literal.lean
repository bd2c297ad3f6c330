import PodCosts.Proofs.Number.Fixed
import PodCosts.Proofs.Number.Order
import Mathlib.Algebra.Order.Field.Basic
import Mathlib.Tactic.FieldSimp
import Mathlib.Tactic.Positivity

/-!
# Literals of requests

A literal is a plain decimal fraction. Both kinds of literals stand for the double rounded to eleven
places: a whole number is written with fewer of them, but it has no more digits to lose. So literals
are as close as eleven places allow, exact on whole numbers, and in the order of the doubles.
-/

namespace PodCosts.Number

/-! ## Rounded quotients -/

/-- A smaller quotient is not rounded to a greater number. -/
theorem roundDiv_mono {n d n' d' : Nat} (hd : 0 < d) (hd' : 0 < d') (h : n * d' ≤ n' * d) :
    roundDiv n d ≤ roundDiv n' d' := by
  have hsplit := Nat.div_add_mod n d
  have hsplit' := Nat.div_add_mod n' d'
  have hfloor : n / d ≤ n' / d' := by
    rw [Nat.le_div_iff_mul_le hd']
    refine Nat.le_of_mul_le_mul_right ?_ hd
    calc n / d * d' * d = n / d * d * d' := Nat.mul_right_comm _ _ _
      _ ≤ n * d' := Nat.mul_le_mul_right _ (Nat.div_mul_le_self _ _)
      _ ≤ n' * d := h
  rcases Nat.lt_or_eq_of_le hfloor with hless | hsame
  · rcases roundDiv_eq_or n d with hround | hround <;>
      rcases roundDiv_eq_or n' d' with hround' | hround' <;> omega
  · -- With equal whole parts the rests have the order of the quotients.
    have hrest : n % d * d' ≤ n' % d' * d := by
      have hwhole : d * (n / d) * d' = d' * (n' / d') * d := by
        rw [hsame]
        ring
      have hsum : (d * (n / d) + n % d) * d' ≤ (d' * (n' / d') + n' % d') * d := by
        rwa [hsplit, hsplit']
      rw [Nat.add_mul, Nat.add_mul, hwhole] at hsum
      exact Nat.le_of_add_le_add_left hsum
    have hhalf (hle : 2 * (n' % d') ≤ d') : 2 * (n % d) ≤ d := by
      refine Nat.le_of_mul_le_mul_right ?_ hd'
      calc 2 * (n % d) * d' = 2 * (n % d * d') := Nat.mul_assoc _ _ _
        _ ≤ 2 * (n' % d' * d) := Nat.mul_le_mul_left _ hrest
        _ = 2 * (n' % d') * d := (Nat.mul_assoc _ _ _).symm
        _ ≤ d' * d := Nat.mul_le_mul_right _ hle
        _ = d * d' := Nat.mul_comm _ _
    have hbelow (hlt : 2 * (n' % d') < d') : 2 * (n % d) < d := by
      refine Nat.lt_of_mul_lt_mul_right (a := d') ?_
      calc 2 * (n % d) * d' = 2 * (n % d * d') := Nat.mul_assoc _ _ _
        _ ≤ 2 * (n' % d' * d) := Nat.mul_le_mul_left _ hrest
        _ = 2 * (n' % d') * d := (Nat.mul_assoc _ _ _).symm
        _ < d' * d := Nat.mul_lt_mul_of_pos_right hlt hd
        _ = d * d' := Nat.mul_comm _ _
    unfold roundDiv
    dsimp only
    rw [hsame]
    split_ifs <;> omega

/-- A quotient without a rest is not rounded. -/
theorem roundDiv_mul_self (q : Nat) {d : Nat} (hd : 0 < d) : roundDiv (q * d) d = q := by
  rw [roundDiv, Nat.mul_mod_left, Nat.mul_div_cancel _ hd]
  exact if_pos (by omega)

/-- The quotient of a fraction is not negative. -/
theorem Fraction.ratio_nonneg (size : Fraction) : 0 ≤ size.ratio :=
  div_nonneg (Nat.cast_nonneg _) (Nat.cast_nonneg _)

section Scaled

variable {size : Fraction} (hsize : 0 < size.denominator)
include hsize

/-- Fractions are rounded by at most half a unit of the last place. -/
theorem abs_scaledTo_sub_le (places : Nat) :
    |(size.scaledTo places : Rat) / 10 ^ places - size.ratio| ≤ 1 / (2 * 10 ^ places) := by
  obtain ⟨hleast, hmost⟩ := roundDiv_near (size.numerator * 10 ^ places) size.denominator hsize
  have hden : (0 : Rat) < size.denominator := by exact_mod_cast hsize
  have hpower : (0 : Rat) < 10 ^ places := by positivity
  have hleast' : 2 * ((size.numerator : Rat) * 10 ^ places) ≤
      2 * (size.scaledTo places * size.denominator) + size.denominator := by exact_mod_cast hleast
  have hmost' : 2 * ((size.scaledTo places : Rat) * size.denominator) ≤
      2 * (size.numerator * 10 ^ places) + size.denominator := by exact_mod_cast hmost
  have hdistance : (size.scaledTo places : Rat) / 10 ^ places - size.ratio =
      (size.scaledTo places * size.denominator - size.numerator * 10 ^ places) /
        (10 ^ places * size.denominator) := by
    rw [Fraction.ratio]
    field_simp
  rw [hdistance, abs_div, abs_of_pos (mul_pos hpower hden), div_le_div_iff₀ (by positivity)
    (by positivity), one_mul]
  have hnear : |(size.scaledTo places : Rat) * size.denominator - size.numerator * 10 ^ places| * 2
      ≤ size.denominator := by
    rw [← le_div_iff₀ (by norm_num), abs_le]
    constructor <;> linarith
  calc |(size.scaledTo places : Rat) * size.denominator - size.numerator * 10 ^ places| *
        (2 * 10 ^ places)
      = |(size.scaledTo places : Rat) * size.denominator - size.numerator * 10 ^ places| * 2 *
          10 ^ places := (mul_assoc _ _ _).symm
    _ ≤ size.denominator * 10 ^ places := mul_le_mul_of_nonneg_right hnear hpower.le
    _ = 10 ^ places * size.denominator := mul_comm _ _

/-- A fraction that has no further places is not rounded. -/
theorem scaledTo_of_integer {places : Nat} {n : Nat} (h : size.ratio * 10 ^ places = n) :
    size.scaledTo places = n := by
  have hden : (size.denominator : Rat) ≠ 0 := by exact_mod_cast hsize.ne'
  have hscaled : size.numerator * 10 ^ places = n * size.denominator := by
    have hcast : (size.numerator : Rat) * 10 ^ places = n * size.denominator := by
      rw [← h, Fraction.ratio]
      field_simp
    exact_mod_cast hcast
  change roundDiv (size.numerator * 10 ^ places) size.denominator = n
  rw [hscaled, roundDiv_mul_self _ hsize]

/-- The order of fractions is kept. -/
theorem scaledTo_mono {other : Fraction} (hother : 0 < other.denominator) (places : Nat)
    (h : size.ratio ≤ other.ratio) : size.scaledTo places ≤ other.scaledTo places := by
  have hden : (0 : Rat) < size.denominator := by exact_mod_cast hsize
  have hden' : (0 : Rat) < other.denominator := by exact_mod_cast hother
  have hcross : size.numerator * other.denominator ≤ other.numerator * size.denominator := by
    rw [Fraction.ratio, Fraction.ratio, div_le_div_iff₀ hden hden'] at h
    exact_mod_cast h
  refine roundDiv_mono hsize hother ?_
  calc size.numerator * 10 ^ places * other.denominator
      = size.numerator * other.denominator * 10 ^ places := Nat.mul_right_comm _ _ _
    _ ≤ other.numerator * size.denominator * 10 ^ places := Nat.mul_le_mul_right _ hcross
    _ = other.numerator * 10 ^ places * size.denominator := Nat.mul_right_comm _ _ _

/-- A fraction is not rounded if and only if it has no further places. -/
theorem scaledTo_div_eq_iff (places : Nat) :
    (size.scaledTo places : Rat) / 10 ^ places = size.ratio ↔
      ∃ n : Nat, size.ratio * 10 ^ places = n := by
  have hpower : (10 : Rat) ^ places ≠ 0 := by positivity
  rw [div_eq_iff hpower]
  constructor
  · exact fun hexact => ⟨_, hexact.symm⟩
  · rintro ⟨n, hn⟩
    rw [scaledTo_of_integer hsize hn, hn]

/-- With the places of its literal, a fraction is what it is with eleven places. -/
theorem scaledTo_literalPlaces :
    (size.scaledTo (literalPlaces size) : Rat) / 10 ^ literalPlaces size =
      (size.scaledTo 11 : Rat) / 10 ^ 11 := by
  unfold literalPlaces
  split_ifs with hshort
  · obtain ⟨whole, hwhole⟩ := Nat.dvd_of_mod_eq_zero hshort.1
    have hexact (places : Nat) : size.scaledTo places = whole * 10 ^ places := by
      refine scaledTo_of_integer hsize ?_
      have hden : (size.denominator : Rat) ≠ 0 := by exact_mod_cast hsize.ne'
      rw [Fraction.ratio, hwhole]
      push_cast
      field_simp
    rw [hexact, hexact]
    push_cast
    norm_num
  · rfl

end Scaled

/-! ## Literals -/

/-- A sign stays in front of a product. -/
theorem withSign_mul (negative : Bool) (size factor : Rat) :
    withSign negative size * factor = withSign negative (size * factor) := by
  cases negative with
  | false => rfl
  | true => exact neg_mul size factor

/-- Numbers of the same sign are as far apart as their sizes. -/
theorem abs_withSign_sub (negative : Bool) (v w : Rat) :
    |withSign negative v - withSign negative w| = |v - w| := by
  cases negative with
  | false => rfl
  | true =>
      rw [withSign, withSign, if_pos rfl, if_pos rfl, neg_sub_neg, abs_sub_comm]

/-- Numbers of the same sign are equal where their sizes are. -/
theorem withSign_inj (negative : Bool) {v w : Rat} :
    withSign negative v = withSign negative w ↔ v = w := by
  cases negative with
  | false => exact Iff.rfl
  | true => exact neg_inj

/-- Numbers with a sign are whole where their sizes are. -/
theorem exists_withSign_eq_int_iff (negative : Bool) {v : Rat} (hv : 0 ≤ v) :
    (∃ n : Int, withSign negative v = n) ↔ ∃ n : Nat, v = n := by
  constructor
  · rintro ⟨n, hn⟩
    have hsize : v = n.natAbs := by
      rw [← abs_of_nonneg hv, Nat.cast_natAbs, Int.cast_abs, ← hn]
      cases negative with
      | false => rfl
      | true => exact (abs_neg v).symm
    exact ⟨_, hsize⟩
  · rintro ⟨n, rfl⟩
    refine ⟨if negative then -n else n, ?_⟩
    cases negative with
    | false => exact (Int.cast_natCast n).symm
    | true => exact (Int.cast_neg _ |>.trans (congrArg _ (Int.cast_natCast n))).symm

section Literal

variable {x : Float} {negative : Bool} {significand : Nat} {exponent : Int}

/-- The magnitude of a double does not divide by zero. -/
theorem denominator_magnitude_pos (significand : Nat) (exponent : Int) :
    0 < (Binary64.magnitude significand exponent).denominator :=
  Nat.pow_pos (by decide)

/-- Every literal stands for the double rounded to eleven places. -/
theorem literalValue_eq (h : Binary64.ofFloat x = .finite negative significand exponent) :
    literalValue x = withSign negative
      (((Binary64.magnitude significand exponent).scaledTo 11 : Rat) / 10 ^ 11) := by
  rw [← scaledTo_literalPlaces (denominator_magnitude_pos significand exponent), literalValue, h]
  rfl

end Literal

/-- A literal is at most half a unit of the eleventh place away from the double. -/
theorem abs_literalValue_sub_le {x : Float} (hx : x.isFinite = true) :
    |literalValue x - exactValue x| ≤ 5 / 10 ^ 12 := by
  obtain ⟨negative, significand, exponent, hvalue⟩ := exists_ofFloat_eq_finite hx
  rw [literalValue_eq hvalue, exactValue_of_ofFloat hvalue, abs_withSign_sub, ← ratio_magnitude]
  refine (abs_scaledTo_sub_le (denominator_magnitude_pos significand exponent) 11).trans ?_
  norm_num

/-- A literal is exact where the double has no further places. -/
theorem literalValue_eq_iff {x : Float} (hx : x.isFinite = true) :
    literalValue x = exactValue x ↔ ∃ n : Int, exactValue x * 10 ^ 11 = n := by
  obtain ⟨negative, significand, exponent, hvalue⟩ := exists_ofFloat_eq_finite hx
  have hden := denominator_magnitude_pos significand exponent
  have hnonneg : 0 ≤ (Binary64.magnitude significand exponent).ratio * 10 ^ 11 :=
    mul_nonneg (Fraction.ratio_nonneg _) (by norm_num)
  rw [literalValue_eq hvalue, exactValue_of_ofFloat hvalue, ← ratio_magnitude, withSign_inj,
    scaledTo_div_eq_iff hden, withSign_mul, exists_withSign_eq_int_iff negative hnonneg]

/-- Literals are in the order of the doubles. -/
theorem literalValue_mono {x y : Float} (hx : x.isFinite = true) (hy : y.isFinite = true)
    (h : x ≤ y) : literalValue x ≤ literalValue y := by
  obtain ⟨a, m, d, hleft⟩ := exists_ofFloat_eq_finite hx
  obtain ⟨b, n, e, hright⟩ := exists_ofFloat_eq_finite hy
  have hm := denominator_magnitude_pos m d
  have hn := denominator_magnitude_pos n e
  have hpower : (0 : Rat) < 10 ^ 11 := by norm_num
  have hsize (v : Nat) : (0 : Rat) ≤ v / 10 ^ 11 := by positivity
  rw [le_iff_exactValue_le hx hy, exactValue_of_ofFloat hleft, exactValue_of_ofFloat hright,
    ← ratio_magnitude, ← ratio_magnitude] at h
  rw [literalValue_eq hleft, literalValue_eq hright]
  cases a with
  | false =>
      cases b with
      | false =>
          have hle := scaledTo_mono hm hn 11 h
          exact div_le_div_of_nonneg_right (Nat.cast_le.mpr hle) hpower.le
      | true =>
          -- Only two zeros have their signs in this order.
          have hzero (size : Fraction) (hden : 0 < size.denominator) (hratio : size.ratio = 0) :
              size.scaledTo 11 = 0 :=
            scaledTo_of_integer hden (by rw [hratio, zero_mul, Nat.cast_zero])
          have hcompared : (Binary64.magnitude m d).ratio ≤ -(Binary64.magnitude n e).ratio := h
          have hleast := Fraction.ratio_nonneg (Binary64.magnitude m d)
          have hleast' := Fraction.ratio_nonneg (Binary64.magnitude n e)
          rw [hzero _ hm (by linarith), hzero _ hn (by linarith)]
          norm_num [withSign]
  | true =>
      cases b with
      | false => exact (neg_nonpos.mpr (hsize _)).trans (hsize _)
      | true =>
          have hge := scaledTo_mono hn hm 11 (neg_le_neg_iff.mp h)
          exact neg_le_neg (div_le_div_of_nonneg_right (Nat.cast_le.mpr hge) hpower.le)

/-- A literal is a plain decimal fraction. It is exact on whole numbers of any size and on every
other double that has no further places, at most half a unit of the eleventh place away from the
double, and in the order of the doubles. -/
theorem literalText_ordered {x : Float} (hx : x.isFinite = true) :
    (∃ negative whole fraction,
      literalText x = signed negative (whole ++ '.' :: fraction) ∧
      whole ≠ [] ∧ (∀ c ∈ whole, c.isDigit = true) ∧
      fraction ≠ [] ∧ ∀ c ∈ fraction, c.isDigit = true) ∧
    ∃ literal, ofLiteralText? (literalText x) = some literal ∧
      (∀ n : Int, exactValue x = n → literal = exactValue x) ∧
      (literal = exactValue x ↔ ∃ n : Int, exactValue x * 10 ^ 11 = n) ∧
      |literal - exactValue x| ≤ 5 / 10 ^ 12 ∧
      ∀ y : Float, y.isFinite = true → x ≤ y →
        ∃ greater, ofLiteralText? (literalText y) = some greater ∧ literal ≤ greater := by
  have hexact := literalValue_eq_iff hx
  refine ⟨?_, literalValue x, ofLiteralText?_literalText hx, fun n hn => hexact.mpr ?_, hexact,
    abs_literalValue_sub_le hx, fun y hy hle =>
      ⟨literalValue y, ofLiteralText?_literalText hy, literalValue_mono hx hy hle⟩⟩
  · obtain ⟨negative, significand, exponent, hvalue⟩ := exists_ofFloat_eq_finite hx
    rw [literalText, hvalue]
    dsimp only
    generalize (Binary64.magnitude significand exponent).scaledTo _ = scaled
    generalize literalPlaces _ = places
    have hcanonical := canonical_fixedNumeral negative scaled places
    exact ⟨negative, _, fixedFraction scaled places, rfl, digitChars_ne_nil _,
      fun c => isDigit_of_mem_digitChars, fixedFraction_ne_nil scaled places,
      fun c => hcanonical.isDigit_fraction c⟩
  · exact ⟨n * 10 ^ 11, by rw [hn]; push_cast; ring⟩

/-- A carry into the whole digits: the smaller double has the longer literal, of the same value. -/
theorem literalText_ordered_carried :
    literalText 0.9999999999999 = "1.00000000000" ∧ literalText 1 = "1.0" ∧
      ∃ literal greater, ofLiteralText? (literalText 0.9999999999999) = some literal ∧
        ofLiteralText? (literalText 1) = some greater ∧ literal ≤ greater ∧
        |literal - exactValue 0.9999999999999| ≤ 5 / 10 ^ 12 := by
  obtain ⟨-, literal, hliteral, -, -, hnear, hordered⟩ :=
    literalText_ordered (x := 0.9999999999999) (by decide +kernel)
  obtain ⟨greater, hgreater, hle⟩ := hordered 1 (by decide +kernel) (by decide +kernel)
  exact ⟨by decide +kernel, by decide +kernel, literal, greater, hliteral, hgreater, hle, hnear⟩

end PodCosts.Number
