import PodCosts.Proofs.Json.Numeral
import Mathlib.Algebra.Field.Rat

/-!
# Values of literals

A literal of a request is written with a fixed number of places. Read as a decimal fraction, without
any rounding, it is the double rounded to these places.
-/

namespace PodCosts

namespace Numeral

/-- The number that is written, exactly. -/
def exact (numeral : Numeral) : Rat :=
  let digits : Nat := (numeral.whole ++ numeral.fraction).foldl shifted 0
  let size := (digits : Rat) * 10 ^ (writtenPower numeral.power - numeral.fraction.length)
  if numeral.negative then -size else size

end Numeral

namespace Number

/-- The number that the literal of a double stands for: the double rounded to the places of the
literal. Only finite doubles have a literal. -/
def literalValue (x : Float) : Rat :=
  match Binary64.ofFloat x with
  | .finite negative significand exponent =>
    let size := Binary64.magnitude significand exponent
    let places := literalPlaces size
    let value := (size.scaledTo places : Rat) / 10 ^ places
    if negative then -value else value
  | _ => 0

/-- The number that the text of a literal stands for. -/
def ofLiteralText? (text : String) : Option Rat :=
  (Numeral.ofChars? text.toList).map Numeral.exact

/-- The digits behind the point of a number with a fixed number of places. -/
def fixedFraction (scaled places : Nat) : List Char :=
  let digits := digitChars (scaled % Nat.pow 10 places)
  List.replicate (places - digits.length) '0' ++ digits

/-- The numeral of a number with a fixed number of places. -/
def fixedNumeral (negative : Bool) (scaled places : Nat) : Numeral :=
  ⟨negative, digitChars (scaled / Nat.pow 10 places), fixedFraction scaled places, none⟩

/-- There is a digit behind the point. -/
theorem fixedFraction_ne_nil (scaled places : Nat) : fixedFraction scaled places ≠ [] :=
  List.append_ne_nil_of_right_ne_nil _ (digitChars_ne_nil _)

/-- A number with a fixed number of places is written as a numeral. -/
theorem canonical_fixedNumeral (negative : Bool) (scaled places : Nat) :
    (fixedNumeral negative scaled places).Canonical := by
  refine ⟨fun c => isDigit_of_mem_digitChars, digitChars_ne_nil _, length_digitChars_of_head?,
    ?_, by simp [fixedNumeral], by simp [fixedNumeral]⟩
  intro c hc
  rcases List.mem_append.mp hc with hzero | hdigit
  · rw [List.eq_of_mem_replicate hzero]
    decide
  · exact isDigit_of_mem_digitChars hdigit

/-- The text of the numeral is the text of the number. -/
theorem chars_fixedNumeral (negative : Bool) (scaled places : Nat) :
    String.ofList (fixedNumeral negative scaled places).chars =
      signed negative (fixedPlaces scaled places) := by
  have hsize : (fixedNumeral negative scaled places).sizeChars = fixedPlaces scaled places := by
    rw [Numeral.sizeChars, fixedNumeral, Numeral.fractionChars_of_ne_nil (fixedFraction_ne_nil _ _),
      Numeral.powerChars, List.append_nil]
    rfl
  rw [Numeral.chars, hsize]
  rfl

/-- As many digits are written behind the point as there are places. -/
theorem length_fixedFraction (scaled : Nat) {places : Nat} (hplaces : 0 < places) :
    (fixedFraction scaled places).length = places := by
  have hlt : scaled % 10 ^ places < 10 ^ places := Nat.mod_lt _ (Nat.pow_pos (by decide))
  have hlength : (digitChars (scaled % 10 ^ places)).length ≤ places :=
    (Nat.length_toDigits_le_iff (by decide) hplaces).mpr hlt
  rw [fixedFraction, List.length_append, List.length_replicate]
  exact Nat.sub_add_cancel hlength

/-- All digits together are the number without its point. -/
theorem digits_fixedNumeral (scaled : Nat) {places : Nat} (hplaces : 0 < places) :
    (digitChars (scaled / Nat.pow 10 places) ++ fixedFraction scaled places).foldl
      Numeral.shifted 0 = scaled := by
  have hwhole : (digitChars (scaled / 10 ^ places)).foldl Numeral.shifted 0 =
      scaled / 10 ^ places := Nat.ofDigitChars_ten_toDigits
  have hrest : Nat.ofDigitChars 10 (fixedFraction scaled places) 0 = scaled % 10 ^ places := by
    rw [fixedFraction, Nat.ofDigitChars_append, Nat.ofDigitChars_replicate_zero, Nat.mul_zero]
    exact Nat.ofDigitChars_ten_toDigits
  calc (digitChars (scaled / 10 ^ places) ++ fixedFraction scaled places).foldl Numeral.shifted 0
      = (fixedFraction scaled places).foldl Numeral.shifted (scaled / 10 ^ places) := by
        rw [List.foldl_append, hwhole]
    _ = Nat.ofDigitChars 10 (fixedFraction scaled places) (scaled / 10 ^ places) := rfl
    _ = 10 ^ places * (scaled / 10 ^ places) + scaled % 10 ^ places := by
        rw [Nat.ofDigitChars_eq_ofDigitChars_zero, length_fixedFraction scaled hplaces, hrest]
    _ = scaled := Nat.div_add_mod _ _

/-- A number with a fixed number of places stands for its scaled value, divided by the scale. -/
theorem exact_fixedNumeral (negative : Bool) (scaled : Nat) {places : Nat} (hplaces : 0 < places) :
    (fixedNumeral negative scaled places).exact =
      if negative then -((scaled : Rat) / 10 ^ places) else (scaled : Rat) / 10 ^ places := by
  have hpower : (10 : Rat) ^ (Numeral.writtenPower none -
      ((fixedFraction scaled places).length : Int)) = (10 ^ places)⁻¹ := by
    rw [length_fixedFraction scaled hplaces, Numeral.writtenPower, zero_sub, zpow_neg, zpow_natCast]
  simp only [Numeral.exact, fixedNumeral, digits_fixedNumeral scaled hplaces, hpower,
    div_eq_mul_inv]

/-- The text of the literal of a finite double stands for the value of the literal. -/
theorem ofLiteralText?_literalText {x : Float} (hfinite : x.isFinite = true) :
    ofLiteralText? (literalText x) = some (literalValue x) := by
  obtain ⟨negative, significand, exponent, hx⟩ := exists_ofFloat_eq_finite hfinite
  have hplaces (size : Fraction) : 0 < literalPlaces size := by
    unfold literalPlaces
    split_ifs <;> decide
  simp only [literalText, literalValue, hx]
  rw [← chars_fixedNumeral, ofLiteralText?, String.toList_ofList,
    Numeral.ofChars?_chars (canonical_fixedNumeral _ _ _), Option.map_some,
    exact_fixedNumeral _ _ (hplaces _)]

end Number

end PodCosts
