import PodCosts.Number.Decimal
import Mathlib.Data.List.TakeWhile
import Mathlib.Tactic.SplitIfs

/-!
# Digits of natural numbers

Digits of a number are decimal digits without a leading zero. Shortest digits are zero only together
with a power of ten that is zero as well.
-/

namespace PodCosts.Number

/-- Every number has a digit. -/
theorem digitChars_ne_nil (n : Nat) : digitChars n ≠ [] :=
  Nat.toDigits_ne_nil

/-- The digits of a number are digits. -/
theorem isDigit_of_mem_digitChars {n : Nat} {c : Char} (hc : c ∈ digitChars n) :
    c.isDigit = true :=
  Nat.isDigit_of_mem_toDigits (by decide) (by decide) hc

/-- Only zero has a leading zero. -/
theorem head?_digitChars_ne {n : Nat} (hn : n ≠ 0) : (digitChars n).head? ≠ some '0' := by
  induction n using Nat.strongRecOn with
  | ind n ih =>
      rw [digitChars, Nat.toDigits_eq_if (by decide)]
      split_ifs with hsmall
      · rw [List.head?_cons, ne_eq, Option.some.injEq, Nat.digitChar_eq_zero]
        exact hn
      · have hrest := ih (n / 10) (by omega) (by omega)
        rw [digitChars] at hrest
        rwa [List.head?_append, Option.or_of_isSome]
        exact List.isSome_head?.mpr Nat.toDigits_ne_nil

/-- No digits but those of zero begin with a zero. -/
theorem length_digitChars_of_head? {n : Nat} (h : (digitChars n).head? = some '0') :
    (digitChars n).length = 1 := by
  by_cases hn : n = 0
  · subst hn
    rfl
  · exact absurd h (head?_digitChars_ne hn)

/-- The zeros at the end of the digits of a number other than zero are not all of its digits. -/
theorem length_trailing_zeros_lt {n : Nat} (hn : n ≠ 0) :
    ((digitChars n).reverse.takeWhile (· == '0')).length < (digitChars n).length := by
  refine Nat.lt_of_not_le fun hall => ?_
  have hprefix := List.takeWhile_prefix (l := (digitChars n).reverse) (· == '0')
  have hwhole : (digitChars n).reverse.takeWhile (· == '0') = (digitChars n).reverse :=
    hprefix.eq_of_length_le (by rwa [List.length_reverse])
  have hzeros : ∀ c ∈ digitChars n, c = '0' := by
    intro c hc
    rw [← List.mem_reverse, ← hwhole] at hc
    simpa using List.mem_takeWhile_imp hc
  cases hdigits : digitChars n with
  | nil => exact digitChars_ne_nil n hdigits
  | cons c cs =>
      have hfirst : c = '0' := hzeros c (by simp [hdigits])
      exact head?_digitChars_ne hn (by rw [hdigits, hfirst, List.head?_cons])

/-- Trimmed digits are zero only with the power zero. -/
theorem Decimal.exponent_trimmed {x : Decimal} (h : x.trimmed.digits = 0) :
    x.trimmed.exponent = 0 := by
  unfold Decimal.trimmed at h ⊢
  dsimp only at h ⊢
  split_ifs at h ⊢ with hzero
  · rfl
  · have hzeros := length_trailing_zeros_lt hzero
    have hsmall := (Nat.div_eq_zero_iff_lt (Nat.pow_pos (by decide))).mp h
    refine absurd hzeros (Nat.not_lt.mpr ?_)
    generalize ((digitChars x.digits).reverse.takeWhile (· == '0')).length = zeros at *
    cases zeros with
    | zero => omega
    | succ zeros => exact (Nat.length_toDigits_le_iff (by decide) (by omega)).mpr hsmall

/-- Shortest digits are zero or trimmed. -/
theorem Decimal.shortest_eq (significand : Nat) (exponent : Int) (tie : Tie) :
    Decimal.shortest significand exponent tie = ⟨0, 0⟩ ∨
      ∃ x : Decimal, Decimal.shortest significand exponent tie = x.trimmed := by
  unfold Decimal.shortest
  dsimp only
  split_ifs
  · exact .inl rfl
  · cases hfound : (List.range' 1 17).findSome? fun count : Nat =>
        ((Neighbourhood.of significand exponent).onGrid? exponent
          ((Binary64.magnitude significand exponent).leading - count) tie).map fun digits =>
            Decimal.trimmed ⟨digits, (Binary64.magnitude significand exponent).leading - count⟩ with
    | none => exact .inl rfl
    | some x =>
        obtain ⟨count, -, hcount⟩ := List.exists_of_findSome?_eq_some hfound
        obtain ⟨digits, -, rfl⟩ := Option.map_eq_some_iff.mp hcount
        exact .inr ⟨_, rfl⟩

/-- Shortest digits are zero only with the power zero. -/
theorem Decimal.exponent_shortest {significand : Nat} {exponent : Int} {tie : Tie}
    (h : (Decimal.shortest significand exponent tie).digits = 0) :
    (Decimal.shortest significand exponent tie).exponent = 0 := by
  obtain hzero | ⟨x, htrimmed⟩ := Decimal.shortest_eq significand exponent tie
  · rw [hzero]
  · rw [htrimmed] at h ⊢
    exact Decimal.exponent_trimmed h

end PodCosts.Number
