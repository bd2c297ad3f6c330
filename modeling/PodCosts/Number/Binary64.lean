/-!
# Doubles as exact numbers

A finite double is a whole number of some power of two. Texts of numbers are chosen by exact
arithmetic on that view, never on rounded values.
-/

namespace PodCosts.Number

/-- What a double stands for: `significand * 2 ^ exponent` with a sign, or no finite number. -/
inductive Binary64 where
  | nan
  | infinity (negative : Bool)
  | finite (negative : Bool) (significand : Nat) (exponent : Int)
deriving DecidableEq

/-- A magnitude as a quotient of naturals. -/
structure Fraction where
  numerator : Nat
  denominator : Nat
deriving DecidableEq

namespace Binary64

/-- Takes the interchange format apart: one sign bit, eleven bits of exponent, fifty-two bits of
fraction. -/
def ofBits (bits : Nat) : Binary64 :=
  let negative := bits / 0x8000000000000000 % 2 == 1
  let biased : Nat := bits / 0x10000000000000 % 0x800
  let fraction : Nat := bits % 0x10000000000000
  if biased = 0x7ff then
    if fraction = 0 then .infinity negative else .nan
  else if biased = 0 then .finite negative fraction (-1074)
  else .finite negative (0x10000000000000 + fraction) (Int.ofNat biased - 1075)

/-- What a double stands for. -/
def ofFloat (x : Float) : Binary64 :=
  ofBits x.toBits.toNat

/-- The quotient `significand * 2 ^ exponent`. -/
def magnitude (significand : Nat) (exponent : Int) : Fraction :=
  ⟨significand * Nat.pow 2 exponent.toNat, Nat.pow 2 (-exponent).toNat⟩

/-- The number itself, when there is one. -/
def value? : Binary64 → Option Rat
  | .finite negative significand exponent =>
    let size := magnitude significand exponent
    let ratio : Rat := (size.numerator : Rat) / (size.denominator : Rat)
    some (if negative then -ratio else ratio)
  | _ => none

example : ofFloat 1.5 = .finite false (3 * 2 ^ 51) (-52) := by decide +kernel
example : ofFloat (-0.0) = .finite true 0 (-1074) := by decide +kernel
example : ofFloat (0.0 / 0.0) = .nan := by decide +kernel

end Binary64

end PodCosts.Number
