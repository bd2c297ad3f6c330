/-!
# Number operations

Billing and the evaluation of expressions use the same few operations on numbers. They are written
once, over any type that has these operations. Doubles are what the program computes with; rational
numbers say what the same formulas mean without rounding.
-/

namespace PodCosts

/-- The operations that billing and expressions use. -/
class Arithmetic (ν : Type) where
  ofInt : Int → ν
  sub : ν → ν → ν
  mul : ν → ν → ν
  div : ν → ν → ν
  /-- The smaller number; the first one of two equal numbers. -/
  least : ν → ν → ν
  /-- The greater number; the first one of two equal numbers. -/
  most : ν → ν → ν
  same : ν → ν → Bool

namespace Arithmetic

/-- Whether a number is zero, of either sign. -/
def isZero {ν : Type} [Arithmetic ν] (x : ν) : Bool :=
  same x (ofInt 0)

/-- Where one operand of `least` is not a number, the other one is the result. -/
def floatLeast (x y : Float) : Float :=
  if x.isNaN then y else if y < x then y else x

/-- Where one operand of `most` is not a number, the other one is the result. -/
def floatMost (x y : Float) : Float :=
  if x.isNaN then y else if x < y then y else x

instance : Arithmetic Float where
  ofInt := Float.ofInt
  sub := Float.sub
  mul := Float.mul
  div := Float.div
  least := floatLeast
  most := floatMost
  same := fun x y => x == y

instance : Arithmetic Rat where
  ofInt := fun n => (n : Rat)
  sub := fun x y => x - y
  mul := fun x y => x * y
  div := fun x y => x / y
  least := fun x y => if y < x then y else x
  most := fun x y => if x < y then y else x
  same := fun x y => x == y

end Arithmetic

end PodCosts
