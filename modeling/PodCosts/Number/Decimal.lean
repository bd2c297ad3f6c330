import PodCosts.Number.Binary64
import PodCosts.Number.Rounding

/-!
# Decimal digits of a double

Two choices of digits. `Decimal.shortest` takes the fewest digits that read back to the double and,
among those, the nearest. `fixedPlaces` takes the digits up to a given place, rounded from the
exact value.
-/

namespace PodCosts.Number

/-- The number `digits * 10 ^ exponent`. -/
structure Decimal where
  digits : Nat
  exponent : Int
deriving DecidableEq

/-- Where an exactly halved last digit goes. -/
inductive Tie where
  | toEven
  | up
deriving DecidableEq

/-- The decimal digits of a natural number, the first one first. -/
def digitChars (n : Nat) : List Char :=
  Nat.toDigits 10 n

/-- The numbers that read back to one double, measured in quarters of its last binary place. -/
structure Neighbourhood where
  value : Nat
  least : Nat
  most : Nat
  /-- Whether the two ends belong to it. -/
  closed : Bool

/-- The numbers that round to `significand * 2 ^ exponent`. The gap below a power of two is half as
wide as the one above it, except at the smallest exponent. -/
def Neighbourhood.of (significand : Nat) (exponent : Int) : Neighbourhood :=
  let narrow := significand = 0x10000000000000 ∧ -1074 < exponent
  { value := 4 * significand
    least := if narrow then 4 * significand - 1 else 4 * significand - 2
    most := 4 * significand + 2
    closed := significand % 2 == 0 }

/-- How many digits stand before the decimal point of a fraction; zero or less below one tenth. -/
def Fraction.leading (x : Fraction) : Int :=
  let whole := x.numerator / x.denominator
  if whole = 0 then
    let rec skip : Nat → Nat → Nat → Int
      | 0, _, zeros => -(zeros : Int)
      | fuel + 1, scaled, zeros =>
        if x.denominator ≤ 10 * scaled then -(zeros : Int) else skip fuel (10 * scaled) (zeros + 1)
    skip 400 x.numerator 0
  else (digitChars whole).length

/-- The better of the two numbers around the double on the grid of multiples of `10 ^ place`, if
one of them reads back to it. Both sides are scaled to whole numbers first. -/
def Neighbourhood.onGrid? (near : Neighbourhood) (exponent place : Int) (tie : Tie) :
    Option Nat :=
  let unit := exponent - 2
  let grid := Nat.pow 10 place.toNat * Nat.pow 2 (-unit).toNat
  let scale := Nat.pow 2 unit.toNat * Nat.pow 10 (-place).toNat
  let value := near.value * scale
  let least := near.least * scale
  let most := near.most * scale
  let below := value / grid
  let reads (n : Nat) : Bool :=
    if near.closed then least ≤ n * grid && n * grid ≤ most
    else least < n * grid && n * grid < most
  let down := 0 < below && reads below
  let up := reads (below + 1)
  match down, up with
  | true, true =>
    let rest := value - below * grid
    if 2 * rest < grid then some below
    else if grid < 2 * rest then some (below + 1)
    else
      match tie with
      | .toEven => some (if below % 2 = 0 then below else below + 1)
      | .up => some (below + 1)
  | true, false => some below
  | false, true => some (below + 1)
  | false, false => none

/-- Drops trailing zero digits, which say nothing about the value. -/
def Decimal.trimmed (x : Decimal) : Decimal :=
  let zeros := ((digitChars x.digits).reverse.takeWhile (· == '0')).length
  if x.digits = 0 then ⟨0, 0⟩ else ⟨x.digits / Nat.pow 10 zeros, x.exponent + zeros⟩

/-- The fewest digits that read back to `significand * 2 ^ exponent`, and the nearest such number.
Seventeen digits always suffice. -/
def Decimal.shortest (significand : Nat) (exponent : Int) (tie : Tie) : Decimal :=
  if significand = 0 then ⟨0, 0⟩
  else
    let near := Neighbourhood.of significand exponent
    let leading := (Binary64.magnitude significand exponent).leading
    let attempt (count : Nat) : Option Decimal :=
      let place := leading - count
      (near.onGrid? exponent place tie).map fun digits => Decimal.trimmed ⟨digits, place⟩
    ((List.range' 1 17).findSome? attempt).getD ⟨0, 0⟩

/-- The digits of a fraction up to `places` places after the point, as one natural number. -/
def Fraction.scaledTo (x : Fraction) (places : Nat) : Nat :=
  roundDiv (x.numerator * Nat.pow 10 places) x.denominator

/-- The text of `scaled / 10 ^ places`: at least one digit, a point, and `places` digits. -/
def fixedPlaces (scaled places : Nat) : List Char :=
  let whole := scaled / Nat.pow 10 places
  let rest := scaled % Nat.pow 10 places
  let fraction := digitChars rest
  digitChars whole ++ '.' :: (List.replicate (places - fraction.length) '0' ++ fraction)

example : Decimal.shortest (3 * 2 ^ 51) (-52) .toEven = ⟨15, -1⟩ := by decide +kernel
example : Decimal.shortest 1 (-1074) .toEven = ⟨5, -324⟩ := by decide +kernel
example : fixedPlaces 2400 5 = "0.02400".toList := by decide +kernel

end PodCosts.Number
