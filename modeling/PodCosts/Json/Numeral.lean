import PodCosts.Json.Basic

/-!
# Numbers in documents

A numeral is read in two steps. Its digits are gathered into a whole number of 64 bits, together
with the power of ten it is to be scaled by; then the double nearest to that whole number is
multiplied or divided by a power of ten that is itself a double. Each step rounds, so the result can
lie one unit in the last place away from the double nearest to the numeral.
-/

namespace PodCosts

/-- The parts of a numeral as it is written. -/
structure Numeral where
  negative : Bool
  whole : List Char
  /-- The digits after the point; none without a point. -/
  fraction : List Char
  /-- Whether the power of ten is negative, and its digits. -/
  power : Option (Bool × List Char)

namespace Numeral

/-- A power of ten behind the letter `e`. -/
def powerOfChars? : List Char → Option (Bool × List Char)
  | '+' :: digits => check false digits
  | '-' :: digits => check true digits
  | digits => check false digits
where
  /-- Only digits, and at least one. -/
  check (negative : Bool) (digits : List Char) : Option (Bool × List Char) :=
    if digits.isEmpty || !digits.all Char.isDigit then none else some (negative, digits)

/-- What may follow the digits before and after the point. -/
def tailOfChars? : List Char → Option (Option (Bool × List Char))
  | [] => some none
  | c :: digits => if c = 'e' ∨ c = 'E' then (powerOfChars? digits).map some else none

/-- Reads a numeral: digits without a leading zero, then possibly a point with digits, then possibly
a power of ten. -/
def ofChars? (cs : List Char) : Option Numeral :=
  let (negative, cs) :=
    match cs with
    | '-' :: rest => (true, rest)
    | _ => (false, cs)
  let whole := cs.takeWhile Char.isDigit
  let rest := cs.dropWhile Char.isDigit
  if whole.isEmpty || (whole.head? == some '0' && 1 < whole.length) then none
  else
    match rest with
    | '.' :: rest =>
      let fraction := rest.takeWhile Char.isDigit
      if fraction.isEmpty then none
      else
        (tailOfChars? (rest.dropWhile Char.isDigit)).map fun power =>
          ⟨negative, whole, fraction, power⟩
    | _ => (tailOfChars? rest).map fun power => ⟨negative, whole, [], power⟩

/-- The greatest whole number that is gathered. -/
def greatest : Nat := 0xffffffffffffffff

/-- Digits gathered so far: the number, the power of ten to scale it by, and whether a digit has
already been left out because the number would have become too large. -/
structure Gathered where
  significand : Nat
  power : Int
  full : Bool

/-- Adds the value of a digit at the end of a whole number. -/
def shifted (significand : Nat) (c : Char) : Nat :=
  10 * significand + (c.toNat - '0'.toNat)

/-- A digit before the point. From the first one that does not fit on, digits only count. -/
def gatherWhole (held : Gathered) (c : Char) : Gathered :=
  let next := shifted held.significand c
  if held.full || greatest < next then ⟨held.significand, held.power + 1, true⟩
  else ⟨next, held.power, false⟩

/-- A digit after the point. From the first one that does not fit on, digits are dropped. -/
def gatherFraction (held : Gathered) (c : Char) : Gathered :=
  let next := shifted held.significand c
  if held.full || greatest < next then ⟨held.significand, held.power, true⟩
  else ⟨next, held.power - 1, false⟩

/-- The double nearest to a power of ten. -/
def tenTo (power : Nat) : Float :=
  Float.ofScientific 1 false power

/-- Divides by a power of ten, at most `10 ^ 308` at a time, until nothing is left to divide. -/
def dividedBy (x : Float) (power : Nat) : Float :=
  if power ≤ 308 then x / tenTo power
  else if x == 0 then x
  else dividedBy (x / tenTo 308) (power - 308)
termination_by power

/-- Scales a double by a power of ten; there is no result that is not finite. -/
def scaled? (x : Float) (power : Int) : Option Float :=
  if power < 0 then some (dividedBy x power.natAbs)
  else if power ≤ 308 then
    let product := x * tenTo power.toNat
    if product.isInf then none else some product
  else if x == 0 then some x
  else none

/-- The written power of ten. -/
def writtenPower : Option (Bool × List Char) → Int
  | none => 0
  | some (negative, digits) =>
    let size : Int := (digits.foldl shifted 0 : Nat)
    if negative then -size else size

/-- The whole number that is written, when it is one of up to 64 bits. A negative zero is not a
whole number. -/
def int? (numeral : Numeral) : Option Int :=
  if !numeral.fraction.isEmpty || numeral.power.isSome then none
  else
    let size := numeral.whole.foldl shifted 0
    if numeral.negative then
      if 0 < size ∧ size ≤ 0x8000000000000000 then some (-(size : Int)) else none
    else if size ≤ greatest then some (size : Int) else none

/-- The double that is written, if it is finite. -/
def float? (numeral : Numeral) : Option Float :=
  let whole := numeral.whole.foldl gatherWhole ⟨0, 0, false⟩
  let all := numeral.fraction.foldl gatherFraction ⟨whole.significand, whole.power, false⟩
  (scaled? (Float.ofNat all.significand) (all.power + writtenPower numeral.power)).map fun size =>
    if numeral.negative then -size else size

/-- The number that is written. A number too large for a double has no value. -/
def value? (numeral : Numeral) : Option Number :=
  match numeral.int? with
  | some value => some (.int value)
  | none => numeral.float?.map .float

end Numeral

end PodCosts
