import PodCosts.Json.Numeral

/-!
# Reading decimals exactly

Settings are read to the double nearest to what is written, in one rounding step.
-/

namespace PodCosts.Numeral

/-- The double nearest to `digits * 10 ^ power`. Far outside the range of doubles the answer is
known without computing the power. -/
def nearestTo (digits : Nat) (power : Int) : Float :=
  let size := ((Number.digitChars digits).length : Int) + power
  if digits = 0 ∨ size < -400 then 0
  else if 400 < size then Float.ofScientific 1 false 400
  else Float.ofScientific digits (power < 0) power.natAbs

/-- The double nearest to a numeral; an infinity if the numeral is too large for a double. -/
def nearest (numeral : Numeral) : Float :=
  let digits := (numeral.whole ++ numeral.fraction).foldl shifted 0
  let size := nearestTo digits (writtenPower numeral.power - numeral.fraction.length)
  if numeral.negative then -size else size

end PodCosts.Numeral
