import PodCosts.Number.Decimal

/-!
# Texts of doubles

Three texts are written for a double. Documents carry the shortest digits, with a power of ten for
very small and very large numbers. Messages carry the shortest digits with every zero written out.
Requests carry a fixed number of places, so that every literal is a decimal fraction.
-/

namespace PodCosts.Number

/-- How shortest digits are written down. -/
structure Layout where
  /-- The least and greatest power of ten of a first digit that is written without an exponent;
  `none` when there never is an exponent. -/
  positional : Option (Int × Int)
  /-- What follows a whole number that is written without an exponent. -/
  wholeTail : List Char
  tie : Tie

/-- Numbers in documents: `1.0`, `0.00001`, `1e-6`, `1e+16`. -/
def Layout.document : Layout :=
  ⟨some (-5, 15), ['.', '0'], .toEven⟩

/-- Numbers in messages: `-3`, `0.0000001`, never an exponent. -/
def Layout.message : Layout :=
  ⟨none, [], .up⟩

/-- The text of a number that is not finite. -/
def infinityText (negative : Bool) : String :=
  if negative then "-inf" else "inf"

/-- Digits with a decimal point and all the zeros they need. -/
def Decimal.positional (x : Decimal) (wholeTail : List Char) : List Char :=
  let digits := digitChars x.digits
  let point := (digits.length : Int) + x.exponent
  if point ≤ 0 then '0' :: '.' :: (List.replicate (-point).toNat '0' ++ digits)
  else if 0 ≤ x.exponent then digits ++ List.replicate x.exponent.toNat '0' ++ wholeTail
  else digits.take point.toNat ++ '.' :: digits.drop point.toNat

/-- One digit before the point and a signed power of ten. -/
def Decimal.scientific (x : Decimal) : List Char :=
  let digits := digitChars x.digits
  let power := (digits.length : Int) + x.exponent - 1
  let fraction := if digits.length ≤ 1 then [] else '.' :: digits.drop 1
  let sign := if power < 0 then '-' else '+'
  digits.take 1 ++ fraction ++ 'e' :: sign :: digitChars power.natAbs

/-- The digits of a magnitude under a layout. -/
def Layout.magnitude (layout : Layout) (significand : Nat) (exponent : Int) : List Char :=
  let digits := Decimal.shortest significand exponent layout.tie
  let power := ((digitChars digits.digits).length : Int) + digits.exponent - 1
  match layout.positional with
  | none => digits.positional layout.wholeTail
  | some (least, greatest) =>
    if significand = 0 || (least ≤ power && power ≤ greatest) then
      digits.positional layout.wholeTail
    else digits.scientific

/-- A minus sign where one is due. -/
def signed (negative : Bool) (digits : List Char) : String :=
  String.ofList (if negative then '-' :: digits else digits)

/-- The shortest text of a double under a layout. -/
def Layout.text (layout : Layout) (x : Float) : String :=
  match Binary64.ofFloat x with
  | .nan => "NaN"
  | .infinity negative => infinityText negative
  | .finite negative significand exponent =>
    signed negative (layout.magnitude significand exponent)

/-- How many places a literal of a request has: one for a whole number below `10 ^ 15`, else
eleven, which is enough for prices per hour. -/
def literalPlaces (size : Fraction) : Nat :=
  if size.numerator % size.denominator = 0 ∧
      size.numerator / size.denominator < 1000000000000000 then 1
  else 11

/-- The text of a literal in a request. It always has a decimal point, so it is never taken for a
whole number. -/
def literalText (x : Float) : String :=
  match Binary64.ofFloat x with
  | .nan => "NaN"
  | .infinity negative => infinityText negative
  | .finite negative significand exponent =>
    let size := Binary64.magnitude significand exponent
    let places := literalPlaces size
    signed negative (fixedPlaces (size.scaledTo places) places)

example : Layout.document.text 0.1 = "0.1" ∧ Layout.document.text 1e16 = "1e+16" := by
  decide +kernel
example : Layout.document.text (-0.0) = "-0.0" ∧ Layout.document.text 1.5e-7 = "1.5e-7" := by
  decide +kernel
example : Layout.message.text (-3) = "-3" ∧ Layout.message.text 1e-7 = "0.0000001" := by
  decide +kernel
example : literalText 3600 = "3600.0" ∧ literalText 0.024 = "0.02400000000" := by decide +kernel

end PodCosts.Number
