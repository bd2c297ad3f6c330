import PodCosts.Json.Numeral
import PodCosts.Proofs.Number.Digits
import PodCosts.Proofs.Number.Finite

/-!
# Numerals of documents

The text of a numeral is read back part by part. The text of every number of a document is that of
a numeral, as long as the number is finite: both layouts of a double are, and so are whole numbers.
-/

namespace PodCosts

namespace Numeral

/-- The text of a power of ten. -/
def powerChars : Option (Bool × List Char) → List Char
  | none => []
  | some (negative, digits) => 'e' :: (if negative then '-' else '+') :: digits

/-- The text of the digits behind the point, with the point. -/
def fractionChars : List Char → List Char
  | [] => []
  | c :: cs => '.' :: c :: cs

/-- The text of a numeral without its sign. -/
def sizeChars (numeral : Numeral) : List Char :=
  numeral.whole ++ (fractionChars numeral.fraction ++ powerChars numeral.power)

/-- The text of a numeral. -/
def chars (numeral : Numeral) : List Char :=
  if numeral.negative then '-' :: numeral.sizeChars else numeral.sizeChars

/-- The parts of a numeral are made of digits where they have to be, and no leading zero stands
before the point. -/
structure Canonical (numeral : Numeral) : Prop where
  isDigit_whole : ∀ c ∈ numeral.whole, c.isDigit = true
  whole_ne_nil : numeral.whole ≠ []
  length_whole : numeral.whole.head? = some '0' → numeral.whole.length = 1
  isDigit_fraction : ∀ c ∈ numeral.fraction, c.isDigit = true
  isDigit_power : ∀ power, numeral.power = some power → ∀ c ∈ power.2, c.isDigit = true
  power_ne_nil : ∀ power, numeral.power = some power → power.2 ≠ []

/-- A point stands in front of digits. -/
theorem fractionChars_of_ne_nil {fraction : List Char} (h : fraction ≠ []) :
    fractionChars fraction = '.' :: fraction := by
  cases fraction with
  | nil => exact absurd rfl h
  | cons c cs => rfl

section Reading

variable {digits rest : List Char}

/-- A run of digits ends where no digit follows. -/
theorem takeWhile_isDigit_append (hdigits : ∀ c ∈ digits, c.isDigit = true)
    (hrest : rest.takeWhile Char.isDigit = []) :
    (digits ++ rest).takeWhile Char.isDigit = digits := by
  rw [List.takeWhile_append_of_pos hdigits, hrest, List.append_nil]

/-- What follows a run of digits is left over. -/
theorem dropWhile_isDigit_append (hdigits : ∀ c ∈ digits, c.isDigit = true)
    (hrest : rest.takeWhile Char.isDigit = []) :
    (digits ++ rest).dropWhile Char.isDigit = rest := by
  have hsplit := List.takeWhile_append_dropWhile (p := Char.isDigit) (l := rest)
  rw [hrest, List.nil_append] at hsplit
  rw [List.dropWhile_append_of_pos hdigits, hsplit]

end Reading

/-- A power of ten does not begin with a digit. -/
theorem takeWhile_powerChars (power : Option (Bool × List Char)) :
    (powerChars power).takeWhile Char.isDigit = [] := by
  cases power with
  | none => rfl
  | some power => rfl

/-- What stands behind the whole part does not begin with a digit. -/
theorem takeWhile_fractionChars (fraction : List Char) (power : Option (Bool × List Char)) :
    (fractionChars fraction ++ powerChars power).takeWhile Char.isDigit = [] := by
  cases fraction with
  | nil => exact takeWhile_powerChars power
  | cons c cs => rfl

variable {numeral : Numeral}

/-- The text of a power of ten is read back. -/
theorem tailOfChars?_powerChars (hcanonical : numeral.Canonical) :
    tailOfChars? (powerChars numeral.power) = some numeral.power := by
  cases hpower : numeral.power with
  | none => rfl
  | some power =>
      obtain ⟨negative, digits⟩ := power
      have hdigits : digits.all Char.isDigit = true :=
        List.all_eq_true.mpr (hcanonical.isDigit_power _ hpower)
      have hnonempty : digits.isEmpty = false := by
        simpa using hcanonical.power_ne_nil _ hpower
      cases negative <;>
        simp [powerChars, tailOfChars?, powerOfChars?, powerOfChars?.check, hdigits, hnonempty]

/-- The text of a numeral does not begin like one of another sign. -/
theorem sizeChars_ne_minus (hcanonical : numeral.Canonical) :
    ∀ rest, numeral.sizeChars ≠ '-' :: rest := by
  intro rest hminus
  cases hwhole : numeral.whole with
  | nil => exact hcanonical.whole_ne_nil hwhole
  | cons c cs =>
      have hdigit := hcanonical.isDigit_whole c (by simp [hwhole])
      rw [sizeChars, hwhole, List.cons_append, List.cons.injEq] at hminus
      rw [hminus.1] at hdigit
      exact absurd hdigit (by decide)

/-- A text with a minus in front is that of a negative numeral. -/
theorem eq_of_chars_eq_minus (hcanonical : numeral.Canonical) {rest : List Char}
    (hminus : numeral.chars = '-' :: rest) :
    numeral.negative = true ∧ numeral.sizeChars = rest := by
  unfold chars at hminus
  split_ifs at hminus with hnegative
  · exact ⟨hnegative, (List.cons.inj hminus).2⟩
  · exact absurd hminus (sizeChars_ne_minus hcanonical rest)

/-- Any other text is that of a numeral without a sign. -/
theorem eq_of_chars_ne_minus (hother : ∀ rest, numeral.chars ≠ '-' :: rest) :
    numeral.negative = false ∧ numeral.sizeChars = numeral.chars := by
  unfold chars at hother ⊢
  cases hnegative : numeral.negative with
  | true => exact absurd (if_pos hnegative) (hother numeral.sizeChars)
  | false => exact ⟨rfl, (if_neg Bool.false_ne_true).symm⟩

/-- No leading zero is found before the point of a numeral. -/
theorem whole_accepted (hcanonical : numeral.Canonical) :
    (numeral.whole.isEmpty || (numeral.whole.head? == some '0' && 1 < numeral.whole.length)) =
      false := by
  have hnonempty : numeral.whole.isEmpty = false := by
    simpa using hcanonical.whole_ne_nil
  rw [hnonempty, Bool.false_or, Bool.and_eq_false_iff]
  by_cases hzero : numeral.whole.head? = some '0'
  · exact .inr (by simp [hcanonical.length_whole hzero])
  · exact .inl (by simpa using hzero)

/-- The text of a numeral is read back. -/
theorem ofChars?_chars (hcanonical : numeral.Canonical) :
    ofChars? numeral.chars = some numeral := by
  have hwhole : numeral.sizeChars.takeWhile Char.isDigit = numeral.whole :=
    takeWhile_isDigit_append hcanonical.isDigit_whole (takeWhile_fractionChars _ _)
  have hrest : numeral.sizeChars.dropWhile Char.isDigit =
      fractionChars numeral.fraction ++ powerChars numeral.power :=
    dropWhile_isDigit_append hcanonical.isDigit_whole (takeWhile_fractionChars _ _)
  have htail := tailOfChars?_powerChars hcanonical
  unfold ofChars?
  split
  rename_i negative cs hparts
  have hsign : numeral.negative = negative ∧ numeral.sizeChars = cs := by
    split at hparts
    · rename_i rest hminus
      obtain ⟨rfl, rfl⟩ := Prod.mk.inj hparts
      exact eq_of_chars_eq_minus hcanonical hminus
    · rename_i hother
      obtain ⟨rfl, rfl⟩ := Prod.mk.inj hparts
      exact eq_of_chars_ne_minus hother
  obtain ⟨rfl, rfl⟩ := hsign
  dsimp only
  rw [hwhole, hrest, whole_accepted hcanonical, if_neg (by decide)]
  cases hfraction : numeral.fraction with
  | nil =>
      rw [fractionChars, List.nil_append]
      split
      · rename_i rest hpoint
        cases hpower : numeral.power with
        | none => simp [hpower, powerChars] at hpoint
        | some power => simp [hpower, powerChars] at hpoint
      · rw [htail, Option.map_some, ← hfraction]
  | cons c cs =>
      have hdigits : ∀ d ∈ c :: cs, d.isDigit = true := hfraction ▸ hcanonical.isDigit_fraction
      have htake := takeWhile_isDigit_append hdigits (takeWhile_powerChars numeral.power)
      have hdrop := dropWhile_isDigit_append hdigits (takeWhile_powerChars numeral.power)
      change (if (((c :: cs) ++ powerChars numeral.power).takeWhile Char.isDigit).isEmpty then none
        else (tailOfChars? (((c :: cs) ++ powerChars numeral.power).dropWhile Char.isDigit)).map
          fun power => ⟨numeral.negative, numeral.whole,
            ((c :: cs) ++ powerChars numeral.power).takeWhile Char.isDigit, power⟩) = some numeral
      rw [htake, hdrop, htail, if_neg (by simp), Option.map_some, ← hfraction]

/-- The sign of a numeral does not matter for its form. -/
theorem Canonical.signed (hcanonical : numeral.Canonical) (negative : Bool) :
    Canonical { numeral with negative } :=
  ⟨hcanonical.isDigit_whole, hcanonical.whole_ne_nil, hcanonical.length_whole,
    hcanonical.isDigit_fraction, hcanonical.isDigit_power, hcanonical.power_ne_nil⟩

/-- The text of a numeral is that of its size with a sign. -/
theorem chars_signed (numeral : Numeral) (negative : Bool) :
    chars { numeral with negative } = (Number.signed negative numeral.sizeChars).toList := by
  rw [Number.signed, String.toList_ofList]
  rfl

/-- Every character of a numeral can stand in a numeral. -/
theorem isDigit_or_of_mem_chars (hcanonical : numeral.Canonical) {c : Char}
    (hc : c ∈ numeral.chars) :
    c.isDigit = true ∨ c = '-' ∨ c = '+' ∨ c = '.' ∨ c = 'e' := by
  have hsize : ∀ d ∈ numeral.sizeChars,
      d.isDigit = true ∨ d = '-' ∨ d = '+' ∨ d = '.' ∨ d = 'e' := by
    intro d hd
    rw [sizeChars, List.mem_append, List.mem_append] at hd
    obtain hwhole | hfraction | hpower := hd
    · exact .inl (hcanonical.isDigit_whole d hwhole)
    · cases hdigits : numeral.fraction with
      | nil => simp [hdigits, fractionChars] at hfraction
      | cons e es =>
          rw [hdigits, fractionChars, List.mem_cons] at hfraction
          obtain rfl | hdigit := hfraction
          · simp
          · exact .inl (hcanonical.isDigit_fraction d (hdigits ▸ hdigit))
    · cases hparts : numeral.power with
      | none => simp [hparts, powerChars] at hpower
      | some power =>
          rw [hparts, powerChars, List.mem_cons, List.mem_cons] at hpower
          obtain rfl | rfl | hdigit := hpower
          · simp
          · cases power.1 <;> simp
          · exact .inl (hcanonical.isDigit_power power hparts d hdigit)
  unfold chars at hc
  split_ifs at hc with hnegative
  · obtain rfl | hc := List.mem_cons.mp hc
    · simp
    · exact hsize c hc
  · exact hsize c hc

end Numeral

open Numeral (powerChars fractionChars)

namespace Number

/-- The text with or without a sign. -/
theorem exists_signed {digits : List Char} (negative : Bool)
    (h : ∃ numeral : Numeral, numeral.Canonical ∧ numeral.sizeChars = digits) :
    ∃ numeral : Numeral, numeral.Canonical ∧ numeral.chars = (signed negative digits).toList := by
  obtain ⟨numeral, hcanonical, rfl⟩ := h
  exact ⟨_, hcanonical.signed negative, Numeral.chars_signed numeral negative⟩

/-- Whole numbers are numerals. -/
theorem exists_sizeChars_digitChars (n : Nat) :
    ∃ numeral : Numeral, numeral.Canonical ∧ numeral.sizeChars = digitChars n := by
  refine ⟨⟨false, digitChars n, [], none⟩, ⟨fun c => isDigit_of_mem_digitChars,
    digitChars_ne_nil n, length_digitChars_of_head?, by simp, by simp, by simp⟩, ?_⟩
  simp [Numeral.sizeChars, fractionChars, powerChars]

/-- Digits with a point and a power of ten are numerals. -/
theorem exists_sizeChars_scientific (x : Decimal) :
    ∃ numeral : Numeral, numeral.Canonical ∧ numeral.sizeChars = x.scientific := by
  have hdigits := @isDigit_of_mem_digitChars x.digits
  obtain ⟨first, others, hsplit⟩ := List.exists_cons_of_ne_nil (digitChars_ne_nil x.digits)
  rw [hsplit] at hdigits
  refine ⟨⟨false, [first], others, some (decide (((digitChars x.digits).length : Int) +
      x.exponent - 1 < 0), digitChars (((digitChars x.digits).length : Int) +
      x.exponent - 1).natAbs)⟩, ⟨?_, by simp, by simp, ?_, ?_, ?_⟩, ?_⟩
  · intro c hc
    rw [List.mem_singleton.mp hc]
    exact hdigits List.mem_cons_self
  · exact fun c hc => hdigits (List.mem_cons_of_mem _ hc)
  · rintro power ⟨⟩ c hc
    exact isDigit_of_mem_digitChars hc
  · rintro power ⟨⟩
    exact digitChars_ne_nil _
  · unfold Decimal.scientific Numeral.sizeChars
    dsimp only
    rw [hsplit]
    cases others with
    | nil => simp [fractionChars, powerChars]
    | cons second others => simp [fractionChars, powerChars]

/-- Zeros are digits. -/
theorem isDigit_of_mem_replicate_zero {n : Nat} {c : Char} (hc : c ∈ List.replicate n '0') :
    c.isDigit = true := by
  rw [(List.mem_replicate.mp hc).2]
  rfl

/-- Digits with a point are numerals without a power of ten, unless they are zero with zeros behind
it. -/
theorem exists_sizeChars_positional {x : Decimal} (hzero : x.digits = 0 → x.exponent = 0) :
    ∃ numeral : Numeral, numeral.Canonical ∧ numeral.sizeChars = x.positional ['.', '0'] ∧
      numeral.fraction ≠ [] ∧ numeral.power = none := by
  have hdigits := @isDigit_of_mem_digitChars x.digits
  have hnonempty := digitChars_ne_nil x.digits
  have hhead : (digitChars x.digits).head? = some '0' →
      (digitChars x.digits).length = 1 ∧ x.exponent = 0 := by
    intro h
    refine ⟨length_digitChars_of_head? h, hzero ?_⟩
    by_contra hne
    exact head?_digitChars_ne hne h
  unfold Decimal.positional
  generalize digitChars x.digits = digits at hdigits hnonempty hhead
  dsimp only
  split_ifs with hsmall hwhole
  · -- All digits stand behind the point.
    refine ⟨⟨false, ['0'],
      List.replicate (-((digits.length : Int) + x.exponent)).toNat '0' ++ digits, none⟩,
      ⟨by simp, by simp, by simp, ?_, by simp, by simp⟩, ?_, ?_, rfl⟩
    · exact List.forall_mem_append.mpr ⟨fun c => isDigit_of_mem_replicate_zero, fun c => hdigits⟩
    · simp [Numeral.sizeChars, powerChars, Numeral.fractionChars_of_ne_nil, hnonempty]
    · simp [hnonempty]
  · -- All digits stand before the point.
    refine ⟨⟨false, digits ++ List.replicate x.exponent.toNat '0', ['0'], none⟩,
      ⟨?_, by simp [hnonempty], ?_, by simp, by simp, by simp⟩, ?_, by simp, rfl⟩
    · exact List.forall_mem_append.mpr ⟨fun c => hdigits, fun c => isDigit_of_mem_replicate_zero⟩
    · intro h
      dsimp only at h ⊢
      rw [List.head?_append, Option.or_of_isSome (List.isSome_head?.mpr hnonempty)] at h
      obtain ⟨hlength, hexponent⟩ := hhead h
      simp [hlength, hexponent]
    · simp [Numeral.sizeChars, powerChars, fractionChars]
  · -- The point stands between two digits.
    have hpoint : (((digits.length : Int) + x.exponent).toNat : Int) =
        (digits.length : Int) + x.exponent := Int.toNat_of_nonneg (by omega)
    have hdrop : digits.drop ((digits.length : Int) + x.exponent).toNat ≠ [] := by
      rw [ne_eq, List.drop_eq_nil_iff]
      omega
    refine ⟨⟨false, digits.take ((digits.length : Int) + x.exponent).toNat,
      digits.drop ((digits.length : Int) + x.exponent).toNat, none⟩,
      ⟨fun c hc => hdigits (List.mem_of_mem_take hc), ?_, ?_,
        fun c hc => hdigits (List.mem_of_mem_drop hc), by simp, by simp⟩, ?_, hdrop, rfl⟩
    · simp only [ne_eq, List.take_eq_nil_iff, hnonempty, or_false]
      omega
    · intro h
      dsimp only at h
      rw [List.head?_take, if_neg (by omega)] at h
      have hexponent := (hhead h).2
      omega
    · simp [Numeral.sizeChars, powerChars, Numeral.fractionChars_of_ne_nil hdrop]

/-- A number that can stand in a document: a whole number or a finite double. -/
def Finite : Number → Prop
  | .int _ => True
  | .float value => value.isFinite = true

instance : DecidablePred Finite
  | .int _ => isTrue trivial
  | .float value => inferInstanceAs (Decidable (value.isFinite = true))

/-- The text of a whole number is its digits with a sign. -/
theorem text_int (value : Int) :
    text (.int value) = signed (decide (value < 0)) (digitChars value.natAbs) := by
  cases value with
  | ofNat size => rfl
  | negSucc size =>
      have htext : text (.int (Int.negSucc size)) = "-" ++ Nat.repr (size + 1) := rfl
      have hdigits : (Int.negSucc size).natAbs = size + 1 := rfl
      rw [htext, hdigits, signed, if_pos (by simp), ← String.toList_inj, String.toList_append]
      simp [digitChars]

/-- The text of a finite number is that of a numeral. -/
theorem exists_numeral {number : Number} (h : number.Finite) :
    ∃ numeral : Numeral, numeral.Canonical ∧ numeral.chars = number.text.toList := by
  cases number with
  | int value =>
      rw [text_int]
      exact exists_signed _ (exists_sizeChars_digitChars value.natAbs)
  | float value =>
      obtain ⟨negative, significand, exponent, hvalue⟩ := exists_ofFloat_eq_finite h
      have htext : text (.float value) =
          signed negative (Layout.document.magnitude significand exponent) := by
        simp only [text, Layout.text, hvalue]
      rw [htext]
      refine exists_signed negative ?_
      unfold Layout.magnitude Layout.document
      dsimp only
      split_ifs
      · obtain ⟨numeral, hcanonical, hchars, -⟩ :=
          exists_sizeChars_positional Decimal.exponent_shortest
        exact ⟨numeral, hcanonical, hchars⟩
      · exact exists_sizeChars_scientific _

end Number

end PodCosts
