/-!
# The civil calendar

Days are counted from the first of January 1970 and named by year, month and day in the Gregorian
rule, extended to every year before and after. `civilOfDay` and `dayOfCivil` go back and forth.
-/

namespace PodCosts.Calendar

/-- A year, a month from 1 to 12, and a day of the month from 1. -/
structure Civil where
  year : Int
  month : Nat
  day : Nat
deriving DecidableEq

/-- Every fourth year has a leap day, but of the centuries only every fourth. -/
def isLeap (year : Int) : Bool :=
  year % 4 == 0 && (year % 100 != 0 || year % 400 == 0)

/-- The lengths of the twelve months. -/
def monthLengths (leap : Bool) : List Nat :=
  [31, if leap then 29 else 28, 31, 30, 31, 30, 31, 31, 30, 31, 30, 31]

/-- The length of a month, zero for a month that does not exist. -/
def monthLength (year : Int) (month : Nat) : Nat :=
  if month = 0 then 0 else (monthLengths (isLeap year)).getD (month - 1) 0

/-- The number of the day on which a year begins. -/
def yearStart (year : Int) : Int :=
  365 * (year - 1970) + ((year - 1) / 4 - (year - 1) / 100 + (year - 1) / 400 - 477)

/-- How many days of the year lie before a month. -/
def daysBefore (leap : Bool) (month : Nat) : Nat :=
  ((monthLengths leap).take (month - 1)).foldr (· + ·) 0

/-- The number of the day on which a month begins. -/
def monthStart (year : Int) (month : Nat) : Int :=
  yearStart year + daysBefore (isLeap year) month

/-- The number of a day. -/
def dayOfCivil (date : Civil) : Int :=
  monthStart date.year date.month + ((date.day : Int) - 1)

/-- The year a day lies in. An average year has `146097 / 400` days, and the year found with that
length is at most one off. -/
def yearOfDay (day : Int) : Int :=
  let guess := 1970 + day * 400 / 146097
  if day < yearStart guess then guess - 1
  else if yearStart (guess + 1) ≤ day then guess + 1
  else guess

/-- Walks through the months from `month` on with `rest` days to go, and gives the month and the day
in it, counted from one. -/
def walkMonths : List Nat → Nat → Nat → Nat × Nat
  | [], month, rest => (month, rest + 1)
  | length :: lengths, month, rest =>
    if rest < length then (month, rest + 1) else walkMonths lengths (month + 1) (rest - length)

/-- The name of a day. -/
def civilOfDay (day : Int) : Civil :=
  let year := yearOfDay day
  let (month, dayOfMonth) := walkMonths (monthLengths (isLeap year)) 1 (day - yearStart year).toNat
  ⟨year, month, dayOfMonth⟩

/-- The years that have a name in timestamps. -/
def yearInRange (year : Int) : Bool :=
  -262143 ≤ year && year ≤ 262142

/-- The day with a given name, if the month has such a day and the year is in range. -/
def dayOfCivil? (date : Civil) : Option Int :=
  if yearInRange date.year && 1 ≤ date.day && date.day ≤ monthLength date.year date.month then
    some (dayOfCivil date)
  else none

/-- A year is as long as its leap rule says. -/
theorem yearStart_succ (year : Int) :
    yearStart (year + 1) = yearStart year + if isLeap year then 366 else 365 := by
  unfold yearStart
  split
  · rename_i leap
    simp only [isLeap, Bool.and_eq_true, Bool.or_eq_true, beq_iff_eq, bne_iff_ne] at leap
    omega
  · rename_i common
    simp only [isLeap, Bool.and_eq_true, Bool.or_eq_true, beq_iff_eq, bne_iff_ne] at common
    omega

/-- Whole years count the days of a cycle of four hundred years exactly. -/
theorem yearStart_bounds (year : Int) :
    146097 * (year - 1970) - 681 ≤ 400 * yearStart year ∧
      400 * yearStart year ≤ 146097 * (year - 1970) + 600 := by
  unfold yearStart
  omega

/-- A day lies in the year that is found for it. -/
theorem yearStart_yearOfDay (day : Int) :
    yearStart (yearOfDay day) ≤ day ∧ day < yearStart (yearOfDay day + 1) := by
  have cycle : 146097 * (day * 400 / 146097) ≤ day * 400 ∧
      day * 400 < 146097 * (day * 400 / 146097) + 146097 := by omega
  unfold yearOfDay
  dsimp only
  generalize day * 400 / 146097 = guess at cycle ⊢
  have before := yearStart_bounds (1970 + guess - 1)
  have after := yearStart_bounds (1970 + guess + 1 + 1)
  split
  · rw [Int.sub_add_cancel]
    omega
  · split <;> omega

example : civilOfDay 0 = ⟨1970, 1, 1⟩ ∧ civilOfDay (-1) = ⟨1969, 12, 31⟩ := by decide
example : dayOfCivil ⟨2000, 2, 29⟩ = 11016 ∧ civilOfDay 11016 = ⟨2000, 2, 29⟩ := by decide

end PodCosts.Calendar
