import PodCosts.Time.Calendar
import Mathlib.Algebra.GroupWithZero.Nat
import Mathlib.Tactic.SplitIfs

/-!
# Names of days

The days of the calendar are named one after another: the name of a day is a date of its month, the
dates of a month follow each other, and behind the last one comes the first of the next month. Every
date is the name of exactly one day.
-/

namespace PodCosts.Calendar

namespace Civil

/-- Whether a date exists. -/
structure Valid (date : Civil) : Prop where
  one_le_month : 1 ≤ date.month
  month_le : date.month ≤ 12
  one_le_day : 1 ≤ date.day
  day_le : date.day ≤ monthLength date.year date.month

/-- The date behind a date. -/
def next (date : Civil) : Civil :=
  if date.day < monthLength date.year date.month then ⟨date.year, date.month, date.day + 1⟩
  else if date.month < 12 then ⟨date.year, date.month + 1, 1⟩
  else ⟨date.year + 1, 1, 1⟩

end Civil

/-! ## Years -/

/-- Years begin in their order. -/
theorem yearStart_mono {year later : Int} (h : year ≤ later) :
    yearStart year ≤ yearStart later := by
  unfold yearStart
  omega

/-- A day lies in one year only. -/
theorem yearOfDay_eq {day year : Int} (hfrom : yearStart year ≤ day)
    (hbefore : day < yearStart (year + 1)) : yearOfDay day = year := by
  obtain ⟨hfound, hfoundBefore⟩ := yearStart_yearOfDay day
  rcases Int.lt_trichotomy (yearOfDay day) year with hless | heq | hmore
  · have := yearStart_mono (Int.add_one_le_of_lt hless)
    omega
  · exact heq
  · have := yearStart_mono (Int.add_one_le_of_lt hmore)
    omega

/-! ## Months -/

/-- The days before a month are those of the months before it. -/
theorem daysBefore_eq_sum (leap : Bool) (month : Nat) :
    daysBefore leap month = ((monthLengths leap).take (month - 1)).sum :=
  rfl

/-- The months of a year add up to the year. -/
theorem sum_monthLengths (leap : Bool) :
    ((monthLengths leap).sum : Int) = if leap then 366 else 365 := by
  cases leap <;> rfl

/-- The length of a month is the entry for it in the table of its year. -/
theorem monthLength_eq (year : Int) {month : Nat} (hmonth : 1 ≤ month) :
    monthLength year month = (monthLengths (isLeap year)).getD (month - 1) 0 :=
  if_neg (by omega)

/-- No month is empty or longer than 31 days. -/
theorem monthLength_bounds (year : Int) {month : Nat} (hfirst : 1 ≤ month) (hlast : month ≤ 12) :
    1 ≤ monthLength year month ∧ monthLength year month ≤ 31 := by
  have hall : ∀ leap, ∀ skipped < 12, 1 ≤ (monthLengths leap).getD skipped 0 ∧
      (monthLengths leap).getD skipped 0 ≤ 31 := by decide
  rw [monthLength_eq year hfirst]
  exact hall _ _ (by omega)

/-- A month ends where the next one begins, and the last month ends with the year. -/
theorem monthStart_add_monthLength (year : Int) {month : Nat} (hfirst : 1 ≤ month)
    (hlast : month ≤ 12) :
    monthStart year month + monthLength year month =
      if month < 12 then monthStart year (month + 1) else monthStart (year + 1) 1 := by
  have hall : ∀ leap, ∀ skipped < 12, daysBefore leap (skipped + 1) +
      (monthLengths leap).getD skipped 0 =
        if skipped + 1 < 12 then daysBefore leap (skipped + 2) else
          if leap then 366 else 365 := by decide
  have hyear : daysBefore (isLeap (year + 1)) 1 = 0 := rfl
  have hnext := hall (isLeap year) (month - 1) (by omega)
  rw [Nat.sub_add_cancel hfirst, show month - 1 + 2 = month + 1 by omega] at hnext
  rw [monthLength_eq year hfirst]
  by_cases hmonth : month < 12
  · rw [if_pos hmonth] at hnext ⊢
    rw [monthStart, monthStart, ← hnext]
    omega
  · rw [if_neg hmonth] at hnext ⊢
    rw [monthStart, monthStart, hyear, yearStart_succ]
    split_ifs at hnext ⊢ <;> omega

/-- A month ends within its year. -/
theorem monthEnd_le (year : Int) {month : Nat} (hfirst : 1 ≤ month) (hlast : month ≤ 12) :
    monthStart year month + monthLength year month ≤ yearStart (year + 1) := by
  have hall : ∀ leap, ∀ skipped < 12, daysBefore leap (skipped + 1) +
      (monthLengths leap).getD skipped 0 ≤ if leap then 366 else 365 := by decide
  have hend := hall (isLeap year) (month - 1) (by omega)
  rw [Nat.sub_add_cancel hfirst] at hend
  rw [monthLength_eq year hfirst, monthStart, yearStart_succ]
  split_ifs at hend ⊢ <;> omega

/-! ## Walking through months -/

/-- Days that fit into a row of months lie in one of them. -/
theorem exists_sum_take_add {lengths : List Nat} {days : Nat} (hdays : days < lengths.sum) :
    ∃ skipped < lengths.length, ∃ rest < lengths.getD skipped 0,
      days = (lengths.take skipped).sum + rest := by
  induction lengths generalizing days with
  | nil => cases hdays
  | cons length lengths ih =>
    by_cases hfits : days < length
    · exact ⟨0, Nat.zero_lt_succ _, days, hfits, (Nat.zero_add days).symm⟩
    · rw [List.sum_cons] at hdays
      have hfewer : days - length < lengths.sum := by omega
      obtain ⟨skipped, hskipped, rest, hrest, hsum⟩ := ih hfewer
      refine ⟨skipped + 1, Nat.succ_lt_succ hskipped, rest, hrest, ?_⟩
      rw [List.take_succ_cons, List.sum_cons]
      omega

/-- Walking stops in the month that the remaining days lie in. -/
theorem walkMonths_sum {lengths : List Nat} {skipped rest : Nat} (month : Nat)
    (hrest : rest < lengths.getD skipped 0) :
    walkMonths lengths month ((lengths.take skipped).sum + rest) = (month + skipped, rest + 1) := by
  induction lengths generalizing month skipped with
  | nil => simp at hrest
  | cons length lengths ih =>
    rw [walkMonths]
    cases skipped with
    | zero =>
      have hfits : rest < length := hrest
      rw [List.take_zero, List.sum_nil, Nat.zero_add, if_pos hfits]
      rfl
    | succ skipped =>
      rw [List.take_succ_cons, List.sum_cons, if_neg (by omega)]
      rw [Nat.add_assoc, Nat.add_sub_cancel_left, ih (month + 1) hrest]
      congr 1
      omega

/-! ## Dates and days -/

/-- The name of a day is a date, and it is the date of this day. -/
theorem civilOfDay_spec (day : Int) :
    (civilOfDay day).Valid ∧ dayOfCivil (civilOfDay day) = day := by
  obtain ⟨hfrom, hbefore⟩ := yearStart_yearOfDay day
  rw [yearStart_succ, ← sum_monthLengths] at hbefore
  have hdays : (day - yearStart (yearOfDay day)).toNat <
      (monthLengths (isLeap (yearOfDay day))).sum := by omega
  obtain ⟨skipped, hskipped, rest, hrest, hsum⟩ := exists_sum_take_add hdays
  have hlength : (monthLengths (isLeap (yearOfDay day))).length = 12 := rfl
  have hmonth : 1 + skipped - 1 = skipped := Nat.add_sub_cancel_left 1 skipped
  have hname : civilOfDay day = ⟨yearOfDay day, 1 + skipped, rest + 1⟩ := by
    rw [civilOfDay]
    dsimp only
    rw [hsum, walkMonths_sum 1 hrest]
  rw [hname]
  refine ⟨⟨Nat.le_add_right 1 skipped, ?_, Nat.succ_pos rest, ?_⟩, ?_⟩
  · change 1 + skipped ≤ 12
    omega
  · rw [monthLength_eq _ (Nat.le_add_right 1 skipped)]
    dsimp only
    rwa [hmonth]
  · rw [dayOfCivil, monthStart, daysBefore_eq_sum]
    dsimp only
    rw [hmonth]
    omega

/-- A date lies in its year. -/
theorem Civil.Valid.yearOfDay {date : Civil} (h : date.Valid) :
    yearOfDay (dayOfCivil date) = date.year := by
  refine yearOfDay_eq ?_ ?_
  · have hday := h.one_le_day
    rw [dayOfCivil, monthStart]
    omega
  · have hend := monthEnd_le date.year h.one_le_month h.month_le
    have hday := h.day_le
    rw [dayOfCivil]
    omega

/-- A date is the name of its day. -/
theorem civilOfDay_dayOfCivil {date : Civil} (h : date.Valid) :
    civilOfDay (dayOfCivil date) = date := by
  have hday := h.day_le
  have hpositive := h.one_le_day
  rw [monthLength_eq _ h.one_le_month] at hday
  have hrest : (dayOfCivil date - yearStart date.year).toNat =
      ((monthLengths (isLeap date.year)).take (date.month - 1)).sum + (date.day - 1) := by
    rw [dayOfCivil, monthStart, daysBefore_eq_sum]
    omega
  rw [civilOfDay, h.yearOfDay]
  dsimp only
  rw [hrest, walkMonths_sum 1 (by omega)]
  have hmonth : 1 + (date.month - 1) = date.month := Nat.add_sub_cancel' h.one_le_month
  have hdate : date.day - 1 + 1 = date.day := Nat.sub_add_cancel h.one_le_day
  rw [hmonth, hdate]

/-- A date has a date behind it. -/
theorem Civil.Valid.next {date : Civil} (h : date.Valid) :
    date.next.Valid ∧ dayOfCivil date.next = dayOfCivil date + 1 := by
  have hend := monthStart_add_monthLength date.year h.one_le_month h.month_le
  have hday := h.day_le
  unfold Civil.next
  split_ifs with hwithin hmonth
  · exact ⟨⟨h.one_le_month, h.month_le, Nat.succ_pos _, hwithin⟩, by simp only [dayOfCivil]; omega⟩
  · rw [if_pos hmonth] at hend
    refine ⟨⟨Nat.succ_pos _, hmonth, Nat.le_refl 1, ?_⟩, ?_⟩
    · exact (monthLength_bounds date.year (Nat.succ_pos date.month) hmonth).1
    · simp only [dayOfCivil]
      omega
  · rw [if_neg hmonth] at hend
    have htwelve : 1 ≤ 12 := by decide
    refine ⟨⟨Nat.le_refl 1, htwelve, Nat.le_refl 1, ?_⟩, ?_⟩
    · exact (monthLength_bounds (date.year + 1) (Nat.le_refl 1) htwelve).1
    · simp only [dayOfCivil]
      omega

/-- The day behind a day has the date behind its date. -/
theorem civilOfDay_succ (day : Int) : civilOfDay (day + 1) = (civilOfDay day).next := by
  obtain ⟨hdate, hday⟩ := civilOfDay_spec day
  obtain ⟨hvalid, hnext⟩ := hdate.next
  rw [← hday, ← hnext, civilOfDay_dayOfCivil hvalid, hday]

end PodCosts.Calendar
