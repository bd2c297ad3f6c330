import PodCosts.Proofs.Time.Civil
import PodCosts.Time.Instant

/-!
# The month an instant lies in

The first of a month is the last first of a month that is not after a day of it, and its midnight
rounds the instants of the month down. Between the two lie at most the thirty-one days that a month
can have.
-/

namespace PodCosts

namespace Calendar

/-- The first of the month is never after the day. -/
theorem monthStart_civilOfDay_le (day : Int) :
    monthStart (civilOfDay day).year (civilOfDay day).month ≤ day := by
  obtain ⟨hvalid, hname⟩ := civilOfDay_spec day
  have hpositive := hvalid.one_le_day
  rw [dayOfCivil] at hname
  omega

/-- A day is less than thirty-one days behind the first of its month. -/
theorem lt_monthStart_civilOfDay_add (day : Int) :
    day < monthStart (civilOfDay day).year (civilOfDay day).month + 31 := by
  obtain ⟨hvalid, hname⟩ := civilOfDay_spec day
  have hlast := hvalid.day_le
  have hlength := (monthLength_bounds (civilOfDay day).year hvalid.one_le_month hvalid.month_le).2
  rw [dayOfCivil] at hname
  omega

/-- The first day of a month is the day that the month starts with. -/
theorem dayOfCivil_first (year : Int) (month : Nat) :
    dayOfCivil ⟨year, month, 1⟩ = monthStart year month :=
  Int.add_zero _

/-- The first day of a month is a valid date. -/
theorem valid_first (year : Int) {month : Nat} (hfirst : 1 ≤ month) (hlast : month ≤ 12) :
    Civil.Valid ⟨year, month, 1⟩ :=
  ⟨hfirst, hlast, Nat.le_refl 1, (monthLength_bounds year hfirst hlast).1⟩

/-- The first of the month of a day has the name it should have. -/
theorem civilOfDay_monthStart (day : Int) :
    civilOfDay (monthStart (civilOfDay day).year (civilOfDay day).month) =
      ⟨(civilOfDay day).year, (civilOfDay day).month, 1⟩ := by
  have hvalid := (civilOfDay_spec day).1
  rw [← dayOfCivil_first]
  exact civilOfDay_dayOfCivil (valid_first _ hvalid.one_le_month hvalid.month_le)

/-- No first of a month lies between the first of the month of a day and the day. -/
theorem monthStart_le_of_le {year : Int} {month : Nat} {day : Int} (hfirst : 1 ≤ month)
    (hlast : month ≤ 12) (hle : monthStart year month ≤ day) :
    monthStart year month ≤ monthStart (civilOfDay day).year (civilOfDay day).month := by
  obtain ⟨hvalid, hname⟩ := civilOfDay_spec day
  refine Int.not_lt.mp fun hlater => ?_
  -- Otherwise it is a day of the same month, and so it has two dates.
  let date : Civil := ⟨(civilOfDay day).year, (civilOfDay day).month,
    (monthStart year month - monthStart (civilOfDay day).year (civilOfDay day).month).toNat + 1⟩
  have hday : dayOfCivil date = monthStart year month := by
    rw [dayOfCivil]
    dsimp only [date]
    omega
  have hdate : date.Valid := by
    refine ⟨hvalid.one_le_month, hvalid.month_le, Nat.succ_pos _, Nat.le_trans ?_ hvalid.day_le⟩
    rw [dayOfCivil] at hname
    dsimp only [date]
    omega
  have hsame : date = ⟨year, month, 1⟩ := by
    rw [← civilOfDay_dayOfCivil hdate, hday, ← dayOfCivil_first,
      civilOfDay_dayOfCivil (valid_first year hfirst hlast)]
  have hone : date.day = 1 := congrArg Civil.day hsame
  dsimp only [date] at hone
  omega

end Calendar

namespace Instant

/-! ## The order of instants -/

/-- Instants are in the order of their days, seconds and nanoseconds. -/
theorem le_iff {a b : Instant} :
    a ≤ b ↔ a.day < b.day ∨ a.day = b.day ∧
      (a.second < b.second ∨ a.second = b.second ∧ a.nano ≤ b.nano) := by
  change Instant.le a b = true ↔ _
  simp [Instant.le]

/-- The order of instants passes on. -/
theorem le_trans {a b c : Instant} (hab : a ≤ b) (hbc : b ≤ c) : a ≤ c := by
  rw [le_iff] at *
  omega

/-- A midnight is not after the instants of its day and of all later days. -/
theorem midnight_le_iff {day : Int} {moment : Instant} :
    midnight day ≤ moment ↔ day ≤ moment.day := by
  rw [le_iff]
  change day < moment.day ∨ day = moment.day ∧
    (0 < moment.second ∨ 0 = moment.second ∧ 0 ≤ moment.nano) ↔ day ≤ moment.day
  omega

/-! ## Beginnings of months -/

/-- A month starts no later than any instant in it. -/
theorem monthStart_le (moment : Instant) : moment.monthStart ≤ moment :=
  midnight_le_iff.mpr (Calendar.monthStart_civilOfDay_le moment.day)

/-- Of the beginnings of months, the last one that is not later. -/
theorem midnight_le_monthStart {year : Int} {month : Nat} {moment : Instant} (hfirst : 1 ≤ month)
    (hlast : month ≤ 12) (hle : midnight (Calendar.monthStart year month) ≤ moment) :
    midnight (Calendar.monthStart year month) ≤ moment.monthStart :=
  midnight_le_iff.mpr (Calendar.monthStart_le_of_le hfirst hlast (midnight_le_iff.mp hle))

/-- The start of a month is the start of its own month. -/
theorem monthStart_monthStart (moment : Instant) :
    moment.monthStart.monthStart = moment.monthStart := by
  have hdate := Calendar.civilOfDay_monthStart moment.day
  rw [monthStart, monthStart]
  change midnight (Calendar.monthStart (Calendar.civilOfDay (Calendar.monthStart _ _)).year
    (Calendar.civilOfDay (Calendar.monthStart _ _)).month) = _
  rw [hdate]

/-- A later instant is in no earlier month. -/
theorem monthStart_mono {earlier later : Instant} (h : earlier ≤ later) :
    earlier.monthStart ≤ later.monthStart := by
  have hvalid := (Calendar.civilOfDay_spec earlier.day).1
  exact midnight_le_monthStart hvalid.one_le_month hvalid.month_le
    (le_trans (monthStart_le earlier) h)

/-! ## The time since the beginning -/

/-- From a midnight on no leap second is counted twice: the nanoseconds are those of the days and
of the time of day. -/
theorem nanosUntil_midnight (day : Int) (later : Instant) :
    nanosUntil (midnight day) later =
      ((later.day - day) * 86400 + later.second) * 1000000000 + later.nano := by
  have hleap : (midnight day).isLeap = false := rfl
  have hsecond : (midnight day).second = 0 := rfl
  have hadjust : leapAdjustment (midnight day) later = 0 := by
    unfold leapAdjustment
    rw [hleap, hsecond, if_neg (by simp), if_neg (by simp)]
  rw [nanosUntil, hadjust]
  simp [midnight]

/-- The time since the beginning of a month is less than thirty-one days and a leap second. -/
theorem nanosUntil_monthStart_bounds (moment : Instant) :
    0 ≤ nanosUntil moment.monthStart moment ∧
      nanosUntil moment.monthStart moment < 2678401000000000 := by
  have hleast := Calendar.monthStart_civilOfDay_le moment.day
  have hmost := Calendar.lt_monthStart_civilOfDay_add moment.day
  have hsecond := moment.second_lt
  have hnano := moment.nano_lt
  rw [monthStart, nanosUntil_midnight]
  constructor <;> omega

/-- A month begins at or before each of its instants. -/
theorem millisUntil_monthStart_nonneg (moment : Instant) :
    0 ≤ millisUntil moment.monthStart moment :=
  Int.tdiv_nonneg (nanosUntil_monthStart_bounds moment).1 (by decide)

/-- An instant is less than 31 days and a leap second behind the start of its month. -/
theorem millisUntil_monthStart_lt (moment : Instant) :
    millisUntil moment.monthStart moment < 2678401000 := by
  obtain ⟨hleast, hmost⟩ := nanosUntil_monthStart_bounds moment
  rw [millisUntil, Int.tdiv_eq_ediv_of_nonneg hleast]
  omega

end Instant

end PodCosts
