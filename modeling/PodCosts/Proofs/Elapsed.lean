import PodCosts.Proofs.Charge
import PodCosts.Proofs.Number.Quotient

/-!
# The elapsed part of a month

The window of the current month begins at the last first of a month, and it is as long as the month
has lasted so far. Its seconds are worked out in doubles, whose rounding takes them neither below
zero nor beyond the longest month with a leap second.
-/

namespace PodCosts

open Number (exactValue)

/-- Milliseconds that are not negative are turned into seconds that are not negative, and hardly
anything is added to them. -/
theorem Instant.exactValue_secondsUntil {earlier later : Instant}
    (hleast : 0 ≤ earlier.millisUntil later) (hmost : earlier.millisUntil later < 2 ^ 53) :
    let seconds : Float := earlier.secondsUntil later
    seconds.isFinite = true ∧ 0 ≤ exactValue seconds ∧
      exactValue seconds ≤ earlier.millisUntil later / 1000 * (1 + 1 / 2 ^ 52) := by
  rw [secondsUntil]
  generalize earlier.millisUntil later = millis at *
  obtain ⟨n, rfl⟩ := Int.eq_ofNat_of_zero_le hleast
  rcases n.eq_zero_or_pos with rfl | hpos
  · decide +kernel
  · have hn : n < 2 ^ 53 := by exact_mod_cast hmost
    exact Number.exactValue_ofNat_div hpos hn (by decide) (by decide)

namespace Window

/-- The seconds of the current month, in doubles, are at least zero and less than those of
thirty-one days and a leap second. -/
theorem elapsedSeconds_bounds (now : Instant) :
    (0 : Float) ≤ (currentMonth now).elapsedSeconds ∧
      (currentMonth now).elapsedSeconds < (31 * 86400 + 1 : Float) := by
  have hleast := now.millisUntil_monthStart_nonneg
  have hmost := now.millisUntil_monthStart_lt
  obtain ⟨hfinite, hnonneg, hle⟩ :=
    Instant.exactValue_secondsUntil hleast (hmost.trans (by decide))
  have hzero : (0 : Float).isFinite = true ∧ exactValue 0 = 0 := by decide +kernel
  have hend : (31 * 86400 + 1 : Float).isFinite = true ∧
      exactValue (31 * 86400 + 1) = 2678401 := by decide +kernel
  change 0 ≤ (now.monthStart.secondsUntil now : Float) ∧
    (now.monthStart.secondsUntil now : Float) < 31 * 86400 + 1
  constructor
  · rw [Number.le_iff_exactValue_le hzero.1 hfinite, hzero.2]
    exact hnonneg
  · rw [Number.lt_iff_exactValue_lt hfinite hend.1, hend.2]
    have hcast : (now.monthStart.millisUntil now : Rat) ≤ 2678400999 := by
      exact_mod_cast Int.le_of_lt_add_one hmost
    have hmillis : (0 : Rat) ≤ now.monthStart.millisUntil now := by exact_mod_cast hleast
    refine hle.trans_lt ?_
    calc (now.monthStart.millisUntil now : Rat) / 1000 * (1 + 1 / 2 ^ 52)
        ≤ 2678400999 / 1000 * (1 + 1 / 2 ^ 52) := by gcongr
      _ < 2678401 := by norm_num

/-- The same holds for the exact number of seconds. -/
theorem elapsedSeconds_rat_bounds (now : Instant) :
    (0 : Rat) ≤ (currentMonth now).elapsedSeconds ∧
      (currentMonth now).elapsedSeconds < (31 * 86400 + 1 : Rat) := by
  have hleast : (0 : Rat) ≤ now.monthStart.millisUntil now := by
    exact_mod_cast now.millisUntil_monthStart_nonneg
  have hmost : (now.monthStart.millisUntil now : Rat) < 2678401000 := by
    exact_mod_cast now.millisUntil_monthStart_lt
  rw [elapsedSeconds, Instant.secondsUntil_rat]
  change 0 ≤ (now.monthStart.millisUntil now : Rat) / 1000 ∧
    (now.monthStart.millisUntil now : Rat) / 1000 < 31 * 86400 + 1
  constructor <;> linarith

end Window

/-- The beginning of the month rounds every instant down, leap seconds included, to the last first
of a month that is not later. The days are named one after another, the date of an instant exists
and names its day, and the first of its year and month is the day of the beginning. So the beginning
of a month is its own beginning, a later instant has no earlier one, and the seconds since are never
negative and less than those of thirty-one days and a leap second. -/
theorem Instant.monthStart_floor (now : Instant) :
    let date := Calendar.civilOfDay now.day
    let first (year : Int) (month : Nat) := midnight (Calendar.dayOfCivil ⟨year, month, 1⟩)
    let window := Window.currentMonth now
    Calendar.civilOfDay 0 = ⟨1970, 1, 1⟩ ∧
      (∀ day, Calendar.civilOfDay (day + 1) = (Calendar.civilOfDay day).next) ∧
      date.Valid ∧ Calendar.dayOfCivil date = now.day ∧
      now.monthStart = first date.year date.month ∧
      Calendar.civilOfDay now.monthStart.day = ⟨date.year, date.month, 1⟩ ∧
      now.monthStart ≤ now ∧
      (∀ year month, 1 ≤ month → month ≤ 12 → first year month ≤ now →
        first year month ≤ now.monthStart) ∧
      now.monthStart.monthStart = now.monthStart ∧
      (∀ later, now ≤ later → now.monthStart ≤ later.monthStart) ∧
      (0 : Float) ≤ window.elapsedSeconds ∧ window.elapsedSeconds < (31 * 86400 + 1 : Float) ∧
      (0 : Rat) ≤ window.elapsedSeconds ∧ window.elapsedSeconds < (31 * 86400 + 1 : Rat) := by
  intro date first window
  obtain ⟨hvalid, hname⟩ := Calendar.civilOfDay_spec now.day
  obtain ⟨hleast, hmost⟩ := Window.elapsedSeconds_bounds now
  obtain ⟨hleastExact, hmostExact⟩ := Window.elapsedSeconds_rat_bounds now
  have hfirst (year : Int) (month : Nat) :
      first year month = midnight (Calendar.monthStart year month) :=
    congrArg midnight (Calendar.dayOfCivil_first year month)
  refine ⟨by decide, Calendar.civilOfDay_succ, hvalid, hname, (hfirst date.year date.month).symm,
    Calendar.civilOfDay_monthStart now.day, monthStart_le now, ?_, monthStart_monthStart now,
    fun later => monthStart_mono, hleast, hmost, hleastExact, hmostExact⟩
  intro year month hone htwelve hle
  rw [hfirst] at hle ⊢
  exact midnight_le_monthStart hone htwelve hle

/-- Half a second within the leap second at the end of the year 2016, and the next midnight. -/
theorem Instant.monthStart_floor_leapSecond :
    let now : Instant := ⟨17166, 86399, 1500000000, by decide, by decide, by decide⟩
    Calendar.civilOfDay now.day = ⟨2016, 12, 31⟩ ∧ now.monthStart = midnight 17136 ∧
      midnight (Calendar.dayOfCivil ⟨2016, 11, 1⟩) ≤ now.monthStart ∧
      now.monthStart ≤ (midnight 17167).monthStart ∧
      ((Window.currentMonth now).elapsedSeconds : Float) = 2678400.5 ∧
      (Window.currentMonth now).elapsedSeconds < (31 * 86400 + 1 : Float) := by
  intro now
  obtain ⟨-, -, -, -, -, -, -, hlast, -, hmono, -, hmost, -, -⟩ := monthStart_floor now
  have hearlier : midnight (Calendar.dayOfCivil ⟨2016, 11, 1⟩) ≤ now := by decide
  exact ⟨by decide, by decide, hlast 2016 11 (by decide) (by decide) hearlier,
    hmono (midnight 17167) (by decide), by decide +kernel, hmost⟩

end PodCosts
