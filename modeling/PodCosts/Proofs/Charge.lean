import PodCosts.Billing
import PodCosts.Proofs.Time.Month
import Mathlib.Algebra.Order.Field.Basic
import Mathlib.Algebra.Order.Ring.Rat
import Mathlib.Tactic.Linarith
import Mathlib.Tactic.NormNum

/-!
# What a billing window charges

Over exact arithmetic the hours of a workload are a whole number of milliseconds, divided once.
No running workload is charged for more than the elapsed part of the month. An end time lowers the
charge, or leaves it as it is, exactly when it is not later than both the present and the start.
-/

namespace PodCosts

namespace Arithmetic

/-- A whole number is itself in exact arithmetic. -/
theorem ofInt_rat (n : Int) : (ofInt n : Rat) = n := rfl

/-- Differences are exact in exact arithmetic. -/
theorem sub_rat (x y : Rat) : sub x y = x - y := rfl

/-- Quotients are exact in exact arithmetic. -/
theorem div_rat (x y : Rat) : div x y = x / y := rfl

/-- The smaller of two exact numbers is their minimum. -/
theorem least_rat (x y : Rat) : least x y = min x y := by
  change (if y < x then y else x) = min x y
  rw [min_comm, min_def]
  split <;> split <;> linarith

/-- The greater of two exact numbers is their maximum. -/
theorem most_rat (x y : Rat) : most x y = max x y := by
  change (if x < y then y else x) = max x y
  rw [max_def]
  split <;> split <;> linarith

end Arithmetic

/-- The exact seconds between two instants are a thousandth of the milliseconds. -/
theorem Instant.secondsUntil_rat (earlier later : Instant) :
    (earlier.secondsUntil later : Rat) = (earlier.millisUntil later : Rat) / 1000 := by
  rw [secondsUntil, Arithmetic.div_rat, Arithmetic.ofInt_rat, Arithmetic.ofInt_rat]
  norm_num

namespace Window

/-- The milliseconds for which a workload is charged: those since its start, at most those of the
window, less those since its end, and never below zero. -/
def chargedMillis (window : Window) (started : Instant) (ended : Option Instant) : Int :=
  max (min (started.millisUntil window.now) (window.start.millisUntil window.now) -
    (ended.elim 0 fun moment => moment.millisUntil window.now)) 0

/-- Milliseconds can be put together before they are turned into hours. -/
private theorem hours_of_millis (sinceStart elapsed sinceEnd : Int) :
    max ((min ((sinceStart : Rat) / 1000) ((elapsed : Rat) / 1000) - (sinceEnd : Rat) / 1000) /
      3600) 0 = ((max (min sinceStart elapsed - sinceEnd) 0 : Int) : Rat) / 3600000 := by
  have hsecond : (0 : Rat) ≤ 1000 := by norm_num
  have hhour : (0 : Rat) ≤ 3600000 := by norm_num
  rw [min_div_div_right hsecond, ← sub_div, div_div,
    show (1000 * 3600 : Rat) = 3600000 by norm_num]
  push_cast
  rw [← max_div_div_right hhour, zero_div]

/-- Exact hours are charged milliseconds in the unit of an hour. -/
theorem proratedHours_rat (window : Window) (started : Instant) (ended : Option Instant) :
    (window.proratedHours started ended : Rat) =
      (window.chargedMillis started ended : Rat) / 3600000 := by
  cases ended with
  | none =>
    simp only [proratedHours, elapsedSeconds, Instant.secondsUntil_rat, Arithmetic.most_rat,
      Arithmetic.least_rat, Arithmetic.div_rat, Arithmetic.sub_rat, Arithmetic.ofInt_rat]
    rw [chargedMillis, Option.elim_none, ← hours_of_millis]
    norm_num [secondsPerHour]
  | some moment =>
    simp only [proratedHours, elapsedSeconds, Instant.secondsUntil_rat, Arithmetic.most_rat,
      Arithmetic.least_rat, Arithmetic.div_rat, Arithmetic.sub_rat, Arithmetic.ofInt_rat]
    rw [chargedMillis, Option.elim_some, ← hours_of_millis]
    norm_num [secondsPerHour]

/-- The hours of the window itself. -/
theorem elapsedHours_rat (window : Window) :
    (window.elapsedSeconds : Rat) / 3600 =
      (window.start.millisUntil window.now : Rat) / 3600000 := by
  rw [elapsedSeconds, Instant.secondsUntil_rat, div_div]
  norm_num

/-- A running workload is charged at most for the whole window. -/
theorem chargedMillis_none_le {window : Window}
    (helapsed : 0 ≤ window.start.millisUntil window.now) (started : Instant) :
    window.chargedMillis started none ≤ window.start.millisUntil window.now := by
  simp only [chargedMillis, Option.elim_none]
  omega

/-- An end adds nothing to the charge of a running workload exactly when it is not later than both
the present and the start. -/
theorem chargedMillis_some_le_iff {window : Window}
    (helapsed : 0 ≤ window.start.millisUntil window.now) (started ended : Instant) :
    window.chargedMillis started (some ended) ≤ window.chargedMillis started none ↔
      min (started.millisUntil window.now) 0 ≤ ended.millisUntil window.now := by
  simp only [chargedMillis, Option.elim_none, Option.elim_some]
  omega

/-- A workload with an end stays within the window exactly when its end is not later than the
present by more than its start is later than the beginning of the window. -/
theorem chargedMillis_some_le_elapsed_iff {window : Window}
    (helapsed : 0 ≤ window.start.millisUntil window.now) (started ended : Instant) :
    window.chargedMillis started (some ended) ≤ window.start.millisUntil window.now ↔
      min (started.millisUntil window.now - window.start.millisUntil window.now) 0 ≤
        ended.millisUntil window.now := by
  simp only [chargedMillis, Option.elim_some]
  omega

/-- Every charge is at least zero, and a running workload is charged at most for the part of the
month that is over. An end does not raise the charge exactly when it is not later than both the
present and the start of the workload; it keeps the charge within the month exactly when it is not
later than the present by more than the workload began after the month. -/
theorem proratedHours_bounds (now started ended : Instant) :
    let window := currentMonth now
    (0 : Rat) ≤ window.proratedHours started (some ended) ∧
      (window.proratedHours started none : Rat) ≤ window.elapsedSeconds / 3600 ∧
      ((window.proratedHours started (some ended) : Rat) ≤ window.proratedHours started none ↔
        min (started.millisUntil now) 0 ≤ ended.millisUntil now) ∧
      ((window.proratedHours started (some ended) : Rat) ≤ window.elapsedSeconds / 3600 ↔
        min (started.millisUntil now - now.monthStart.millisUntil now) 0 ≤
          ended.millisUntil now) := by
  intro window
  have helapsed : 0 ≤ window.start.millisUntil window.now := now.millisUntil_monthStart_nonneg
  have hunit : (0 : Rat) < 3600000 := by norm_num
  refine ⟨?_, ?_, ?_, ?_⟩
  · have hcharged : (0 : Rat) ≤ window.chargedMillis started (some ended) :=
      Int.cast_nonneg (le_max_right _ _)
    rw [proratedHours_rat]
    exact div_nonneg hcharged hunit.le
  · rw [proratedHours_rat, elapsedHours_rat, div_le_div_iff_of_pos_right hunit, Int.cast_le]
    exact chargedMillis_none_le helapsed started
  · rw [proratedHours_rat, proratedHours_rat, div_le_div_iff_of_pos_right hunit, Int.cast_le]
    exact chargedMillis_some_le_iff helapsed started ended
  · rw [proratedHours_rat, elapsedHours_rat, div_le_div_iff_of_pos_right hunit, Int.cast_le]
    exact chargedMillis_some_le_elapsed_iff helapsed started ended

/-- A workload that starts an hour after the present and ends an hour later is charged for that
hour, although none of it lies in the window. -/
theorem proratedHours_after_now :
    let now : Instant := ⟨20745, 43200, 0, by decide, by decide, by decide⟩
    let started : Instant := ⟨20745, 46800, 0, by decide, by decide, by decide⟩
    let ended : Instant := ⟨20745, 50400, 0, by decide, by decide, by decide⟩
    ((currentMonth now).proratedHours started (some ended) : Rat) = 1 ∧
      ((currentMonth now).proratedHours started none : Rat) = 0 := by
  decide +kernel

end Window

end PodCosts
