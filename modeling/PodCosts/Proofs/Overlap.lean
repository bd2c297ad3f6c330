import PodCosts.Proofs.Charge
import Mathlib.MeasureTheory.Measure.Lebesgue.Basic
import Mathlib.MeasureTheory.Measure.Real

/-!
# Charged hours as the length of an overlap

Outside leap seconds instants are points of a line. On that line a workload is charged for as long
as its own time overlaps the part of the month that is over. The formula never forms that overlap:
it takes the time since the end off the time since the start.
-/

namespace PodCosts

open MeasureTheory (volume)

namespace Instant

/-- The point of an instant on the line of time, in seconds since the start of 1970. -/
noncomputable def position (moment : Instant) : ℝ :=
  moment.day * 86400 + moment.second + moment.nano / 1000000000

/-- Whether an instant is a whole number of milliseconds and lies in no leap second. -/
structure WholeMillis (moment : Instant) : Prop where
  not_leap : moment.isLeap = false
  whole : moment.nano % 1000000 = 0

/-- The milliseconds since the start of 1970. -/
def epochMillis (moment : Instant) : Int :=
  (moment.day * 86400 + moment.second) * 1000 + moment.nano / 1000000

variable {moment earlier later : Instant}

/-- Outside of leap seconds a second has fewer than 10⁹ nanoseconds. -/
theorem WholeMillis.nano_lt (h : moment.WholeMillis) : moment.nano < 1000000000 := by
  have hleap := h.not_leap
  simp only [isLeap, decide_eq_false_iff_not] at hleap
  omega

/-- A month begins with a whole millisecond. -/
theorem wholeMillis_monthStart (moment : Instant) : moment.monthStart.WholeMillis :=
  ⟨rfl, rfl⟩

/-- A whole number of milliseconds is placed by that number. -/
theorem WholeMillis.position_eq (h : moment.WholeMillis) :
    moment.position = (moment.epochMillis : ℝ) / 1000 := by
  have hnano : (moment.nano : Int) = 1000000 * (moment.nano / 1000000) := by
    have hwhole := h.whole
    omega
  have hnano' : (moment.nano : ℝ) = 1000000 * (((moment.nano / 1000000 : Int)) : ℝ) := by
    exact_mod_cast hnano
  rw [position, epochMillis, hnano']
  push_cast
  ring

/-- Without leap seconds a difference is that of the milliseconds. -/
theorem WholeMillis.millisUntil_eq (hearlier : earlier.WholeMillis) (hlater : later.WholeMillis) :
    earlier.millisUntil later = later.epochMillis - earlier.epochMillis := by
  have hadjust : leapAdjustment earlier later = 0 := by
    rw [leapAdjustment, hearlier.not_leap, hlater.not_leap, if_neg (by simp), if_neg (by simp)]
  have hnanos : nanosUntil earlier later = (later.epochMillis - earlier.epochMillis) * 1000000 := by
    have hfirst := hearlier.whole
    have hsecond := hlater.whole
    rw [nanosUntil, hadjust, epochMillis, epochMillis]
    omega
  rw [millisUntil, hnanos]
  exact Int.mul_tdiv_cancel _ (by decide)

/-- Whole milliseconds are ordered as their numbers are. -/
theorem WholeMillis.le_iff (hearlier : earlier.WholeMillis) (hlater : later.WholeMillis) :
    earlier ≤ later ↔ earlier.epochMillis ≤ later.epochMillis := by
  have hfirst := hearlier.nano_lt
  have hfirst' := hearlier.whole
  have hsecond := hlater.nano_lt
  have hsecond' := hlater.whole
  have hday := earlier.second_lt
  have hday' := later.second_lt
  change Instant.le earlier later = true ↔ _
  simp only [Instant.le, Bool.or_eq_true, Bool.and_eq_true, decide_eq_true_eq, beq_iff_eq,
    epochMillis]
  omega

/-- Whole milliseconds are ordered as their points are. -/
theorem WholeMillis.position_le_iff (hearlier : earlier.WholeMillis) (hlater : later.WholeMillis) :
    earlier.position ≤ later.position ↔ earlier ≤ later := by
  rw [hearlier.position_eq, hlater.position_eq, hearlier.le_iff hlater,
    div_le_div_iff_of_pos_right (by norm_num), Int.cast_le]

end Instant

namespace Window

/-- The time of a workload that lies in a window: from its start to its end, or to the present while
it has none. -/
def overlap (window : Window) (started : Instant) (ended : Option Instant) : Set ℝ :=
  Set.Icc started.position (ended.getD window.now).position ∩
    Set.Icc window.start.position window.now.position

variable {now started : Instant} {ended : Option Instant}

/-- The time since the start, at most that since the beginning of the month, less the time since the
end is the time from the later of the two beginnings to the end. -/
theorem chargedMillis_eq (hnow : now.WholeMillis) (hstarted : started.WholeMillis)
    (hended : (ended.getD now).WholeMillis) :
    (currentMonth now).chargedMillis started ended =
      max ((ended.getD now).epochMillis -
        max started.epochMillis now.monthStart.epochMillis) 0 := by
  have hstart : (currentMonth now).start = now.monthStart := rfl
  have hpresent : (currentMonth now).now = now := rfl
  have hmonth := now.wholeMillis_monthStart
  rw [chargedMillis, hstart, hpresent, hstarted.millisUntil_eq hnow, hmonth.millisUntil_eq hnow]
  cases ended with
  | none =>
    simp only [Option.elim_none, Option.getD_none]
    omega
  | some moment =>
    simp only [Option.getD_some] at hended
    simp only [Option.elim_some, Option.getD_some, hended.millisUntil_eq hnow]
    omega

/-- An overlap that ends before the present lasts from the later beginning to the end. -/
theorem overlap_eq_Icc (hnow : now.WholeMillis) (hended : (ended.getD now).WholeMillis)
    (hpast : ended.getD now ≤ now) :
    (currentMonth now).overlap started ended =
      Set.Icc (max started.position now.monthStart.position) (ended.getD now).position := by
  have hend : (ended.getD now).position ≤ now.position := (hended.position_le_iff hnow).mpr hpast
  change Set.Icc started.position (ended.getD now).position ∩
    Set.Icc now.monthStart.position now.position = _
  rw [Set.Icc_inter_Icc]
  exact congrArg (Set.Icc _) (min_eq_left hend)

/-- Milliseconds between two points are seconds of an interval. -/
private theorem length_of_millis (started beginning ended : Int) :
    3600 * (((max (ended - max started beginning) 0 : Int) / 3600000 : ℚ) : ℝ) =
      max ((ended : ℝ) / 1000 - max ((started : ℝ) / 1000) ((beginning : ℝ) / 1000)) 0 := by
  have hsecond : (0 : ℝ) ≤ 1000 := by norm_num
  have hzero : (0 : ℝ) = 0 / 1000 := by norm_num
  rw [max_div_div_right hsecond, ← sub_div, hzero, max_div_div_right hsecond]
  push_cast
  ring

/-- For whole milliseconds outside leap seconds, and an end that is not in the future, the charged
hours are the length of the time in which the workload and the part of the month that is over
overlap. They do not overlap exactly where the workload ended before it started or before the month
began, or starts after the present, and then nothing is charged. -/
theorem proratedHours_eq_overlap (hnow : now.WholeMillis) (hstarted : started.WholeMillis)
    (hended : ∀ moment ∈ ended, moment.WholeMillis ∧ moment ≤ now) :
    let window := currentMonth now
    let hours : ℚ := window.proratedHours started ended
    3600 * (hours : ℝ) = volume.real (window.overlap started ended) ∧
      (window.overlap started ended = ∅ ↔
        ¬started ≤ ended.getD now ∨ ¬now.monthStart ≤ ended.getD now ∨ ¬started ≤ now) ∧
      (window.overlap started ended = ∅ → hours = 0) := by
  intro window hours
  have hmonth := now.wholeMillis_monthStart
  have hend : (ended.getD now).WholeMillis ∧ ended.getD now ≤ now := by
    cases ended with
    | none => exact ⟨hnow, (hnow.le_iff hnow).mpr le_rfl⟩
    | some moment => exact hended moment rfl
  obtain ⟨hend, hpast⟩ := hend
  have hlength : 3600 * (hours : ℝ) = volume.real (window.overlap started ended) := by
    rw [overlap_eq_Icc hnow hend hpast, Real.volume_real_Icc, hstarted.position_eq,
      hmonth.position_eq, hend.position_eq]
    change 3600 * ((window.proratedHours started ended : ℚ) : ℝ) = _
    rw [proratedHours_rat, chargedMillis_eq hnow hstarted hend]
    exact length_of_millis _ _ _
  have hempty : window.overlap started ended = ∅ ↔
      ¬started ≤ ended.getD now ∨ ¬now.monthStart ≤ ended.getD now ∨ ¬started ≤ now := by
    rw [overlap_eq_Icc hnow hend hpast, Set.Icc_eq_empty_iff, max_le_iff,
      hstarted.position_le_iff hend, hmonth.position_le_iff hend]
    constructor
    · intro hnone
      by_cases hbefore : started ≤ ended.getD now
      · exact .inr (.inl fun hinside => hnone ⟨hbefore, hinside⟩)
      · exact .inl hbefore
    · rintro (hbefore | houtside | hfuture) ⟨hstart, hinside⟩
      · exact hbefore hstart
      · exact houtside hinside
      · rw [hstarted.le_iff hend] at hstart
        rw [hend.le_iff hnow] at hpast
        exact hfuture ((hstarted.le_iff hnow).mpr (hstart.trans hpast))
  refine ⟨hlength, hempty, ?_⟩
  intro hnone
  rw [hnone, MeasureTheory.measureReal_empty] at hlength
  have hzero : (hours : ℝ) = 0 := by linarith
  exact_mod_cast hzero

/-- A workload that started in the month before and ended two hours into this one, seen a day after
its start. -/
theorem proratedHours_eq_overlap_across :
    let now : Instant := ⟨20727, 79200, 0, by decide, by decide, by decide⟩
    let started : Instant := ⟨20726, 79200, 500000000, by decide, by decide, by decide⟩
    let ended : Instant := ⟨20727, 7200, 250000000, by decide, by decide, by decide⟩
    (now.WholeMillis ∧ started.WholeMillis ∧ ended.WholeMillis ∧ ended ≤ now) ∧
      ¬now.monthStart ≤ started ∧
      ((currentMonth now).proratedHours started (some ended) : ℚ) = 7200250 / 3600000 ∧
      volume.real ((currentMonth now).overlap started (some ended)) = 7200 + 1 / 4 := by
  intro now started ended
  have hnow : now.WholeMillis := ⟨rfl, rfl⟩
  have hstarted : started.WholeMillis := ⟨by decide, by decide⟩
  have hended : ended.WholeMillis := ⟨by decide, by decide⟩
  have hpast : ended ≤ now := by decide
  have hhours : ((currentMonth now).proratedHours started (some ended) : ℚ) =
      7200250 / 3600000 := by
    decide +kernel
  have hend : ∀ moment ∈ some ended, moment.WholeMillis ∧ moment ≤ now := by
    rintro moment ⟨⟩
    exact ⟨hended, hpast⟩
  obtain ⟨hlength, -, -⟩ := proratedHours_eq_overlap hnow hstarted hend
  refine ⟨⟨hnow, hstarted, hended, hpast⟩, by decide, hhours, ?_⟩
  rw [← hlength, hhours]
  norm_num

end Window

end PodCosts
