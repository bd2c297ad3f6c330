import PodCosts.Time.Instant

/-!
# Billing windows

Workloads are charged by the hour, from the beginning of the current month in UTC until now. A
workload that began earlier is charged from the beginning of the month, and one that has ended is
charged up to its end.
-/

namespace PodCosts

/-- The part of a month that is over. -/
structure Window where
  start : Instant
  now : Instant
deriving DecidableEq

namespace Window

/-- The seconds in an hour. -/
def secondsPerHour : Int := 3600

/-- The month of `now` up to `now`. -/
def currentMonth (now : Instant) : Window :=
  ⟨now.monthStart, now⟩

/-- The seconds of the window. -/
def elapsedSeconds {ν : Type} [Arithmetic ν] (window : Window) : ν :=
  window.start.secondsUntil window.now

/-- The hours for which a workload is charged. Time before the window does not count, the time since
the end is taken off, and nothing below zero is charged. -/
def proratedHours {ν : Type} [Arithmetic ν] (window : Window) (started : Instant)
    (ended : Option Instant) : ν :=
  let sinceStart : ν :=
    Arithmetic.least (started.secondsUntil window.now) window.elapsedSeconds
  let sinceEnd : ν :=
    match ended with
    | some moment => moment.secondsUntil window.now
    | none => Arithmetic.ofInt 0
  Arithmetic.most
    (Arithmetic.div (Arithmetic.sub sinceStart sinceEnd) (Arithmetic.ofInt secondsPerHour))
    (Arithmetic.ofInt 0)

end Window

end PodCosts
