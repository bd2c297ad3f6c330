import PodCosts.Number.Arithmetic
import PodCosts.Time.Calendar

/-!
# Instants

An instant is a second of a UTC day with a fraction in nanoseconds. A leap second is counted inside
the last second of its minute, with a fraction of one second or more, so every day keeps its 86400
second numbers.
-/

namespace PodCosts

/-- A point in time. -/
structure Instant where
  /-- Days since the first of January 1970. -/
  day : Int
  /-- The second of the day. -/
  second : Nat
  /-- Nanoseconds of the second, past one second inside a leap second. -/
  nano : Nat
  second_lt : second < 86400
  nano_lt : nano < 2000000000
  /-- Only the last second of a minute can be extended by a leap second. -/
  leap_ends_minute : 1000000000 ≤ nano → second % 60 = 59
deriving DecidableEq

namespace Instant

/-- Whether an instant lies in a leap second. -/
def isLeap (moment : Instant) : Bool :=
  1000000000 ≤ moment.nano

/-- The instant with the given parts, if they are in range. -/
def ofParts? (day : Int) (second nano : Nat) : Option Instant :=
  if h : second < 86400 ∧ nano < 2000000000 ∧ (1000000000 ≤ nano → second % 60 = 59) then
    some ⟨day, second, nano, h.1, h.2.1, h.2.2⟩
  else none

/-- The instant a number of seconds after the start of 1970. -/
def ofUnix? (seconds : Int) (nano : Nat) : Option Instant :=
  let day := seconds / 86400
  if Calendar.yearInRange (Calendar.yearOfDay day) then ofParts? day (seconds % 86400).toNat nano
  else none

/-- The midnight that begins a day. -/
def midnight (day : Int) : Instant :=
  ⟨day, 0, 0, by decide, by decide, by decide⟩

/-- Earlier or equal: by day, then by second, then by fraction. -/
protected def le (a b : Instant) : Bool :=
  a.day < b.day || (a.day == b.day &&
    (a.second < b.second || (a.second == b.second && a.nano ≤ b.nano)))

instance : LE Instant := ⟨fun a b => Instant.le a b = true⟩

instance (a b : Instant) : Decidable (a ≤ b) :=
  inferInstanceAs (Decidable (Instant.le a b = true))

/-- The whole second by which a leap second lengthens a difference: it counts when the clock reads
a later second of the day at the far end than inside the leap second. -/
def leapAdjustment (earlier later : Instant) : Int :=
  if earlier.second < later.second ∧ earlier.isLeap then 1
  else if later.second < earlier.second ∧ later.isLeap then -1
  else 0

/-- The nanoseconds from one instant to another. -/
def nanosUntil (earlier later : Instant) : Int :=
  ((later.day - earlier.day) * 86400 + ((later.second : Int) - earlier.second)
    + leapAdjustment earlier later) * 1000000000 + ((later.nano : Int) - earlier.nano)

/-- The whole milliseconds from one instant to another; what is left of a millisecond is dropped on
both sides of zero. -/
def millisUntil (earlier later : Instant) : Int :=
  (nanosUntil earlier later).tdiv 1000000

/-- The seconds from one instant to another, to the millisecond. -/
def secondsUntil {ν : Type} [Arithmetic ν] (earlier later : Instant) : ν :=
  Arithmetic.div (Arithmetic.ofInt (millisUntil earlier later)) (Arithmetic.ofInt 1000)

/-- Midnight of the first day of the month an instant lies in. -/
def monthStart (moment : Instant) : Instant :=
  let date := Calendar.civilOfDay moment.day
  midnight (Calendar.monthStart date.year date.month)

end Instant

end PodCosts
