import PodCosts.Text.Blank
import PodCosts.Time.Instant

/-!
# Timestamps

Instants are written in RFC 3339 form in UTC. Two readers exist: `read?` for the strict form, which
times of graph nodes have to have, and `readLenient?` for the form in which pods are decoded, where
components need no leading zeros and blanks may stand around them.

Both readers give an instant in UTC, so the offset of the text is not kept.
-/

namespace PodCosts.Timestamp

/-! ## Writing -/

/-- A natural number with zeros in front of it up to a width. -/
def padded (width n : Nat) : List Char :=
  let digits := Nat.toDigits 10 n
  List.replicate (width - digits.length) '0' ++ digits

/-- Four digits for the years from 0 to 9999, and a sign and at least four digits for all others. -/
def yearText (year : Int) : List Char :=
  if 0 ≤ year ∧ year ≤ 9999 then padded 4 year.toNat
  else (if year < 0 then '-' else '+') :: padded 4 year.natAbs

/-- The fraction of a second in the fewest of 0, 3, 6 or 9 digits that hold it. -/
def fractionText (nano : Nat) : List Char :=
  if nano = 0 then []
  else if nano % 1000000 = 0 then '.' :: padded 3 (nano / 1000000)
  else if nano % 1000 = 0 then '.' :: padded 6 (nano / 1000)
  else '.' :: padded 9 nano

/-- The RFC 3339 text of an instant. A leap second is the sixtieth second of its minute. -/
def text (moment : Instant) : String :=
  let date := Calendar.civilOfDay moment.day
  let second := moment.second % 60 + moment.nano / 1000000000
  String.ofList <|
    yearText date.year ++ '-' :: padded 2 date.month ++ '-' :: padded 2 date.day ++
      'T' :: padded 2 (moment.second / 3600) ++ ':' :: padded 2 (moment.second / 60 % 60) ++
      ':' :: padded 2 second ++ fractionText (moment.nano % 1000000000) ++ ['Z']

/-! ## Reading -/

/-- The value of a decimal digit. -/
def digitValue (c : Char) : Nat :=
  c.toNat - '0'.toNat

/-- The number a row of digits stands for. -/
def number (digits : List Char) : Nat :=
  digits.foldl (fun n c => 10 * n + digitValue c) 0

/-- At least one digit and at most `most` of them. -/
def upTo? (most : Nat) (cs : List Char) : Option (Nat × List Char) :=
  let digits := (cs.take most).takeWhile Char.isDigit
  if digits.isEmpty then none else some (number digits, cs.drop digits.length)

/-- Exactly `count` digits. -/
def exactly? (count : Nat) (cs : List Char) : Option (Nat × List Char) :=
  let digits := (cs.take count).takeWhile Char.isDigit
  if digits.length = count then some (number digits, cs.drop count) else none

/-- One given character. -/
def skip? (c : Char) : List Char → Option (List Char)
  | [] => none
  | x :: cs => if x = c then some cs else none

/-- The character between the date and the time. -/
def skipDelimiter? : List Char → Option (List Char)
  | [] => none
  | c :: cs => if c = 'T' ∨ c = 't' ∨ c = ' ' then some cs else none

/-- A fraction of a second in nanoseconds, when one follows; digits past the ninth are dropped. -/
def fraction? : List Char → Option (Nat × List Char)
  | '.' :: cs =>
    let digits := cs.takeWhile Char.isDigit
    if digits.isEmpty then none
    else
      let kept := digits.take 9
      some (number kept * Nat.pow 10 (9 - kept.length), cs.drop digits.length)
  | cs => some (0, cs)

/-- The sign of an offset; the minus sign proper stands for a minus too. -/
def offsetSign? : List Char → Option (Int × List Char)
  | '+' :: cs => some (1, cs)
  | '-' :: cs => some (-1, cs)
  | '\u2212' :: cs => some (-1, cs)
  | _ => none

/-- An offset from UTC in minutes, less than a day either way. `separator` reads what may stand
between hours and minutes. -/
def offset? (separator : List Char → Option (List Char)) : List Char → Option (Int × List Char)
  | 'Z' :: cs => some (0, cs)
  | 'z' :: cs => some (0, cs)
  | cs => do
    let (sign, cs) ← offsetSign? cs
    let (hours, cs) ← exactly? 2 cs
    let cs ← separator cs
    let (minutes, cs) ← exactly? 2 cs
    if hours ≤ 23 ∧ minutes ≤ 59 then some (sign * ((60 * hours + minutes : Nat) : Int), cs)
    else none

/-- The parts of a timestamp before they are checked. -/
structure Parts where
  date : Calendar.Civil
  hour : Nat
  minute : Nat
  second : Nat
  nano : Nat
  /-- Minutes that the written time is ahead of UTC. -/
  offset : Int

/-- The instant that the parts name. Second 60 is a leap second in any minute. The day, both as it
is written and in UTC, must lie in a year that is in range. -/
def Parts.instant? (parts : Parts) : Option Instant := do
  let day ← Calendar.dayOfCivil? parts.date
  if parts.hour ≤ 23 ∧ parts.minute ≤ 59 ∧ parts.second ≤ 60 then
    let second := min parts.second 59
    let nano := if parts.second = 60 then parts.nano + 1000000000 else parts.nano
    let ofDay : Int := ((3600 * parts.hour + 60 * parts.minute + second : Nat) : Int)
    Instant.ofUnix? (86400 * day + ofDay - 60 * parts.offset) nano
  else none

/-- Reads `2026-10-19T12:00:00Z` and its like: two digits in every component, four in the year, and
an offset of `Z` or `+hh:mm`. -/
def read? (text : String) : Option Instant := do
  let (year, cs) ← exactly? 4 text.toList
  let cs ← skip? '-' cs
  let (month, cs) ← exactly? 2 cs
  let cs ← skip? '-' cs
  let (day, cs) ← exactly? 2 cs
  let cs ← skipDelimiter? cs
  let (hour, cs) ← exactly? 2 cs
  let cs ← skip? ':' cs
  let (minute, cs) ← exactly? 2 cs
  let cs ← skip? ':' cs
  let (second, cs) ← exactly? 2 cs
  let (nano, cs) ← fraction? cs
  let (offset, cs) ← offset? (skip? ':') cs
  if cs.isEmpty then
    Parts.instant? ⟨⟨year, month, day⟩, hour, minute, second, nano, offset⟩
  else none

/-- A year: up to four digits, or a sign and any number of them. -/
def lenientYear? (cs : List Char) : Option (Int × List Char) :=
  match Text.trimStart cs with
  | '-' :: cs => do
    let (year, cs) ← upTo? cs.length cs
    some (-(year : Int), cs)
  | '+' :: cs => do
    let (year, cs) ← upTo? cs.length cs
    some ((year : Int), cs)
  | cs => do
    let (year, cs) ← upTo? 4 cs
    some ((year : Int), cs)

/-- A component of one or two digits after any blanks. -/
def lenientPart? (cs : List Char) : Option (Nat × List Char) :=
  upTo? 2 (Text.trimStart cs)

/-- A separator after any blanks. -/
def lenientSkip? (c : Char) (cs : List Char) : Option (List Char) :=
  skip? c (Text.trimStart cs)

/-- Any colons and blanks. -/
def skipColons (cs : List Char) : List Char :=
  cs.dropWhile fun c => c == ':' || Text.isBlank c

/-- An offset, or the word `UTC` in any case. -/
def lenientOffset? (cs : List Char) : Option (Int × List Char) :=
  match cs with
  | u :: t :: c :: rest =>
    if u.toUpper = 'U' ∧ t.toUpper = 'T' ∧ c.toUpper = 'C' then some (0, rest)
    else offset? (some ∘ skipColons) cs
  | _ => offset? (some ∘ skipColons) cs

/-- Reads the strict form and everything that differs from it only in leading zeros, in blanks
around components and in the punctuation of the offset. Years outside 0 to 9999 carry a sign. -/
def readLenient? (text : String) : Option Instant := do
  let (year, cs) ← lenientYear? text.toList
  let cs ← lenientSkip? '-' cs
  let (month, cs) ← lenientPart? cs
  let cs ← lenientSkip? '-' cs
  let (day, cs) ← lenientPart? cs
  let cs ← skipDelimiter? cs
  let (hour, cs) ← lenientPart? cs
  let cs ← lenientSkip? ':' cs
  let (minute, cs) ← lenientPart? cs
  let cs ← lenientSkip? ':' cs
  let (second, cs) ← lenientPart? cs
  let (nano, cs) ← fraction? cs
  let (offset, cs) ← lenientOffset? (Text.trimStart cs)
  if (Text.trimStart cs).isEmpty then
    Parts.instant? ⟨⟨year, month, day⟩, hour, minute, second, nano, offset⟩
  else none

example : (read? "2026-10-19T12:00:00.25+02:00").map text = some "2026-10-19T10:00:00.250Z" := by
  decide +kernel
example : (readLenient? " 2026 - 1 - 2 3 : 4 : 60 utc ").map text =
    some "2026-01-02T03:04:60Z" := by decide +kernel

end PodCosts.Timestamp
