import PodCosts.Json.Token
import PodCosts.Number.Reading
import PodCosts.Time.Timestamp
import PodCosts.Toml.Basic

/-!
# Scalars of settings files

Strings in their four forms, numbers, and dates and times. Each reader takes the text from where the
scalar begins and gives it with the text behind it.

Readers of strings go through the text with `fuel`, one unit for each character; the length of the
text is always enough.
-/

namespace PodCosts.Toml

/-- Blanks within a line. -/
def isSpace (c : Char) : Bool :=
  c == ' ' || c == '\t'

/-- Characters that need no escape in comments and strings: all but control characters, of which
only the tab is allowed. -/
def isPlain (c : Char) : Bool :=
  c == '\t' || (0x20 ≤ c.toNat && c.toNat != 0x7F)

/-- A line break, with or without a carriage return. -/
def newline? : List Char → Option (List Char)
  | '\n' :: cs => some cs
  | '\r' :: '\n' :: cs => some cs
  | _ => none

/-- The text behind a line break, if it begins with one. -/
def skipNewline (cs : List Char) : List Char :=
  (newline? cs).getD cs

/-- The text behind all blanks and line breaks. -/
def skipLines : List Char → List Char
  | [] => []
  | '\r' :: '\n' :: cs => skipLines cs
  | c :: cs => if isSpace c || c == '\n' then skipLines cs else c :: cs

/-! ## Strings -/

/-- Exactly `count` hexadecimal digits as a character. -/
def codePoint? (count : Nat) (cs : List Char) : Option (Char × List Char) := do
  let digits ← (cs.take count).mapM Token.hexValue?
  let code := digits.foldl (fun n d => 16 * n + d) 0
  if digits.length = count ∧ code.isValidChar then some (Char.ofNat code, cs.drop count) else none

/-- What stands behind a backslash. -/
def escape? : List Char → Option (Char × List Char)
  | 'b' :: cs => some ('\x08', cs)
  | 't' :: cs => some ('\t', cs)
  | 'n' :: cs => some ('\n', cs)
  | 'f' :: cs => some ('\x0c', cs)
  | 'r' :: cs => some ('\r', cs)
  | '"' :: cs => some ('"', cs)
  | '\\' :: cs => some ('\\', cs)
  | 'u' :: cs => codePoint? 4 cs
  | 'U' :: cs => codePoint? 8 cs
  | _ => none

/-- The rest of a string in double quotes. -/
def basic? : Nat → List Char → Option (List Char × List Char)
  | _, '"' :: cs => some ([], cs)
  | fuel + 1, '\\' :: cs => do
    let (c, cs) ← escape? cs
    let (text, cs) ← basic? fuel cs
    some (c :: text, cs)
  | fuel + 1, c :: cs => do
    let (text, cs) ← if isPlain c then basic? fuel cs else none
    some (c :: text, cs)
  | _, _ => none

/-- The rest of a string in single quotes, in which nothing is escaped. -/
def literal? : List Char → Option (List Char × List Char)
  | [] => none
  | c :: cs =>
    if c = '\'' then some ([], cs)
    else if isPlain c then (literal? cs).map fun (text, rest) => (c :: text, rest)
    else none

/-- A line break behind a backslash, with all blanks and line breaks that follow. -/
def continuation? (cs : List Char) : Option (List Char) :=
  (newline? (cs.dropWhile isSpace)).map skipLines

/-- Quotes inside a string in three quotes, with whether they end it. Up to two of them belong to
the text, also just before the end. -/
def quotes? (quote : Char) (cs : List Char) : Option (List Char × Bool × List Char) :=
  let count := (cs.takeWhile (· == quote)).length
  if count < 3 then some (List.replicate count quote, false, cs.drop count)
  else if count ≤ 5 then some (List.replicate (count - 3) quote, true, cs.drop count)
  else none

/-- The rest of a string in three quotes of either kind. Line breaks are kept as line feeds, and
backslashes escape only in double quotes. -/
def multiline? (quote : Char) : Nat → List Char → Option (List Char × List Char)
  | 0, _ => none
  | _, [] => none
  | fuel + 1, c :: cs =>
    if c = quote then do
      let (text, ended, rest) ← quotes? quote (c :: cs)
      if ended then some (text, rest)
      else
        let (more, rest) ← multiline? quote fuel rest
        some (text ++ more, rest)
    else if c = '\\' ∧ quote = '"' then
      match continuation? cs with
      | some rest => multiline? quote fuel rest
      | none => do
        let (c, rest) ← escape? cs
        let (text, rest) ← multiline? quote fuel rest
        some (c :: text, rest)
    else
      match newline? (c :: cs) with
      | some rest => (multiline? quote fuel rest).map fun (text, rest) => ('\n' :: text, rest)
      | none =>
        if isPlain c then (multiline? quote fuel cs).map fun (text, rest) => (c :: text, rest)
        else none

/-- A string of any form. -/
def string? : List Char → Option (String × List Char)
  | '"' :: '"' :: '"' :: cs => ofChars (multiline? '"' (cs.length + 1) (skipNewline cs))
  | '\'' :: '\'' :: '\'' :: cs => ofChars (multiline? '\'' (cs.length + 1) (skipNewline cs))
  | '"' :: cs => ofChars (basic? cs.length cs)
  | '\'' :: cs => ofChars (literal? cs)
  | _ => none
where
  /-- The string of the characters that have been read. -/
  ofChars (found : Option (List Char × List Char)) : Option (String × List Char) :=
    found.map fun (text, rest) => (String.ofList text, rest)

/-! ## Numbers -/

/-- Digits that may be split by single underscores, and the text behind them. -/
def groupedDigits? (isDigit : Char → Bool) (cs : List Char) : Option (List Char × List Char) :=
  let run := cs.takeWhile fun c => isDigit c || c == '_'
  if wellGrouped run then some (run.filter (· != '_'), cs.drop run.length) else none
where
  /-- Every underscore stands between two digits, and there is a digit. -/
  wellGrouped : List Char → Bool
    | [] => false
    | [c] => isDigit c
    | c :: d :: cs => isDigit c && (if d == '_' then wellGrouped cs else wellGrouped (d :: cs))

/-- The sign of a number. -/
def sign : List Char → Bool × List Char
  | '-' :: cs => (true, cs)
  | '+' :: cs => (false, cs)
  | cs => (false, cs)

/-- Decimal digits without a leading zero. -/
def decimal? (cs : List Char) : Option (List Char × List Char) :=
  match cs with
  | '0' :: rest => some (['0'], rest)
  | _ => groupedDigits? Char.isDigit cs

/-- The power of ten of a number, if one follows. -/
def power? : List Char → Option (Option (Bool × List Char) × List Char)
  | c :: cs =>
    if c = 'e' ∨ c = 'E' then do
      let (negative, cs) := sign cs
      let (digits, cs) ← groupedDigits? Char.isDigit cs
      some (some (negative, digits), cs)
    else some (none, c :: cs)
  | [] => some (none, [])

/-- A number with a point or a power of ten is a double; one too large for a double is refused
unless it is negative. -/
def double? (numeral : Numeral) : Option Item :=
  let value := numeral.nearest
  if value.isInf && !numeral.negative then none else some (.float value)

/-- A whole number of 64 bits with a sign. -/
def whole? (negative : Bool) (digits : List Nat) (base : Nat) : Option Item :=
  let size := digits.foldl (fun n d => base * n + d) 0
  let value : Int := if negative then -(size : Int) else size
  if -0x8000000000000000 ≤ value ∧ value < 0x8000000000000000 then some (.int value) else none

/-- A whole number in another base, behind its mark. -/
def based? (base : Nat) (cs : List Char) : Option (Item × List Char) := do
  let isDigit (c : Char) := (Token.hexValue? c).any (· < base)
  let (digits, cs) ← groupedDigits? isDigit cs
  let values ← digits.mapM Token.hexValue?
  let item ← whole? false values base
  some (item, cs)

/-- A number in decimal digits. -/
def decimalNumber? (cs : List Char) : Option (Item × List Char) := do
  let (negative, cs) := sign cs
  let (whole, cs) ← decimal? cs
  match cs with
  | '.' :: cs => do
    let (fraction, cs) ← groupedDigits? Char.isDigit cs
    let (power, cs) ← power? cs
    let item ← double? ⟨negative, whole, fraction, power⟩
    some (item, cs)
  | cs => do
    let (power, cs) ← power? cs
    let item ←
      match power with
      | some _ => double? ⟨negative, whole, [], power⟩
      | none => whole? negative (whole.map Timestamp.digitValue) 10
    some (item, cs)

/-- A number of any form. Only a number in decimal digits has a sign. -/
def number? (cs : List Char) : Option (Item × List Char) :=
  match cs with
  | '0' :: 'x' :: rest => based? 16 rest
  | '0' :: 'o' :: rest => based? 8 rest
  | '0' :: 'b' :: rest => based? 2 rest
  | _ =>
    let (negative, rest) := sign cs
    match rest with
    | 'i' :: 'n' :: 'f' :: rest => some (.float (if negative then -(1 / 0) else 1 / 0), rest)
    | 'n' :: 'a' :: 'n' :: rest => some (.float (0 / 0), rest)
    | _ => decimalNumber? cs

/-! ## Dates and times -/

/-- A time of the day. The second 60 is allowed. -/
def timeOfDay? (cs : List Char) : Option (List Char) := do
  let (hour, cs) ← Timestamp.exactly? 2 cs
  let cs ← Timestamp.skip? ':' cs
  let (minute, cs) ← Timestamp.exactly? 2 cs
  let cs ← Timestamp.skip? ':' cs
  let (second, cs) ← Timestamp.exactly? 2 cs
  let (_, cs) ← Timestamp.fraction? cs
  if hour ≤ 23 ∧ minute ≤ 59 ∧ second ≤ 60 then some cs else none

/-- An offset from UTC. -/
def offset? : List Char → Option (List Char)
  | 'Z' :: cs | 'z' :: cs => some cs
  | '+' :: cs | '-' :: cs => do
    let (hour, cs) ← Timestamp.exactly? 2 cs
    let cs ← Timestamp.skip? ':' cs
    let (minute, cs) ← Timestamp.exactly? 2 cs
    if hour ≤ 23 ∧ minute ≤ 59 then some cs else none
  | _ => none

/-- A date. -/
def date? (cs : List Char) : Option (List Char) := do
  let (year, cs) ← Timestamp.exactly? 4 cs
  let cs ← Timestamp.skip? '-' cs
  let (month, cs) ← Timestamp.exactly? 2 cs
  let cs ← Timestamp.skip? '-' cs
  let (day, cs) ← Timestamp.exactly? 2 cs
  if 1 ≤ day ∧ day ≤ Calendar.monthLength year month then some cs else none

/-- Whether a text begins like a date or like a time of the day. -/
def beginsMoment (cs : List Char) : Bool :=
  let digits := (cs.takeWhile Char.isDigit).length
  (digits == 4 && cs[4]? == some '-') || (digits == 2 && cs[2]? == some ':')

/-- A date, a time of the day, or both with or without an offset. -/
def moment? (cs : List Char) : Option (Item × List Char) :=
  if cs[2]? == some ':' then (timeOfDay? cs).map fun rest => (.moment, rest)
  else do
    let rest ← date? cs
    let timed :=
      match Timestamp.skipDelimiter? rest with
      | some behind => timeOfDay? behind
      | none => none
    match timed with
    | some behind => some (.moment, (offset? behind).getD behind)
    | none => some (.moment, rest)

/-- Any value that holds no others. -/
def scalar? : List Char → Option (Item × List Char)
  | 't' :: 'r' :: 'u' :: 'e' :: cs => some (.bool true, cs)
  | 'f' :: 'a' :: 'l' :: 's' :: 'e' :: cs => some (.bool false, cs)
  | cs =>
    match string? cs with
    | some (text, rest) => some (.string text, rest)
    | none => if beginsMoment cs then moment? cs else number? cs

end PodCosts.Toml
