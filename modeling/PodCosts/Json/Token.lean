import PodCosts.Json.Numeral
import PodCosts.Text.Utf8

/-!
# Tokens of documents

A document is cut into brackets, commas, colons, words, numerals and strings. The text may hold
pieces that are not characters: inside a string they make the string unreadable, and anywhere else
they are refused. An unreadable string is still a string, so a value that nobody asks for may hold
one.
-/

namespace PodCosts

/-- One part of a string literal. -/
inductive Piece where
  | char (value : Char)
  /-- A code unit written as four hexadecimal digits. -/
  | code (value : Nat)
  /-- A piece of the input that is not a character. -/
  | broken
deriving DecidableEq

namespace Piece

/-- The characters of a string. A code unit is a character by itself, or the first of a surrogate
pair with the second behind it; nothing else is readable. -/
def read? : List Piece → Option (List Char)
  | [] => some []
  | .char c :: pieces => (read? pieces).map (c :: ·)
  | .code high :: .code low :: pieces =>
    if 0xD800 ≤ high ∧ high < 0xDC00 ∧ 0xDC00 ≤ low ∧ low < 0xE000 then
      (read? pieces).map
        (Char.ofNat (0x10000 + (high - 0xD800) * 0x400 + (low - 0xDC00)) :: ·)
    else if 0xD800 ≤ high ∧ high < 0xE000 then none
    else (read? (.code low :: pieces)).map (Char.ofNat high :: ·)
  | .code unit :: pieces =>
    if 0xD800 ≤ unit ∧ unit < 0xE000 then none
    else (read? pieces).map (Char.ofNat unit :: ·)
  | .broken :: _ => none

end Piece

/-- A token. A string holds its text, or `none` where it is unreadable. -/
inductive Token where
  | openObject
  | closeObject
  | openArray
  | closeArray
  | comma
  | colon
  | null
  | bool (value : Bool)
  | number (value : Numeral)
  | string (text : Option String)

namespace Token

/-- What the reader is in the middle of. Text read so far is kept backwards. -/
inductive Pending where
  | nothing
  | word (letters : List Char)
  | numeral (chars : List Char)
  | string (pieces : List Piece)
  | escape (pieces : List Piece)
  /-- A code unit of which `missing` hexadecimal digits are still to come. -/
  | code (pieces : List Piece) (missing value : Nat)

/-- The four blanks of the format. -/
def isSpace (c : Char) : Bool :=
  c == ' ' || c == '\t' || c == '\n' || c == '\r'

/-- The characters of which numerals are made. -/
def inNumeral (c : Char) : Bool :=
  c.isDigit || c == '-' || c == '+' || c == '.' || c == 'e' || c == 'E'

/-- The words of the format. -/
def ofWord? (letters : List Char) : Option Token :=
  if letters = ['n', 'u', 'l', 'l'] then some .null
  else if letters = ['t', 'r', 'u', 'e'] then some (.bool true)
  else if letters = ['f', 'a', 'l', 's', 'e'] then some (.bool false)
  else none

/-- The string with the given pieces. -/
def ofPieces (pieces : List Piece) : Token :=
  .string ((Piece.read? pieces).map String.ofList)

/-- The character that a letter behind a backslash stands for. -/
def unescape? (c : Char) : Option Char :=
  if c = '"' ∨ c = '\\' ∨ c = '/' then some c
  else if c = 'b' then some '\x08'
  else if c = 'f' then some '\x0c'
  else if c = 'n' then some '\n'
  else if c = 'r' then some '\r'
  else if c = 't' then some '\t'
  else none

/-- The value of a hexadecimal digit of either case. -/
def hexValue? (c : Char) : Option Nat :=
  if c.isDigit then some (c.toNat - '0'.toNat)
  else if 'a' ≤ c ∧ c ≤ 'f' then some (c.toNat - 'a'.toNat + 10)
  else if 'A' ≤ c ∧ c ≤ 'F' then some (c.toNat - 'A'.toNat + 10)
  else none

/-- A character outside of words, numerals and strings. -/
def start? (c : Char) : Option (List Token × Pending) :=
  if isSpace c then some ([], .nothing)
  else if c = '\x7b' then some ([.openObject], .nothing)
  else if c = '\x7d' then some ([.closeObject], .nothing)
  else if c = '[' then some ([.openArray], .nothing)
  else if c = ']' then some ([.closeArray], .nothing)
  else if c = ',' then some ([.comma], .nothing)
  else if c = ':' then some ([.colon], .nothing)
  else if c = '"' then some ([], .string [])
  else if c.isDigit || c == '-' then some ([], .numeral [c])
  else if c.isAlpha then some ([], .word [c])
  else none

/-- The next character of the text: the tokens it completes, and what is in the middle then. -/
def step? : Pending → Option Char → Option (List Token × Pending)
  | .nothing, some c => start? c
  | .word letters, some c =>
    if c.isAlpha then some ([], .word (c :: letters))
    else do
      let token ← ofWord? letters.reverse
      let (tokens, pending) ← start? c
      some (token :: tokens, pending)
  | .numeral chars, some c =>
    if inNumeral c then some ([], .numeral (c :: chars))
    else do
      let value ← Numeral.ofChars? chars.reverse
      let (tokens, pending) ← start? c
      some (.number value :: tokens, pending)
  | .string pieces, some c =>
    if c = '"' then some ([ofPieces pieces.reverse], .nothing)
    else if c = '\\' then some ([], .escape pieces)
    else if c.toNat < 0x20 then none
    else some ([], .string (.char c :: pieces))
  | .string pieces, none => some ([], .string (.broken :: pieces))
  | .escape pieces, some c =>
    if c = 'u' then some ([], .code pieces 4 0)
    else (unescape? c).map fun unescaped => ([], .string (.char unescaped :: pieces))
  | .code pieces missing value, some c =>
    (hexValue? c).map fun digit =>
      let next := 16 * value + digit
      if missing ≤ 1 then ([], .string (.code next :: pieces))
      else ([], .code pieces (missing - 1) next)
  | _, none => none

/-- The end of the text. -/
def finish? : Pending → Option (List Token)
  | .nothing => some []
  | .word letters => (ofWord? letters.reverse).map ([·])
  | .numeral chars => (Numeral.ofChars? chars.reverse).map fun value => [.number value]
  | _ => none

/-- The tokens of a text that begins in the middle of something. -/
def readFrom? (pending : Pending) : List (Option Char) → Option (List Token)
  | [] => finish? pending
  | c :: cs => do
    let (tokens, next) ← step? pending c
    let rest ← readFrom? next cs
    some (tokens ++ rest)

/-- The tokens of a text. -/
def read? (text : List (Option Char)) : Option (List Token) :=
  readFrom? .nothing text

end Token

end PodCosts
