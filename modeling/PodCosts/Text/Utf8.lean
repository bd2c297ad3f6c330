/-!
# UTF-8

Answers of a store and configuration files are bytes. `decode` reads them as characters and keeps
going over bytes that are not text: each longest piece that could have begun a character but did
not become one stands as a single `none`. Strict and lossy reading are two views of that list.
-/

namespace PodCosts.Text

/-- The bytes of one character. -/
def encodeChar (c : Char) : List UInt8 :=
  let n := c.toNat
  if n < 0x80 then [UInt8.ofNat n]
  else if n < 0x800 then [UInt8.ofNat (0xC0 + n / 0x40), UInt8.ofNat (0x80 + n % 0x40)]
  else if n < 0x10000 then
    [UInt8.ofNat (0xE0 + n / 0x1000), UInt8.ofNat (0x80 + n / 0x40 % 0x40),
      UInt8.ofNat (0x80 + n % 0x40)]
  else
    [UInt8.ofNat (0xF0 + n / 0x40000), UInt8.ofNat (0x80 + n / 0x1000 % 0x40),
      UInt8.ofNat (0x80 + n / 0x40 % 0x40), UInt8.ofNat (0x80 + n % 0x40)]

/-- The bytes of a string. -/
def encode (s : String) : List UInt8 :=
  s.toList.flatMap encodeChar

/-- A character whose first bytes have been read: its bits so far, how many bytes are missing, and
the range the next of them must lie in. -/
structure Started where
  bits : Nat
  missing : Nat
  least : Nat
  most : Nat

/-- What a byte of 0x80 or more starts. The narrower second ranges shut out spellings that are too
long, surrogates, and code points past the last one. -/
def Started.ofLead? (b : Nat) : Option Started :=
  if 0xC2 ≤ b && b ≤ 0xDF then some ⟨b - 0xC0, 1, 0x80, 0xBF⟩
  else if b = 0xE0 then some ⟨0, 2, 0xA0, 0xBF⟩
  else if b = 0xED then some ⟨0xD, 2, 0x80, 0x9F⟩
  else if 0xE1 ≤ b && b ≤ 0xEF then some ⟨b - 0xE0, 2, 0x80, 0xBF⟩
  else if b = 0xF0 then some ⟨0, 3, 0x90, 0xBF⟩
  else if 0xF1 ≤ b && b ≤ 0xF3 then some ⟨b - 0xF0, 3, 0x80, 0xBF⟩
  else if b = 0xF4 then some ⟨4, 3, 0x80, 0x8F⟩
  else none

/-- Reads the bytes that follow a started character, if there is one. -/
def decodeFrom : Option Started → List UInt8 → List (Option Char)
  | none, [] => []
  | some _, [] => [none]
  | none, byte :: bytes =>
    let b := byte.toNat
    if b < 0x80 then some (Char.ofNat b) :: decodeFrom none bytes
    else
      match Started.ofLead? b with
      | some started => decodeFrom (some started) bytes
      | none => none :: decodeFrom none bytes
  | some started, byte :: bytes =>
    let b := byte.toNat
    if started.least ≤ b && b ≤ started.most then
      let bits := started.bits * 0x40 + b % 0x40
      if started.missing ≤ 1 then some (Char.ofNat bits) :: decodeFrom none bytes
      else decodeFrom (some ⟨bits, started.missing - 1, 0x80, 0xBF⟩) bytes
    else if b < 0x80 then none :: some (Char.ofNat b) :: decodeFrom none bytes
    else
      match Started.ofLead? b with
      | some next => none :: decodeFrom (some next) bytes
      | none => none :: none :: decodeFrom none bytes

/-- The characters of a byte sequence, with `none` for each piece that is not text. -/
def decode (bytes : List UInt8) : List (Option Char) :=
  decodeFrom none bytes

/-- All the elements, when none is missing. -/
def allPresent {α : Type} : List (Option α) → Option (List α)
  | [] => some []
  | none :: _ => none
  | some x :: xs => (allPresent xs).map (x :: ·)

/-- The characters of a byte sequence that is text throughout. -/
def decodeStrict? (bytes : List UInt8) : Option (List Char) :=
  allPresent (decode bytes)

/-- The characters of a byte sequence, with the replacement character for what is not text. -/
def decodeLossy (bytes : List UInt8) : List Char :=
  (decode bytes).map fun unit => unit.getD '\ufffd'

/-- A list in which nothing is missing is given as it is. -/
theorem allPresent_map_some {α : Type} (xs : List α) : allPresent (xs.map some) = some xs := by
  induction xs with
  | nil => rfl
  | cons x xs ih => simp [allPresent, ih]

example : decode [0xE1, 0x80, 0x41] = [none, some 'A'] := by decide
example : decode (encode "é日😀") = [some 'é', some '日', some '😀'] := by decide

end PodCosts.Text
