import PodCosts.Text.Utf8
import Mathlib.Algebra.Group.Nat.Defs
import Mathlib.Tactic.SplitIfs

/-!
# Reading back encoded text

Decoding the bytes of a string gives its characters. A character of several bytes is followed
through the reader: its first byte starts it, and every further byte lies in the range that is
allowed at its place.
-/

namespace PodCosts.Text

/-- A started character that the bytes of `n` can go on with: `n` without its last `missing`
groups of six bits has been read, and the next group is allowed. -/
structure Started.Awaits (started : Started) (n missing : Nat) : Prop where
  bits_eq : started.bits = n / 0x40 ^ missing
  missing_eq : started.missing = missing
  least_le : started.least ≤ 0x80 + n / 0x40 ^ (missing - 1) % 0x40
  le_most : 0x80 + n / 0x40 ^ (missing - 1) % 0x40 ≤ started.most

/-- The first byte of a character of two bytes. -/
theorem Started.ofLead?_two {n : Nat} (hleast : 0x80 ≤ n) (hmost : n < 0x800) :
    ∃ started, Started.ofLead? (0xC0 + n / 0x40) = some started ∧ started.Awaits n 1 := by
  refine ⟨⟨n / 0x40, 1, 0x80, 0xBF⟩, ?_, ⟨by simp, rfl, by simp, ?_⟩⟩
  · have hlead : (0xC2 ≤ 0xC0 + n / 0x40 && 0xC0 + n / 0x40 ≤ 0xDF) = true := by
      simp only [Bool.and_eq_true, decide_eq_true_eq]
      omega
    rw [Started.ofLead?, if_pos hlead]
    simp
  · simp only [Nat.sub_self, Nat.pow_zero, Nat.div_one]
    omega

/-- The first byte of a character of three bytes. Surrogates are not characters. -/
theorem Started.ofLead?_three {n : Nat} (hleast : 0x800 ≤ n) (hmost : n < 0x10000)
    (hvalid : n < 0xD800 ∨ 0xDFFF < n) :
    ∃ started, Started.ofLead? (0xE0 + n / 0x1000) = some started ∧ started.Awaits n 2 := by
  have hsecond : n / 0x40 % 0x40 = n / 0x40 - n / 0x1000 * 0x40 := by omega
  unfold Started.ofLead?
  split_ifs with h1 h2 h3 h4 h5 h6 h7 <;>
    simp only [Bool.and_eq_true, decide_eq_true_eq] at * <;>
    first
      | omega
      | refine ⟨_, rfl, ⟨?_, rfl, ?_, ?_⟩⟩ <;> simp only [Nat.reduceSub, Nat.reducePow] <;> omega

/-- The first byte of a character of four bytes. -/
theorem Started.ofLead?_four {n : Nat} (hleast : 0x10000 ≤ n) (hmost : n < 0x110000) :
    ∃ started, Started.ofLead? (0xF0 + n / 0x40000) = some started ∧ started.Awaits n 3 := by
  unfold Started.ofLead?
  split_ifs with h1 h2 h3 h4 h5 h6 h7 <;>
    simp only [Bool.and_eq_true, decide_eq_true_eq] at * <;>
    first
      | omega
      | refine ⟨_, rfl, ⟨?_, rfl, ?_, ?_⟩⟩ <;> simp only [Nat.reduceSub, Nat.reducePow] <;> omega

/-- A byte of a character that is not its last one. -/
theorem decodeFrom_next {started : Started} {n : Nat} (missing : Nat) (byte : UInt8)
    (bytes : List UInt8) (hstarted : started.Awaits n (missing + 2))
    (hbyte : byte.toNat = 0x80 + n / 0x40 ^ (missing + 1) % 0x40) :
    ∃ next, decodeFrom (some started) (byte :: bytes) = decodeFrom (some next) bytes ∧
      next.Awaits n (missing + 1) := by
  obtain ⟨hbits, hmissing, hleast, hmost⟩ := hstarted
  have hallowed : (started.least ≤ byte.toNat && byte.toNat ≤ started.most) = true := by
    simp only [Bool.and_eq_true, decide_eq_true_eq]
    exact ⟨hbyte ▸ hleast, hbyte ▸ hmost⟩
  refine ⟨⟨started.bits * 0x40 + byte.toNat % 0x40, started.missing - 1, 0x80, 0xBF⟩, ?_, ?_⟩
  · rw [decodeFrom, if_pos hallowed, if_neg (by omega)]
  · refine ⟨?_, by simp [hmissing], by simp, ?_⟩
    · have hsplit : n / 0x40 ^ (missing + 2) = n / 0x40 ^ (missing + 1) / 0x40 := by
        rw [Nat.pow_succ, Nat.div_div_eq_div_mul]
      simp only [hbits, hsplit, hbyte]
      omega
    · simp only [Nat.add_sub_cancel]
      omega

/-- The last byte of a character. -/
theorem decodeFrom_last {started : Started} {n : Nat} {byte : UInt8} (bytes : List UInt8)
    (hstarted : started.Awaits n 1) (hbyte : byte.toNat = 0x80 + n % 0x40) :
    decodeFrom (some started) (byte :: bytes) = some (Char.ofNat n) :: decodeFrom none bytes := by
  obtain ⟨hbits, hmissing, hleast, hmost⟩ := hstarted
  simp only [Nat.sub_self, Nat.pow_zero, Nat.div_one, Nat.pow_one] at hbits hleast hmost
  have hallowed : (started.least ≤ byte.toNat && byte.toNat ≤ started.most) = true := by
    simp only [Bool.and_eq_true, decide_eq_true_eq]
    exact ⟨hbyte ▸ hleast, hbyte ▸ hmost⟩
  have hvalue : started.bits * 0x40 + byte.toNat % 0x40 = n := by
    rw [hbits, hbyte]
    omega
  rw [decodeFrom, if_pos hallowed, if_pos (by omega), hvalue]

/-- A byte that starts a character. -/
theorem decodeFrom_lead {started : Started} {byte : UInt8} (bytes : List UInt8)
    (hbyte : 0x80 ≤ byte.toNat) (hlead : Started.ofLead? byte.toNat = some started) :
    decodeFrom none (byte :: bytes) = decodeFrom (some started) bytes := by
  simp only [decodeFrom, if_neg (Nat.not_lt.mpr hbyte), hlead]

/-- The number in a byte that is made from a small enough number. -/
theorem toNat_ofNat_byte {n : Nat} (h : n < 0x100) : (UInt8.ofNat n).toNat = n := by
  rw [UInt8.toNat_ofNat']
  exact Nat.mod_eq_of_lt h

/-- The bytes of a character are read as that character. -/
theorem decodeFrom_encodeChar (c : Char) (bytes : List UInt8) :
    decodeFrom none (encodeChar c ++ bytes) = some c :: decodeFrom none bytes := by
  have hvalid : c.toNat < 0xD800 ∨ 0xDFFF < c.toNat ∧ c.toNat < 0x110000 := c.valid
  have hchar : Char.ofNat c.toNat = c := Char.ofNat_toNat c
  unfold encodeChar
  dsimp only
  split_ifs with hone htwo hthree
  · have hbyte : (UInt8.ofNat c.toNat).toNat = c.toNat := toNat_ofNat_byte (by omega)
    rw [List.cons_append, List.nil_append, decodeFrom]
    simp only [hbyte, if_pos hone, hchar]
  · obtain ⟨started, hlead, hawaits⟩ := Started.ofLead?_two (Nat.not_lt.mp hone) htwo
    have hfirst := toNat_ofNat_byte (n := 0xC0 + c.toNat / 0x40) (by omega)
    rw [List.cons_append, decodeFrom_lead _ (by omega) (hfirst.symm ▸ hlead),
      List.cons_append, decodeFrom_last _ hawaits (toNat_ofNat_byte (by omega)), hchar]
    rfl
  · obtain ⟨started, hlead, hawaits⟩ :=
      Started.ofLead?_three (Nat.not_lt.mp htwo) hthree (by omega)
    have hfirst := toNat_ofNat_byte (n := 0xE0 + c.toNat / 0x1000) (by omega)
    obtain ⟨last, hlast, hawaits⟩ := decodeFrom_next 0
      (UInt8.ofNat (0x80 + c.toNat / 0x40 % 0x40)) (UInt8.ofNat (0x80 + c.toNat % 0x40) :: bytes)
      hawaits (toNat_ofNat_byte (by omega))
    rw [List.cons_append, decodeFrom_lead _ (by omega) (hfirst.symm ▸ hlead)]
    refine hlast.trans ?_
    rw [decodeFrom_last _ hawaits (toNat_ofNat_byte (by omega)), hchar]
  · obtain ⟨started, hlead, hawaits⟩ :=
      Started.ofLead?_four (Nat.not_lt.mp hthree) (by omega)
    have hfirst := toNat_ofNat_byte (n := 0xF0 + c.toNat / 0x40000) (by omega)
    obtain ⟨next, hnext, hawaits⟩ := decodeFrom_next 1
      (UInt8.ofNat (0x80 + c.toNat / 0x1000 % 0x40))
      (UInt8.ofNat (0x80 + c.toNat / 0x40 % 0x40) :: UInt8.ofNat (0x80 + c.toNat % 0x40) :: bytes)
      hawaits (toNat_ofNat_byte (by omega))
    obtain ⟨last, hlast, hawaits⟩ := decodeFrom_next 0
      (UInt8.ofNat (0x80 + c.toNat / 0x40 % 0x40)) (UInt8.ofNat (0x80 + c.toNat % 0x40) :: bytes)
      hawaits (toNat_ofNat_byte (by omega))
    rw [List.cons_append, decodeFrom_lead _ (by omega) (hfirst.symm ▸ hlead)]
    refine hnext.trans (hlast.trans ?_)
    rw [decodeFrom_last _ hawaits (toNat_ofNat_byte (by omega)), hchar]

/-- Decoding the bytes of a string gives its characters. -/
theorem decode_encode (s : String) : decode (encode s) = s.toList.map some := by
  have hchars (cs : List Char) : decodeFrom none (cs.flatMap encodeChar) = cs.map some := by
    induction cs with
    | nil => rfl
    | cons c cs ih => rw [List.flatMap_cons, decodeFrom_encodeChar, ih, List.map_cons]
  exact hchars s.toList

/-- The bytes of a string are text throughout. -/
theorem decodeStrict?_encode (s : String) : decodeStrict? (encode s) = some s.toList := by
  rw [decodeStrict?, decode_encode, allPresent_map_some]

end PodCosts.Text
