import PodCosts.Proofs.Text.Utf8
import Mathlib.Data.String.Basic

/-!
# The order of encoded text

Strings are compared character by character. Their bytes are in the same order: of two characters
the smaller one has the smaller bytes, whatever follows, because a longer encoding begins with a
greater byte and encodings of one length are digits of the same base.
-/

namespace PodCosts.Text

/-- The bytes of a smaller character are smaller, whatever follows. -/
theorem encodeChar_append_lt {c d : Char} (hlt : c < d) (rest others : List UInt8) :
    encodeChar c ++ rest < encodeChar d ++ others := by
  have hnumber : c.toNat < d.toNat := hlt
  have hvalid : d.toNat < 0xD800 ∨ 0xDFFF < d.toNat ∧ d.toNat < 0x110000 := d.valid
  have hlast : d.toNat < 0x110000 := by omega
  unfold encodeChar
  dsimp only
  -- The lengths of the two encodings decide, and then the first group of bits that differs.
  split_ifs <;>
    simp (disch := omega) only [List.cons_append, List.nil_append, List.cons_lt_cons_iff,
      UInt8.lt_iff_toNat_lt, ← UInt8.toNat_inj, toNat_ofNat_byte] <;>
    omega

/-- No character is encoded by nothing. -/
theorem encodeChar_ne_nil (c : Char) : encodeChar c ≠ [] := by
  unfold encodeChar
  dsimp only
  split_ifs <;> exact List.cons_ne_nil _ _

/-- Characters that are in order have bytes that are in order. -/
theorem flatMap_encodeChar_lt {cs ds : List Char} (hlt : cs < ds) :
    cs.flatMap encodeChar < ds.flatMap encodeChar := by
  induction cs generalizing ds with
  | nil =>
    cases ds with
    | nil => exact absurd hlt (List.lt_irrefl _)
    | cons d ds =>
      obtain ⟨byte, bytes, hbytes⟩ := List.exists_cons_of_ne_nil (encodeChar_ne_nil d)
      rw [List.flatMap_cons, hbytes]
      exact List.nil_lt_cons _ _
  | cons c cs ih =>
    cases ds with
    | nil => exact absurd hlt (List.not_lt_nil _)
    | cons d ds =>
      rw [List.flatMap_cons, List.flatMap_cons]
      rcases List.cons_lt_cons_iff.mp hlt with hfirst | ⟨rfl, hrest⟩
      · exact encodeChar_append_lt hfirst _ _
      · exact List.append_left_lt (ih hrest)

/-- Strings in order are encoded by bytes in order. -/
theorem encode_lt_encode {s t : String} (hlt : s < t) : encode s < encode t :=
  flatMap_encodeChar_lt (String.lt_iff_toList_lt.mp hlt)

/-- Strings are in the order of their bytes. -/
theorem encode_le_encode_iff {s t : String} : encode s ≤ encode t ↔ s ≤ t := by
  constructor
  · intro hbytes
    by_contra hle
    exact hbytes (encode_lt_encode (not_le.mp hle))
  · intro hle
    rcases hle.lt_or_eq with hlt | rfl
    · exact List.le_of_lt (encode_lt_encode hlt)
    · exact List.le_refl _

end PodCosts.Text
