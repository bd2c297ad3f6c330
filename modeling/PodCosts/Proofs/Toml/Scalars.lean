import PodCosts.Proofs.Json.Tokens
import PodCosts.Toml.Reader
import PodCosts.Toml.Writer

/-!
# Values of settings files

A value that was written is read back, with the rest of the file behind it. Behind a value its line
ends, so the lemmas ask for a rest that begins with a line break.
-/

namespace PodCosts.Toml

open Number (digitChars)

/-- A character that passes a test is none of those that fail it. -/
theorem ne_of_true_of_false {test : Char → Bool} {c d : Char} (hc : test c = true)
    (hd : test d = false) : c ≠ d := by
  rintro rfl
  rw [hc] at hd
  cases hd

/-! ## Strings -/

/-- Two hexadecimal digits behind two zeros are read as the character they stand for. -/
theorem codePoint?_byte {n : Nat} (hn : n < 0x100) (rest : List Char) :
    codePoint? 4 ('0' :: '0' :: Text.hexDigit (n / 16) :: Text.hexDigit (n % 16) :: rest) =
      some (Char.ofNat n, rest) := by
  have hfirst := Token.hexValue?_hexDigit (n / 16) (by omega)
  have hsecond := Token.hexValue?_hexDigit (n % 16) (by omega)
  have hzero : Token.hexValue? '0' = some 0 := by decide
  have hvalue : 16 * (n / 16) + n % 16 = n := Nat.div_add_mod n 16
  have hvalid : n.isValidChar := .inl (by omega)
  simp [codePoint?, hfirst, hsecond, hzero, hvalue, hvalid]

/-- A string goes on with the character that stands behind a backslash. -/
theorem basic?_escape {cs after : List Char} {c : Char} (h : escape? cs = some (c, after))
    (fuel : Nat) :
    basic? (fuel + 1) ('\\' :: cs) =
      (basic? fuel after).map fun found => (c :: found.1, found.2) := by
  rw [basic?, h]
  exact (Option.map_eq_bind ..).symm

/-- A string goes on with a character that needs no escape. -/
theorem basic?_plain {c : Char} (hquote : c ≠ '"') (hbackslash : c ≠ '\\')
    (hplain : isPlain c = true) (fuel : Nat) (cs : List Char) :
    basic? (fuel + 1) (c :: cs) = (basic? fuel cs).map fun found => (c :: found.1, found.2) := by
  rw [basic?, if_pos hplain]
  · exact (Option.map_eq_bind ..).symm
  · exact fun h => hquote (by simpa using h)
  · exact fun h => hbackslash (by simpa using h)

/-- A character either stands for itself in a string, or a backslash begins what is read as it. -/
theorem escapeChar_cases (c : Char) :
    (escapeChar c = [c] ∧ c ≠ '"' ∧ c ≠ '\\' ∧ isPlain c = true) ∨
      ∃ cs, escapeChar c = '\\' :: cs ∧ ∀ rest, escape? (cs ++ rest) = some (c, rest) := by
  by_cases hdelete : c = '\x7f'
  · subst hdelete
    exact .inr ⟨_, rfl, codePoint?_byte (n := 0x7f) (by decide)⟩
  by_cases hnamed : c ∈ ['"', '\\', '\x08', '\t', '\n', '\x0c', '\r']
  · simp only [List.mem_cons, List.not_mem_nil, or_false] at hnamed
    rcases hnamed with rfl | rfl | rfl | rfl | rfl | rfl | rfl <;>
      exact .inr ⟨_, rfl, fun _ => rfl⟩
  · simp only [List.mem_cons, List.not_mem_nil, or_false, not_or] at hnamed
    obtain ⟨hquote, hbackslash, hbackspace, htab, hline, hfeed, hreturn⟩ := hnamed
    rw [escapeChar, if_neg hdelete, Text.escapeChar, if_neg hquote, if_neg hbackslash,
      if_neg hbackspace, if_neg htab, if_neg hline, if_neg hfeed, if_neg hreturn]
    by_cases hcontrol : c.toNat < 0x20
    · rw [if_pos hcontrol]
      refine .inr ⟨_, rfl, fun rest => ?_⟩
      have hcode := codePoint?_byte (n := c.toNat) (by omega) rest
      rwa [Char.ofNat_toNat] at hcode
    · have hne : c.toNat ≠ 0x7f := fun h => hdelete (by rw [← Char.ofNat_toNat c, h])
      rw [if_neg hcontrol]
      exact .inl ⟨rfl, hquote, hbackslash, by simp [isPlain, hne]; omega⟩

/-- A character of a string is read back. -/
theorem basic?_escapeChar (c : Char) (fuel : Nat) (rest : List Char) :
    basic? (fuel + 1) (escapeChar c ++ rest) =
      (basic? fuel rest).map fun found => (c :: found.1, found.2) := by
  rcases escapeChar_cases c with ⟨hself, hquote, hbackslash, hplain⟩ | ⟨cs, hescaped, hread⟩
  · rw [hself]
    exact basic?_plain hquote hbackslash hplain fuel rest
  · rw [hescaped]
    exact basic?_escape (hread rest) fuel

/-- The characters of a string are read back, up to the quote that ends it. -/
theorem basic?_escapeChars {cs : List Char} {fuel : Nat} (hfuel : cs.length ≤ fuel)
    (rest : List Char) : basic? fuel (cs.flatMap escapeChar ++ '"' :: rest) = some (cs, rest) := by
  induction cs generalizing fuel with
  | nil => rw [List.flatMap_nil, List.nil_append, basic?]
  | cons c cs ih =>
      obtain ⟨fuel, rfl⟩ : ∃ less, fuel = less + 1 := ⟨fuel - 1, by simp at hfuel; omega⟩
      rw [List.flatMap_cons, List.append_assoc, basic?_escapeChar,
        ih (Nat.le_of_succ_le_succ hfuel), Option.map_some]

/-- What stands for a character is not empty, and does not begin with a quote. -/
theorem exists_escapeChar_eq_cons (c : Char) :
    ∃ first others, escapeChar c = first :: others ∧ first ≠ '"' := by
  rcases escapeChar_cases c with ⟨hself, hquote, -, -⟩ | ⟨cs, hescaped, -⟩
  · exact ⟨c, [], hself, hquote⟩
  · exact ⟨'\\', cs, hescaped, by decide⟩

/-- A character takes at least one place in a string. -/
theorem length_le_length_escapeChars (cs : List Char) :
    cs.length ≤ (cs.flatMap escapeChar).length := by
  induction cs with
  | nil => exact Nat.le_refl 0
  | cons c cs ih =>
      obtain ⟨first, others, hchar, -⟩ := exists_escapeChar_eq_cons c
      rw [List.flatMap_cons, hchar, List.length_append, List.length_cons, List.length_cons]
      omega

/-- A string stands between two quotes. -/
theorem chars_text_append (value : String) (rest : List Char) :
    (Scalar.text value).chars ++ rest =
      '"' :: (value.toList.flatMap escapeChar ++ '"' :: rest) := by
  simp [Scalar.chars]

/-- A string is read back. -/
theorem string?_text (value : String) (rest : List Char) :
    string? ((Scalar.text value).chars ++ '\n' :: rest) = some (value, '\n' :: rest) := by
  have hread : ∀ fuel, value.toList.length ≤ fuel →
      basic? fuel (value.toList.flatMap escapeChar ++ '"' :: '\n' :: rest) =
        some (value.toList, '\n' :: rest) := fun _ hfuel => basic?_escapeChars hfuel _
  have hlength := length_le_length_escapeChars value.toList
  have hsingle : ∀ cs,
      value.toList.flatMap escapeChar ++ '"' :: '\n' :: rest ≠ '"' :: '"' :: cs := by
    intro cs htriple
    cases hvalue : value.toList with
    | nil => simp [hvalue] at htriple
    | cons c others =>
        obtain ⟨first, tail, hchar, hne⟩ := exists_escapeChar_eq_cons c
        rw [hvalue, List.flatMap_cons, hchar] at htriple
        exact hne (List.cons.inj htriple).1
  rw [chars_text_append, string?]
  · rw [hread _ (by rw [List.length_append]; omega), string?.ofChars, Option.map_some]
    dsimp only
    rw [String.ofList_toList]
  · exact hsingle

/-- A string is read as a value. -/
theorem scalar?_text (value : String) (rest : List Char) :
    scalar? ((Scalar.text value).chars ++ '\n' :: rest) = some (.string value, '\n' :: rest) := by
  have hstring := string?_text value rest
  rw [chars_text_append] at hstring ⊢
  rw [scalar?, hstring]
  · exact fun _ h => absurd (List.cons.inj h).1 (by decide)
  · exact fun _ h => absurd (List.cons.inj h).1 (by decide)

/-! ## Numbers -/

section Digits

variable {digits : List Char} {c : Char} {rest : List Char}

/-- Digits without an underscore are grouped well. -/
theorem wellGrouped_of_isDigit (hdigits : ∀ d ∈ digits, d.isDigit = true) (hne : digits ≠ []) :
    groupedDigits?.wellGrouped Char.isDigit digits = true := by
  induction digits with
  | nil => exact absurd rfl hne
  | cons d digits ih =>
      obtain ⟨hd, hdigits⟩ := List.forall_mem_cons.mp hdigits
      cases digits with
      | nil => exact hd
      | cons e digits =>
          have he : e ≠ '_' := ne_of_true_of_false (hdigits e List.mem_cons_self) rfl
          rw [groupedDigits?.wellGrouped, hd, Bool.true_and, if_neg (by simpa using he)]
          exact ih hdigits (List.cons_ne_nil _ _)

/-- A row of digits ends where no digit and no underscore follows. -/
theorem groupedDigits?_append (hdigits : ∀ d ∈ digits, d.isDigit = true) (hne : digits ≠ [])
    (hc : c.isDigit = false) (hgap : c ≠ '_') :
    groupedDigits? Char.isDigit (digits ++ c :: rest) = some (digits, c :: rest) := by
  have hrun : (digits ++ c :: rest).takeWhile (fun d => d.isDigit || d == '_') = digits := by
    rw [List.takeWhile_append_of_pos (fun d hd => by simp [hdigits d hd]),
      List.takeWhile_cons_of_neg (by simp [hc, hgap]), List.append_nil]
  have hkept : digits.filter (· != '_') = digits :=
    List.filter_eq_self.mpr fun d hd => by simpa using ne_of_true_of_false (hdigits d hd) rfl
  rw [groupedDigits?, hrun, if_pos (wellGrouped_of_isDigit hdigits hne), hkept, List.drop_left]

/-- A text that begins with digits and goes on with neither a minus nor a colon does not begin like
a date or a time. -/
theorem beginsMoment_append (hdigits : ∀ d ∈ digits, d.isDigit = true) (hc : c.isDigit = false)
    (hdate : c ≠ '-') (htime : c ≠ ':') : beginsMoment (digits ++ c :: rest) = false := by
  have hrun : (digits ++ c :: rest).takeWhile Char.isDigit = digits :=
    Numeral.takeWhile_isDigit_append hdigits (List.takeWhile_cons_of_neg (by simp [hc]))
  have hnext : (digits ++ c :: rest)[digits.length]? = some c := by simp
  rw [beginsMoment, hrun]
  by_cases hfour : digits.length = 4
  · rw [← hfour, hnext]
    simp [hfour, hdate]
  · by_cases htwo : digits.length = 2
    · rw [← htwo, hnext]
      simp [htwo, htime]
    · simp [hfour, htwo]

end Digits

section Numerals

variable {numeral : Numeral} {rest : List Char}

/-- The whole part of a numeral is read back. -/
theorem decimal?_whole (hcanonical : numeral.Canonical) {c : Char} (hc : c.isDigit = false)
    (hgap : c ≠ '_') :
    decimal? (numeral.whole ++ c :: rest) = some (numeral.whole, c :: rest) := by
  obtain ⟨first, others, hwhole⟩ := List.exists_cons_of_ne_nil hcanonical.whole_ne_nil
  by_cases hzero : first = '0'
  · have hlength := hcanonical.length_whole (by rw [hwhole, hzero, List.head?_cons])
    obtain rfl : others = [] := by simpa [hwhole] using hlength
    rw [hwhole, hzero, List.singleton_append, decimal?]
  · rw [hwhole, List.cons_append, decimal?]
    · rw [← List.cons_append, ← hwhole]
      exact groupedDigits?_append hcanonical.isDigit_whole hcanonical.whole_ne_nil hc hgap
    · exact fun _ h => hzero (List.cons.inj h).1

/-- Behind the whole part of a numeral without a power of ten stands a point or the end of its
line. -/
theorem exists_sizeChars_append (hpower : numeral.power = none) (rest : List Char) :
    ∃ c tail, numeral.sizeChars ++ '\n' :: rest = numeral.whole ++ c :: tail ∧
      (c = '.' ∨ c = '\n') := by
  rw [Numeral.sizeChars, hpower, Numeral.powerChars, List.append_nil, List.append_assoc]
  cases numeral.fraction with
  | nil => exact ⟨'\n', rest, rfl, .inr rfl⟩
  | cons d digits => exact ⟨'.', _, rfl, .inl rfl⟩

/-- The sign of a numeral is read back. -/
theorem sign_chars (hcanonical : numeral.Canonical) (rest : List Char) :
    sign (numeral.chars ++ rest) = (numeral.negative, numeral.sizeChars ++ rest) := by
  obtain ⟨first, others, hwhole⟩ := List.exists_cons_of_ne_nil hcanonical.whole_ne_nil
  have hfirst : first.isDigit = true := hcanonical.isDigit_whole first (by simp [hwhole])
  cases hnegative : numeral.negative with
  | true => rw [Numeral.chars, if_pos hnegative, List.cons_append, sign]
  | false =>
      have hsize : numeral.sizeChars ++ rest =
          first :: (others ++ (Numeral.fractionChars numeral.fraction ++
            Numeral.powerChars numeral.power) ++ rest) := by
        rw [Numeral.sizeChars, hwhole, List.cons_append, List.cons_append]
      rw [Numeral.chars, if_neg (by simp [hnegative]), hsize, sign]
      · exact fun _ h => ne_of_true_of_false hfirst rfl (List.cons.inj h).1
      · exact fun _ h => ne_of_true_of_false hfirst rfl (List.cons.inj h).1

/-- A numeral is no number in another base, and none that has a name. -/
theorem number?_chars (hcanonical : numeral.Canonical) (hpower : numeral.power = none)
    (rest : List Char) :
    number? (numeral.chars ++ '\n' :: rest) = decimalNumber? (numeral.chars ++ '\n' :: rest) := by
  obtain ⟨first, others, hwhole⟩ := List.exists_cons_of_ne_nil hcanonical.whole_ne_nil
  have hfirst : first.isDigit = true := hcanonical.isDigit_whole first (by simp [hwhole])
  obtain ⟨c, tail, hsize, hc⟩ := exists_sizeChars_append hpower rest
  have hbase : ∀ mark cs, numeral.chars ++ '\n' :: rest = '0' :: mark :: cs →
      mark = '.' ∨ mark = '\n' := by
    intro mark cs hchars
    cases hnegative : numeral.negative with
    | true =>
        rw [Numeral.chars, if_pos hnegative] at hchars
        exact absurd (List.cons.inj hchars).1 (by decide)
    | false =>
        rw [Numeral.chars, if_neg (by simp [hnegative]), hsize, hwhole] at hchars
        obtain ⟨rfl, hothers⟩ := List.cons.inj hchars
        have hlength := hcanonical.length_whole (by rw [hwhole, List.head?_cons])
        obtain rfl : others = [] := by simpa [hwhole] using hlength
        obtain ⟨rfl, -⟩ := List.cons.inj hothers
        exact hc
  have hnamed : ∀ d cs, numeral.sizeChars ++ '\n' :: rest = d :: cs → d.isDigit = true := by
    intro d cs hchars
    rw [hsize, hwhole] at hchars
    exact (List.cons.inj hchars).1 ▸ hfirst
  rw [number?]
  · rw [sign_chars hcanonical]
    dsimp only
    split
    · rename_i cs hname
      exact absurd (hnamed 'i' _ hname) (by decide)
    · rename_i cs hname
      exact absurd (hnamed 'n' _ hname) (by decide)
    · rfl
  · exact fun cs h => absurd (hbase 'x' cs h) (by decide)
  · exact fun cs h => absurd (hbase 'o' cs h) (by decide)
  · exact fun cs h => absurd (hbase 'b' cs h) (by decide)

/-- A numeral does not begin like a date or a time. -/
theorem beginsMoment_chars (hcanonical : numeral.Canonical) (hpower : numeral.power = none)
    (rest : List Char) : beginsMoment (numeral.chars ++ '\n' :: rest) = false := by
  obtain ⟨c, tail, hsize, hc⟩ := exists_sizeChars_append hpower rest
  cases hnegative : numeral.negative with
  | true =>
      rw [Numeral.chars, if_pos hnegative]
      rfl
  | false =>
      rw [Numeral.chars, if_neg (by simp [hnegative]), hsize]
      obtain rfl | rfl := hc <;>
        exact beginsMoment_append hcanonical.isDigit_whole rfl (by decide) (by decide)

/-- A numeral begins with a digit or with a minus. -/
theorem exists_chars_eq_cons (hcanonical : numeral.Canonical) :
    ∃ first others, numeral.chars = first :: others ∧ (first.isDigit = true ∨ first = '-') := by
  obtain ⟨first, others, hwhole⟩ := List.exists_cons_of_ne_nil hcanonical.whole_ne_nil
  unfold Numeral.chars
  split_ifs
  · exact ⟨'-', _, rfl, .inr rfl⟩
  · exact ⟨first, _, by rw [Numeral.sizeChars, hwhole, List.cons_append],
      .inl (hcanonical.isDigit_whole first (by simp [hwhole]))⟩

/-- A numeral is read as a number in decimal digits. -/
theorem scalar?_chars (hcanonical : numeral.Canonical) (hpower : numeral.power = none)
    (rest : List Char) :
    scalar? (numeral.chars ++ '\n' :: rest) = decimalNumber? (numeral.chars ++ '\n' :: rest) := by
  have hmoment := beginsMoment_chars hcanonical hpower rest
  have hnumber := number?_chars hcanonical hpower rest
  obtain ⟨first, others, hchars, hfirst⟩ := exists_chars_eq_cons hcanonical
  have hother : ∀ d : Char, d.isDigit = false → d ≠ '-' → first ≠ d := by
    intro d hdigit hminus
    obtain hfirst | rfl := hfirst
    · exact ne_of_true_of_false hfirst hdigit
    · exact hminus.symm
  rw [hchars, List.cons_append] at hmoment hnumber ⊢
  have hstring : string? (first :: (others ++ '\n' :: rest)) = none := by
    rw [string?]
    · exact fun _ h => hother '"' rfl (by decide) (List.cons.inj h).1
    · exact fun _ h => hother '\'' rfl (by decide) (List.cons.inj h).1
    · exact fun _ h => hother '"' rfl (by decide) (List.cons.inj h).1
    · exact fun _ h => hother '\'' rfl (by decide) (List.cons.inj h).1
  rw [scalar?, hstring]
  · dsimp only
    rw [hmoment, if_neg Bool.false_ne_true, hnumber]
  · exact fun _ h => hother 't' rfl (by decide) (List.cons.inj h).1
  · exact fun _ h => hother 'f' rfl (by decide) (List.cons.inj h).1

/-- Where the line ends no power of ten follows. -/
theorem power?_newline (rest : List Char) : power? ('\n' :: rest) = some (none, '\n' :: rest) := by
  rw [power?, if_neg (by decide)]

/-- A numeral with a point is read as the double nearest to it. -/
theorem scalar?_double (hcanonical : numeral.Canonical) (hpower : numeral.power = none)
    (hfraction : numeral.fraction ≠ []) (rest : List Char) :
    scalar? (numeral.chars ++ '\n' :: rest) =
      (double? numeral).map fun item => (item, '\n' :: rest) := by
  have hsize : numeral.sizeChars ++ '\n' :: rest =
      numeral.whole ++ '.' :: (numeral.fraction ++ '\n' :: rest) := by
    rw [Numeral.sizeChars, hpower, Numeral.fractionChars_of_ne_nil hfraction]
    simp [Numeral.powerChars]
  have hnumeral : (⟨numeral.negative, numeral.whole, numeral.fraction, none⟩ : Numeral) =
      numeral := by
    rw [← hpower]
  rw [scalar?_chars hcanonical hpower, decimalNumber?, sign_chars hcanonical, hsize]
  simp only [decimal?_whole hcanonical rfl (by decide : '.' ≠ '_'), Option.bind_eq_bind,
    Option.bind_some, groupedDigits?_append hcanonical.isDigit_fraction hfraction rfl
      (by decide : '\n' ≠ '_'), power?_newline, hnumeral]
  exact (Option.map_eq_bind ..).symm

/-- Digits without a point are read as a whole number. -/
theorem scalar?_whole (hcanonical : numeral.Canonical) (hpower : numeral.power = none)
    (hfraction : numeral.fraction = []) (rest : List Char) :
    scalar? (numeral.chars ++ '\n' :: rest) =
      (whole? numeral.negative (numeral.whole.map Timestamp.digitValue) 10).map
        fun item => (item, '\n' :: rest) := by
  have hsize : numeral.sizeChars ++ '\n' :: rest = numeral.whole ++ '\n' :: rest := by
    simp [Numeral.sizeChars, hpower, hfraction, Numeral.fractionChars, Numeral.powerChars]
  rw [scalar?_chars hcanonical hpower, decimalNumber?, sign_chars hcanonical, hsize]
  simp only [decimal?_whole hcanonical rfl (by decide : '\n' ≠ '_'), Option.bind_eq_bind,
    Option.bind_some]
  exact (Option.map_eq_bind ..).symm

end Numerals

/-! ## Values -/

namespace Scalar

/-- Whether a value is read back as it was: a double is finite, and the one nearest to its text; a
whole number has at most 63 bits. -/
def ReadsBack : Scalar → Prop
  | text _ => True
  | number value => value.isFinite = true ∧
      (Numeral.ofChars? (doubleText value).toList).map Numeral.nearest = some value
  | count value => value < 0x8000000000000000

instance : DecidablePred ReadsBack
  | text _ => isTrue trivial
  | number _ => inferInstanceAs (Decidable (_ ∧ _))
  | count value => inferInstanceAs (Decidable (value < 0x8000000000000000))

end Scalar

/-- The text of a finite double is that of a numeral with a point. -/
theorem exists_numeral_doubleText {value : Float} (h : value.isFinite = true) :
    ∃ numeral : Numeral, numeral.Canonical ∧ numeral.chars = (doubleText value).toList ∧
      numeral.fraction ≠ [] ∧ numeral.power = none := by
  obtain ⟨negative, significand, exponent, hvalue⟩ := Number.exists_ofFloat_eq_finite h
  obtain ⟨numeral, hcanonical, hsize, hfraction, hpower⟩ :=
    Number.exists_sizeChars_positional (x := Number.Decimal.shortest significand exponent .up)
      Number.Decimal.exponent_shortest
  have hnan := (Number.isNaN_isInf_of_isFinite h).1
  have htext : doubleText value =
      Number.signed negative (doubleLayout.magnitude significand exponent) := by
    rw [doubleText, if_neg (ne_true_of_eq_false hnan), Number.Layout.text, hvalue]
  refine ⟨_, hcanonical.signed negative, ?_, hfraction, hpower⟩
  rw [Numeral.chars_signed, hsize, htext]
  rfl

/-- A double is read back. -/
theorem scalar?_number {value : Float} (h : (Scalar.number value).ReadsBack) (rest : List Char) :
    scalar? ((Scalar.number value).chars ++ '\n' :: rest) = some (.float value, '\n' :: rest) := by
  obtain ⟨hfinite, hnearest⟩ := h
  obtain ⟨numeral, hcanonical, hchars, hfraction, hpower⟩ := exists_numeral_doubleText hfinite
  rw [← hchars, Numeral.ofChars?_chars hcanonical, Option.map_some, Option.some.injEq] at hnearest
  have hinf := (Number.isNaN_isInf_of_isFinite hfinite).2
  rw [Scalar.chars, ← hchars, scalar?_double hcanonical hpower hfraction, double?, hnearest]
  simp [hinf]

/-- A whole number is read back. -/
theorem scalar?_count {value : Nat} (h : (Scalar.count value).ReadsBack) (rest : List Char) :
    scalar? ((Scalar.count value).chars ++ '\n' :: rest) = some (.int value, '\n' :: rest) := by
  have hcanonical : (⟨false, digitChars value, [], none⟩ : Numeral).Canonical :=
    ⟨fun c => Number.isDigit_of_mem_digitChars, Number.digitChars_ne_nil value,
      Number.length_digitChars_of_head?, by simp, by simp, by simp⟩
  have hsize : ((digitChars value).map Timestamp.digitValue).foldl (fun n d => 10 * n + d) 0 =
      value := by
    rw [List.foldl_map]
    exact Nat.ofDigitChars_ten_toDigits
  have hbound : -0x8000000000000000 ≤ (value : Int) ∧ (value : Int) < 0x8000000000000000 := by
    have hvalue : value < 0x8000000000000000 := h
    omega
  have hwhole : whole? false ((digitChars value).map Timestamp.digitValue) 10 =
      some (.int value) := by
    rw [whole?, hsize]
    exact if_pos hbound
  have hchars : (Scalar.count value).chars =
      (⟨false, digitChars value, [], none⟩ : Numeral).chars := by
    simp [Scalar.chars, Numeral.chars, Numeral.sizeChars, Numeral.fractionChars, Numeral.powerChars]
  rw [hchars, scalar?_whole hcanonical rfl rfl, hwhole, Option.map_some]

/-- A text that begins with neither a bracket nor a brace is read as a value that holds no others.
-/
theorem value?_eq_scalar? {first : Char} (hbracket : first ≠ '[') (hbrace : first ≠ '{')
    (depth : Nat) (cs : List Char) : value? depth (first :: cs) = scalar? (first :: cs) := by
  rw [value?.eq_def]
  split
  · rename_i heq
    exact absurd (List.cons.inj heq).1 hbracket
  · rename_i heq
    exact absurd (List.cons.inj heq).1 hbrace
  · rfl

namespace Scalar

/-- A value that is written begins neither with a blank nor with a bracket or a brace. -/
theorem exists_chars_eq_cons {value : Scalar} (h : value.ReadsBack) :
    ∃ first others, value.chars = first :: others ∧ isSpace first = false ∧ first ≠ '[' ∧
      first ≠ '{' := by
  have hdigit : ∀ {c : Char}, c.isDigit = true → isSpace c = false ∧ c ≠ '[' ∧ c ≠ '{' := by
    intro c hc
    have hblank : c ≠ ' ' := ne_of_true_of_false hc rfl
    have htab : c ≠ '\t' := ne_of_true_of_false hc rfl
    exact ⟨by simp [isSpace, hblank, htab], ne_of_true_of_false hc rfl, ne_of_true_of_false hc rfl⟩
  cases value with
  | text value => exact ⟨'"', _, rfl, by decide, by decide, by decide⟩
  | number value =>
      obtain ⟨numeral, hcanonical, hchars, -⟩ := exists_numeral_doubleText h.1
      obtain ⟨first, others, hsplit, hfirst⟩ := Toml.exists_chars_eq_cons hcanonical
      refine ⟨first, others, by rw [chars, ← hchars, hsplit], ?_⟩
      obtain hfirst | rfl := hfirst
      · exact hdigit hfirst
      · decide
  | count value =>
      obtain ⟨first, others, hsplit⟩ := List.exists_cons_of_ne_nil (Number.digitChars_ne_nil value)
      exact ⟨first, others, hsplit, hdigit (Number.isDigit_of_mem_digitChars (n := value)
        (by simp [hsplit]))⟩

/-- A value is read back. -/
theorem value?_chars {value : Scalar} (h : value.ReadsBack) (rest : List Char) :
    value? nestingLimit (value.chars ++ '\n' :: rest) = some (value.item, '\n' :: rest) := by
  obtain ⟨first, others, hsplit, -, hbracket, hbrace⟩ := exists_chars_eq_cons h
  have hscalar : scalar? (value.chars ++ '\n' :: rest) = some (value.item, '\n' :: rest) := by
    cases value with
    | text value => exact scalar?_text value rest
    | number value => exact scalar?_number h rest
    | count value => exact scalar?_count h rest
  rw [hsplit, List.cons_append] at hscalar ⊢
  rw [value?_eq_scalar? hbracket hbrace, hscalar]

end Scalar

end PodCosts.Toml
