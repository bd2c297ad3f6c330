import PodCosts.Json.Printer
import PodCosts.Json.Token
import PodCosts.Proofs.Json.Numeral

/-!
# Tokens of written text

Words, numerals and string literals are read back as one token each. A string literal ends by
itself. A word or a numeral ends at the first character that cannot go on with it, so these lemmas
ask for a rest that begins with no such character.
-/

namespace PodCosts

namespace Piece

/-- Whether a piece is read as a character, whatever stands behind it. -/
def Means (piece : Piece) (c : Char) : Prop :=
  ∀ pieces, read? (piece :: pieces) = (read? pieces).map (c :: ·)

/-- A character of a piece is read as itself. -/
theorem means_char (c : Char) : Means (.char c) c :=
  fun _ => rfl

/-- A code unit that is not a surrogate is a character by itself. -/
theorem means_code {unit : Nat} (hunit : unit < 0xD800) : Means (.code unit) (Char.ofNat unit) := by
  intro pieces
  have hsurrogate : ¬(0xD800 ≤ unit ∧ unit < 0xE000) := by omega
  cases pieces with
  | nil => exact (read?.eq_def _).trans (if_neg hsurrogate)
  | cons piece pieces =>
      cases piece with
      | char c => exact (read?.eq_def _).trans (if_neg hsurrogate)
      | code low =>
          refine (read?.eq_def _).trans ?_
          dsimp only
          rw [if_neg (by omega), if_neg hsurrogate]
      | broken => exact (read?.eq_def _).trans (if_neg hsurrogate)

end Piece

namespace Token

/-- Characters that take the reader from one state to another and complete no token. -/
inductive Leads : Pending → List Char → Pending → Prop where
  | done (pending : Pending) : Leads pending [] pending
  | step {pending next last : Pending} {c : Char} {cs : List Char}
      (hstep : step? pending (some c) = some ([], next)) (hrest : Leads next cs last) :
      Leads pending (c :: cs) last

namespace Leads

variable {first middle last : Pending} {before after : List Char}

/-- Characters that lead on from where others have led are read after them. -/
theorem append (hfirst : Leads first before middle) (hlast : Leads middle after last) :
    Leads first (before ++ after) last := by
  induction hfirst with
  | done => exact hlast
  | step hstep _ ih => exact .step hstep (ih hlast)

/-- What completes no token only changes the state in which the rest is read. -/
theorem readFrom? (h : Leads first before last) (rest : List (Option Char)) :
    readFrom? first (before.map some ++ rest) = Token.readFrom? last rest := by
  induction h with
  | done => rfl
  | step hstep _ ih =>
      rw [List.map_cons, List.cons_append, Token.readFrom?, hstep, ← ih]
      exact Option.bind_fun_some _

end Leads

/-- A step that completes a token. -/
theorem readFrom?_of_step_token {pending next : Pending} {token : Token} {c : Char}
    (hstep : step? pending (some c) = some ([token], next)) (rest : List (Option Char)) :
    readFrom? pending (some c :: rest) = (readFrom? next rest).map (token :: ·) := by
  rw [readFrom?, hstep]
  exact (Option.map_eq_bind ..).symm

/-- A bracket, a brace, a comma or a colon. -/
theorem readFrom?_mark (token : Token) {c : Char}
    (hmark : step? .nothing (some c) = some ([token], .nothing))
    (rest : List (Option Char)) :
    readFrom? .nothing (some c :: rest) = (readFrom? .nothing rest).map (token :: ·) :=
  readFrom?_of_step_token hmark rest

/-! ## String literals -/

/-- Hexadecimal digits are read back. -/
theorem hexValue?_hexDigit : ∀ n < 16, hexValue? (Text.hexDigit n) = some n := by
  decide

/-- A letter behind a backslash. -/
theorem leads_unescape {letter c : Char} (hletter : letter ≠ 'u')
    (hunescape : unescape? letter = some c) (pieces : List Piece) :
    Leads (.string pieces) ['\\', letter] (.string (.char c :: pieces)) := by
  have hstep : step? (.escape pieces) (some letter) = some ([], .string (.char c :: pieces)) := by
    rw [step?, if_neg hletter, hunescape, Option.map_some]
  exact .step rfl (.step hstep (.done _))

/-- A control character behind a backslash, as four digits. -/
theorem leads_code {n : Nat} (hn : n < 0x20) (pieces : List Piece) :
    Leads (.string pieces) ['\\', 'u', '0', '0', Text.hexDigit (n / 16), Text.hexDigit (n % 16)]
      (.string (.code n :: pieces)) := by
  have hfirst := hexValue?_hexDigit (n / 16) (by omega)
  have hsecond := hexValue?_hexDigit (n % 16) (by omega)
  have hvalue : 16 * (n / 16) + n % 16 = n := Nat.div_add_mod n 16
  have hhigh : step? (.code pieces 2 0) (some (Text.hexDigit (n / 16))) =
      some ([], .code pieces 1 (n / 16)) := by
    simp [step?, hfirst]
  have hlow : step? (.code pieces 1 (n / 16)) (some (Text.hexDigit (n % 16))) =
      some ([], .string (.code n :: pieces)) := by
    simp [step?, hsecond, hvalue]
  have hzeros : Leads (.string pieces) ['\\', 'u', '0', '0'] (.code pieces 2 0) :=
    .step rfl (.step rfl (.step rfl (.step rfl (.done _))))
  exact hzeros.append (.step hhigh (.step hlow (.done _)))

/-- A character of a literal is read as one piece that means it. -/
theorem leads_escapeChar (c : Char) :
    ∃ piece : Piece, piece.Means c ∧ ∀ pieces,
      Leads (.string pieces) (Text.escapeChar c) (.string (piece :: pieces)) := by
  unfold Text.escapeChar
  split_ifs with hquote hbackslash h1 h2 h3 h4 h5 hcontrol
  · exact ⟨.char c, Piece.means_char c, leads_unescape (by decide) (by rw [hquote]; rfl)⟩
  · exact ⟨.char c, Piece.means_char c, leads_unescape (by decide) (by rw [hbackslash]; rfl)⟩
  · exact ⟨.char c, Piece.means_char c, leads_unescape (by decide) (by rw [h1]; rfl)⟩
  · exact ⟨.char c, Piece.means_char c, leads_unescape (by decide) (by rw [h2]; rfl)⟩
  · exact ⟨.char c, Piece.means_char c, leads_unescape (by decide) (by rw [h3]; rfl)⟩
  · exact ⟨.char c, Piece.means_char c, leads_unescape (by decide) (by rw [h4]; rfl)⟩
  · exact ⟨.char c, Piece.means_char c, leads_unescape (by decide) (by rw [h5]; rfl)⟩
  · refine ⟨.code c.toNat, ?_, leads_code hcontrol⟩
    have hmeans : (Piece.code c.toNat).Means (Char.ofNat c.toNat) := Piece.means_code (by omega)
    rwa [Char.ofNat_toNat] at hmeans
  · refine ⟨.char c, Piece.means_char c, fun pieces => .step ?_ (.done _)⟩
    rw [step?, if_neg hquote, if_neg hbackslash, if_neg hcontrol]

/-- The characters of a literal are read as pieces that give them back. -/
theorem leads_escapeChars (cs : List Char) (held : List Piece) :
    ∃ pieces, Piece.read? pieces = some cs ∧
      Leads (.string held) (cs.flatMap Text.escapeChar) (.string (pieces.reverse ++ held)) := by
  induction cs generalizing held with
  | nil => exact ⟨[], rfl, .done _⟩
  | cons c cs ih =>
      obtain ⟨piece, hmeans, hpiece⟩ := leads_escapeChar c
      obtain ⟨pieces, hread, hpieces⟩ := ih (piece :: held)
      refine ⟨piece :: pieces, by rw [hmeans, hread, Option.map_some], ?_⟩
      rw [List.reverse_cons, List.append_assoc, List.singleton_append]
      exact (hpiece held).append hpieces

/-- The closing quote behind the characters of a literal completes the string it was written for,
and no earlier character does. -/
theorem leads_quoted (s : String) :
    ∃ last, Leads (.string []) (s.toList.flatMap Text.escapeChar) last ∧
      step? last (some '"') = some ([.string (some s)], .nothing) := by
  obtain ⟨pieces, hread, hpieces⟩ := leads_escapeChars s.toList []
  refine ⟨_, hpieces, ?_⟩
  rw [step?, if_pos rfl, ofPieces, List.append_nil, List.reverse_reverse, hread,
    Option.map_some, String.ofList_toList]

/-- A literal is read as the string it was written for. -/
theorem readFrom?_quote (s : String) (rest : List (Option Char)) :
    readFrom? .nothing ((Text.quote s).toList.map some ++ rest) =
      (readFrom? .nothing rest).map (.string (some s) :: ·) := by
  obtain ⟨last, hinside, hend⟩ := leads_quoted s
  have hopen : Leads .nothing ('"' :: s.toList.flatMap Text.escapeChar) last := .step rfl hinside
  rw [Text.quote, String.toList_ofList, Text.quoteChars, List.map_append, List.append_assoc,
    hopen.readFrom?]
  exact readFrom?_of_step_token hend rest

/-! ## Words and numerals -/

/-- Whether a rest of a text begins with no character of a word or a numeral. -/
def Separate (rest : List (Option Char)) : Prop :=
  ∀ unit tail, rest = unit :: tail → ∃ c, unit = some c ∧ c.isAlpha = false ∧ inNumeral c = false

/-- What is complete at the end of a text is complete at a separate rest. -/
theorem readFrom?_of_complete {pending : Pending} {token : Token}
    (hfinish : finish? pending = some [token])
    (hstep : ∀ c, c.isAlpha = false → inNumeral c = false →
      step? pending (some c) = (start? c).map fun next => (token :: next.1, next.2))
    {rest : List (Option Char)} (hrest : Separate rest) :
    readFrom? pending rest = (readFrom? .nothing rest).map (token :: ·) := by
  cases rest with
  | nil => exact hfinish
  | cons unit tail =>
      obtain ⟨c, rfl, halpha, hnumeral⟩ := hrest unit tail rfl
      rw [readFrom?, readFrom?, hstep c halpha hnumeral, step?]
      cases hstart : start? c with
      | none => rfl
      | some next =>
          change (readFrom? next.2 tail).bind (fun others => some (token :: next.1 ++ others)) =
            ((readFrom? next.2 tail).bind fun others => some (next.1 ++ others)).map (token :: ·)
          cases readFrom? next.2 tail <;> rfl

/-- Characters that a state takes up and holds lead to the state that holds all of them. -/
theorem leads_held (state : List Char → Pending) {p : Char → Bool}
    (hstep : ∀ held c, p c = true → step? (state held) (some c) = some ([], state (c :: held)))
    {chars : List Char} (hchars : ∀ c ∈ chars, p c = true) (held : List Char) :
    Leads (state held) chars (state (chars.reverse ++ held)) := by
  induction chars generalizing held with
  | nil => exact .done _
  | cons c chars ih =>
      rw [List.reverse_cons, List.append_assoc, List.singleton_append]
      exact .step (hstep held c (hchars c List.mem_cons_self))
        (ih (fun d hd => hchars d (List.mem_cons_of_mem _ hd)) _)

/-- A word that has begun takes up every letter. -/
theorem step?_word (held : List Char) (c : Char) (hc : c.isAlpha = true) :
    step? (.word held) (some c) = some ([], .word (c :: held)) := by
  rw [step?, if_pos hc]

/-- A numeral that has begun takes up every character that can stand in one. -/
theorem step?_numeral (held : List Char) (c : Char) (hc : inNumeral c = true) :
    step? (.numeral held) (some c) = some ([], .numeral (c :: held)) := by
  rw [step?, if_pos hc]

/-- A word is read as its token. -/
theorem readFrom?_word {first : Char} {letters : List Char} {token : Token}
    (hfirst : step? .nothing (some first) = some ([], .word [first]))
    (hletters : letters.all Char.isAlpha = true)
    (hword : ofWord? (first :: letters) = some token)
    {rest : List (Option Char)} (hrest : Separate rest) :
    readFrom? .nothing ((first :: letters).map some ++ rest) =
      (readFrom? .nothing rest).map (token :: ·) := by
  have hheld : ofWord? (letters.reverse ++ [first]).reverse = some token := by
    rwa [List.reverse_append, List.reverse_reverse]
  have hlead : Leads .nothing (first :: letters) (.word (letters.reverse ++ [first])) :=
    .step hfirst (leads_held .word step?_word (List.all_eq_true.mp hletters) _)
  rw [hlead.readFrom?]
  refine readFrom?_of_complete ?_ ?_ hrest
  · rw [finish?, hheld, Option.map_some]
  · intro c halpha _
    rw [step?, if_neg (by simp [halpha]), hheld]
    cases start? c <;> rfl

/-- A digit begins a numeral. -/
theorem start?_digit {c : Char} (hdigit : c.isDigit = true) :
    start? c = some ([], .numeral [c]) := by
  have hne : ∀ d : Char, d.isDigit = false → c ≠ d := by
    rintro d hd rfl
    exact absurd hdigit (by simp [hd])
  have hspace : isSpace c = false := by
    simp [isSpace, hne ' ' rfl, hne '\t' rfl, hne '\n' rfl, hne '\r' rfl]
  rw [start?, if_neg (by simp [hspace]), if_neg (hne _ rfl), if_neg (hne _ rfl), if_neg (hne _ rfl),
    if_neg (hne _ rfl), if_neg (hne _ rfl), if_neg (hne _ rfl), if_neg (hne _ rfl),
    if_pos (by simp [hdigit])]

/-- A numeral begins like a numeral. -/
theorem start?_numeral {numeral : Numeral} (hcanonical : numeral.Canonical) :
    ∃ first others, numeral.chars = first :: others ∧
      step? .nothing (some first) = some ([], .numeral [first]) := by
  obtain ⟨first, others, hwhole⟩ := List.exists_cons_of_ne_nil hcanonical.whole_ne_nil
  have hdigit : first.isDigit = true := hcanonical.isDigit_whole first (by simp [hwhole])
  unfold Numeral.chars
  split_ifs
  · exact ⟨'-', numeral.sizeChars, rfl, rfl⟩
  · exact ⟨first, _, by rw [Numeral.sizeChars, hwhole, List.cons_append], start?_digit hdigit⟩

/-- A numeral is read as its token. -/
theorem readFrom?_numeral {numeral : Numeral} (hcanonical : numeral.Canonical)
    {rest : List (Option Char)} (hrest : Separate rest) :
    readFrom? .nothing (numeral.chars.map some ++ rest) =
      (readFrom? .nothing rest).map (.number numeral :: ·) := by
  obtain ⟨first, others, hchars, hfirst⟩ := start?_numeral hcanonical
  have hothers : ∀ c ∈ others, inNumeral c = true := by
    intro c hc
    have hmem : c ∈ numeral.chars := by simp [hchars, hc]
    obtain h | rfl | rfl | rfl | rfl := Numeral.isDigit_or_of_mem_chars hcanonical hmem
    · simp [inNumeral, h]
    all_goals decide
  have hheld : Numeral.ofChars? (others.reverse ++ [first]).reverse = some numeral := by
    rw [List.reverse_append, List.reverse_reverse, List.reverse_singleton,
      List.singleton_append, ← hchars]
    exact Numeral.ofChars?_chars hcanonical
  have hlead : Leads .nothing (first :: others) (.numeral (others.reverse ++ [first])) :=
    .step hfirst (leads_held .numeral step?_numeral hothers _)
  rw [hchars, hlead.readFrom?]
  refine readFrom?_of_complete ?_ ?_ hrest
  · rw [finish?, hheld, Option.map_some]
  · intro c _ hnumeral
    rw [step?, if_neg (by simp [hnumeral]), hheld]
    cases start? c <;> rfl

end Token

end PodCosts
