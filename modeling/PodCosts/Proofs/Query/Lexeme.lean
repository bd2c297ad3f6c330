import PodCosts.Number.Layout
import PodCosts.Proofs.Json.Tokens
import PodCosts.Proofs.Number.Digits
import PodCosts.Text.Joined
import Mathlib.Data.List.Forall2

/-!
# Lexemes of a request

The text of a request is split into words, numbers, marks and string literals. Words and numbers are
runs of letters, digits, underscores and dots, and blanks only keep them apart. What stands between
double quotes is read by the rules for strings of documents, so a literal is held as the string that
it stands for. Texts whose lexemes are known can be put together wherever no two runs meet.
-/

namespace PodCosts

/-- The smallest parts of the text of a request. -/
inductive Lexeme where
  | word (letters : String)
  | number (digits : String)
  | mark (sign : Char)
  | literal (value : String)
deriving DecidableEq

namespace Lexeme

/-- What the reader is in the middle of. The characters of a run are kept backwards. -/
inductive Pending where
  | nothing
  | run (chars : List Char)
  | literal (inside : Token.Pending)

/-- The characters that only separate lexemes. -/
def isBlank (c : Char) : Bool :=
  c == ' ' || c == '\n'

/-- The characters of words and numbers. -/
def inRun (c : Char) : Bool :=
  c.isAlphanum || c == '_' || c == '.'

/-- The characters that stand for themselves. -/
def isMark (c : Char) : Bool :=
  ['(', ')', '\x7b', '\x7d', ':', ',', '@', '~', '=', '-', '*', '/'].contains c

/-- A run is a number if it begins with a digit, and a word otherwise. -/
def ofRun (chars : List Char) : Lexeme :=
  if chars.head?.any Char.isDigit then .number (String.ofList chars)
  else .word (String.ofList chars)

/-- A character outside of runs and literals. -/
def start? (c : Char) : Option (List Lexeme × Pending) :=
  if isBlank c then some ([], .nothing)
  else if inRun c then some ([], .run [c])
  else if isMark c then some ([.mark c], .nothing)
  else if c = '"' then some ([], .literal (.string []))
  else none

/-- The next character of the text: the lexemes it completes, and what is in the middle then. -/
def step? : Pending → Char → Option (List Lexeme × Pending)
  | .nothing, c => start? c
  | .run chars, c =>
    if inRun c then some ([], .run (c :: chars))
    else (start? c).map fun next => (ofRun chars.reverse :: next.1, next.2)
  | .literal inside, c =>
    match Token.step? inside (some c) with
    | some ([], next) => some ([], .literal next)
    | some ([.string (some value)], _) => some ([.literal value], .nothing)
    | _ => none

/-- The end of the text. -/
def finish? : Pending → Option (List Lexeme)
  | .nothing => some []
  | .run chars => some [ofRun chars.reverse]
  | .literal _ => none

/-- The lexemes of a text that begins in the middle of something. -/
def readFrom? (pending : Pending) : List Char → Option (List Lexeme)
  | [] => finish? pending
  | c :: cs => do
    let (found, next) ← step? pending c
    let further ← readFrom? next cs
    some (found ++ further)

/-- The lexemes of a text. -/
def read? (text : String) : Option (List Lexeme) :=
  readFrom? .nothing text.toList

example : read? "eq(a, \"b \\\" c\") - 1.5" =
    some [.word "eq", .mark '(', .word "a", .mark ',', .literal "b \" c", .mark ')', .mark '-',
      .number "1.5"] := by decide +kernel

/-! ## Steps of the reader -/

/-- After a step the lexemes that it completes stand in front of the further ones. -/
theorem readFrom?_cons {pending next : Pending} {c : Char} {now : List Lexeme}
    (hstep : step? pending c = some (now, next)) (cs : List Char) :
    readFrom? pending (c :: cs) = (readFrom? next cs).map (now ++ ·) := by
  rw [readFrom?, hstep]
  exact (Option.map_eq_bind ..).symm

/-- A step that completes no lexeme. -/
theorem readFrom?_cons_silent {pending next : Pending} {c : Char}
    (hstep : step? pending c = some ([], next)) (cs : List Char) :
    readFrom? pending (c :: cs) = readFrom? next cs := by
  rw [readFrom?_cons hstep]
  exact Option.map_id'

/-- A text that is read has a first step and is read on from there. -/
theorem exists_step_of_readFrom? {pending : Pending} {c : Char} {cs : List Char}
    {found : List Lexeme} (h : readFrom? pending (c :: cs) = some found) :
    ∃ now next further, step? pending c = some (now, next) ∧
      readFrom? next cs = some further ∧ found = now ++ further := by
  rw [readFrom?] at h
  obtain ⟨⟨now, next⟩, hstep, h⟩ := Option.bind_eq_some_iff.mp h
  obtain ⟨further, hfurther, hfound⟩ := Option.bind_eq_some_iff.mp h
  exact ⟨now, next, further, hstep, hfurther, (Option.some.inj hfound).symm⟩

/-- A step in front of a text whose rest is read by itself. -/
theorem readFrom?_cons_append {pending next : Pending} {c : Char} {cs rest : List Char}
    {now further : List Lexeme} (hstep : step? pending c = some (now, next))
    (htail : readFrom? next (cs ++ rest) = (readFrom? .nothing rest).map (further ++ ·)) :
    readFrom? pending (c :: cs ++ rest) =
      (readFrom? .nothing rest).map (now ++ further ++ ·) := by
  rw [List.cons_append, readFrom?_cons hstep, htail, Option.map_map]
  simp only [Function.comp_def, List.append_assoc]

/-! ## Runs that do not meet -/

/-- Whether a text does not begin in a run. -/
def Separate (text : String) : Prop :=
  ∀ c ∈ text.toList.head?, inRun c = false

/-- Whether a text does not end in a run. -/
def Closed (text : String) : Prop :=
  ∀ c ∈ text.toList.getLast?, inRun c = false

instance (text : String) : Decidable (Separate text) :=
  Option.decidableForallMem text.toList.head?

instance (text : String) : Decidable (Closed text) :=
  Option.decidableForallMem text.toList.getLast?

/-- What is read up to a text that does not begin in a run does not depend on that text. -/
theorem readFrom?_append_of_separate {pending : Pending} {cs : List Char} {found : List Lexeme}
    (h : readFrom? pending cs = some found) {rest : List Char}
    (hrest : ∀ c ∈ rest.head?, inRun c = false) :
    readFrom? pending (cs ++ rest) = (readFrom? .nothing rest).map (found ++ ·) := by
  induction cs generalizing pending found with
  | nil =>
      cases pending with
      | nothing =>
          cases h
          exact Option.map_id'.symm
      | literal inside => cases h
      | run chars =>
          cases h
          cases rest with
          | nil => rfl
          | cons c rest =>
              have hc : inRun c = false := hrest c rfl
              have hend : step? (.run chars) c =
                  (start? c).map fun next => (ofRun chars.reverse :: next.1, next.2) := by
                rw [step?, if_neg (by simp [hc])]
              cases hstart : start? c with
              | none =>
                  rw [List.nil_append, readFrom?, readFrom?, hend, step?, hstart]
                  rfl
              | some next =>
                  rw [hstart] at hend
                  have hfresh : step? .nothing c = some (next.1, next.2) := hstart
                  rw [List.nil_append, readFrom?_cons hend, readFrom?_cons hfresh, Option.map_map]
                  rfl
  | cons c cs ih =>
      obtain ⟨now, next, further, hstep, hfurther, rfl⟩ := exists_step_of_readFrom? h
      exact readFrom?_cons_append hstep (ih hfurther)

/-- Only a character of a run begins or continues one. -/
theorem finish?_of_step {pending next : Pending} {c : Char} {now further : List Lexeme}
    (hstep : step? pending c = some (now, next)) (hc : inRun c = false)
    (hfinish : finish? next = some further) : next = .nothing ∧ further = [] := by
  have hstart : ∀ found, start? c = some (found, next) → next = .nothing ∧ further = [] := by
    intro found h
    simp only [start?, hc, Bool.false_eq_true, if_false] at h
    split_ifs at h <;> cases h <;> cases hfinish
    · exact ⟨rfl, rfl⟩
    · exact ⟨rfl, rfl⟩
  cases pending with
  | nothing => exact hstart now hstep
  | run chars =>
      rw [step?, if_neg (by simp [hc])] at hstep
      obtain ⟨⟨found, last⟩, hnext, heq⟩ := Option.map_eq_some_iff.mp hstep
      cases heq
      exact hstart found hnext
  | literal inside =>
      rw [step?] at hstep
      split at hstep <;> cases hstep <;> cases hfinish
      exact ⟨rfl, rfl⟩

/-- What is read up to the end of a text that does not end in a run does not depend on what stands
behind it. -/
theorem readFrom?_append_of_closed {pending : Pending} {cs : List Char} {found : List Lexeme}
    (h : readFrom? pending cs = some found) {last : Char} (hlast : cs.getLast? = some last)
    (hclosed : inRun last = false) (rest : List Char) :
    readFrom? pending (cs ++ rest) = (readFrom? .nothing rest).map (found ++ ·) := by
  induction cs generalizing pending found with
  | nil => cases hlast
  | cons c cs ih =>
      obtain ⟨now, next, further, hstep, hfurther, rfl⟩ := exists_step_of_readFrom? h
      refine readFrom?_cons_append hstep ?_
      cases cs with
      | nil =>
          cases hlast
          obtain ⟨rfl, rfl⟩ := finish?_of_step hstep hclosed hfurther
          exact Option.map_id'.symm
      | cons d cs => exact ih hfurther (by rwa [List.getLast?_cons_cons] at hlast)

/-! ## Texts put together -/

/-- Whether a text has the given lexemes. -/
def Reads (text : String) (lexemes : List Lexeme) : Prop :=
  read? text = some lexemes

instance (text : String) (lexemes : List Lexeme) : Decidable (Reads text lexemes) :=
  inferInstanceAs (Decidable (read? text = some lexemes))

/-- Two texts are read one after the other unless a run reaches from one into the other. -/
theorem Reads.append {first second : String} {before after : List Lexeme}
    (hfirst : Reads first before) (hsecond : Reads second after)
    (hapart : Closed first ∨ Separate second) : Reads (first ++ second) (before ++ after) := by
  unfold Reads read? at hfirst hsecond ⊢
  rw [String.toList_append]
  rcases hapart with hclosed | hseparate
  · cases hlast : first.toList.getLast? with
    | none =>
        have hnil : first.toList = [] := List.getLast?_eq_none_iff.mp hlast
        rw [hnil] at hfirst ⊢
        cases hfirst
        exact hsecond
    | some last =>
        rw [readFrom?_append_of_closed hfirst hlast (hclosed last hlast), hsecond,
          Option.map_some]
  · rw [readFrom?_append_of_separate hfirst hseparate, hsecond, Option.map_some]

/-- A text with the given lexemes behind which any text may stand. -/
structure Opens (text : String) (lexemes : List Lexeme) : Prop where
  reads : Reads text lexemes
  closed : Closed text

/-- A text with the given lexemes that keeps apart what stands on both sides of it. -/
structure Divides (text : String) (lexemes : List Lexeme) : Prop extends Opens text lexemes where
  separate : Separate text
  ne : text ≠ ""

instance (text : String) (lexemes : List Lexeme) : Decidable (Opens text lexemes) :=
  decidable_of_iff (Reads text lexemes ∧ Closed text)
    ⟨fun h => ⟨h.1, h.2⟩, fun h => ⟨h.reads, h.closed⟩⟩

instance (text : String) (lexemes : List Lexeme) : Decidable (Divides text lexemes) :=
  decidable_of_iff (Opens text lexemes ∧ Separate text ∧ text ≠ "")
    ⟨fun h => ⟨h.1, h.2.1, h.2.2⟩, fun h => ⟨h.toOpens, h.separate, h.ne⟩⟩

variable {first second text divider : String} {before after found sign : List Lexeme}

/-- Any text may stand behind one that is closed. -/
theorem Opens.reads_append (hfirst : Opens first before) (hsecond : Reads second after) :
    Reads (first ++ second) (before ++ after) :=
  hfirst.reads.append hsecond (.inl hfirst.closed)

/-- Two closed texts, one behind the other, are a closed text. -/
theorem Opens.append (hfirst : Opens first before) (hsecond : Opens second after) :
    Opens (first ++ second) (before ++ after) := by
  refine ⟨hfirst.reads_append hsecond.reads, ?_⟩
  intro c hc
  rw [String.toList_append, List.getLast?_append, Option.mem_def, Option.or_eq_some_iff] at hc
  rcases hc with hlast | ⟨-, hlast⟩
  · exact hsecond.closed c hlast
  · exact hfirst.closed c hlast

/-- Any text is closed by a divider behind it. -/
theorem Reads.divided (htext : Reads text found) (hdivider : Divides divider sign) :
    Opens (text ++ divider) (found ++ sign) := by
  refine ⟨htext.append hdivider.reads (.inr hdivider.separate), ?_⟩
  have hsome : divider.toList.getLast?.isSome := by
    rw [List.getLast?_isSome, ne_eq, String.toList_eq_nil_iff]
    exact hdivider.ne
  intro c hc
  rw [String.toList_append, List.getLast?_append, Option.or_of_isSome hsome] at hc
  exact hdivider.closed c hc

/-- Texts with a divider between each two. -/
theorem Reads.joined (hdivider : Divides divider sign) {texts : List String}
    {parts : List (List Lexeme)} (hparts : List.Forall₂ Reads texts parts) :
    Reads (Text.joined divider texts) (List.intercalate sign parts) := by
  induction hparts with
  | nil => rfl
  | @cons text part texts parts htext hrest ih =>
      cases hrest with
      | nil => rwa [List.intercalate_singleton]
      | cons hnext hothers =>
          rw [Text.joined, List.intercalate_cons_cons]
          exact (htext.divided hdivider).reads_append ih

/-- Lines are read one after the other. -/
theorem Reads.lines {texts : List String} {parts : List (List Lexeme)}
    (hparts : List.Forall₂ Reads texts parts) :
    Reads (Text.joined "\n" texts) parts.flatten := by
  have hline : Divides "\n" [] := by decide
  have hflat : ∀ lists : List (List Lexeme), List.intercalate [] lists = lists.flatten := by
    intro lists
    induction lists with
    | nil => rfl
    | cons list others ih =>
        cases others with
        | nil => rw [List.intercalate_singleton, List.flatten_singleton]
        | cons next others =>
            rw [List.intercalate_cons_cons, ih, List.append_nil, ← List.flatten_cons]
  rw [← hflat]
  exact joined hline hparts

/-! ## String literals -/

/-- The inside of a literal is read by the rules for strings of documents. -/
theorem readFrom?_literal {inside last : Token.Pending} {cs : List Char}
    (h : Token.Leads inside cs last) (rest : List Char) :
    readFrom? (.literal inside) (cs ++ rest) = readFrom? (.literal last) rest := by
  induction h with
  | done => rfl
  | @step inside next last c cs hstep _ ih =>
      have hnow : step? (.literal inside) c = some ([], .literal next) := by
        rw [step?, hstep]
      rw [List.cons_append, readFrom?_cons_silent hnow, ih]

/-- A string in quotes is one literal, whatever the string contains. -/
theorem reads_quote (s : String) : Reads (Text.quote s) [.literal s] := by
  obtain ⟨last, hinside, hend⟩ := Token.leads_quoted s
  have hclose : step? (.literal last) '"' = some ([.literal s], .nothing) := by
    rw [step?, hend]
  have hchars : (Text.quote s).toList =
      '"' :: (s.toList.flatMap Text.escapeChar ++ ['"']) := by
    rw [Text.quote, String.toList_ofList, Text.quoteChars, List.cons_append]
  have hopen : step? .nothing '"' = some ([], .literal (.string [])) := rfl
  rw [Reads, read?, hchars, readFrom?_cons_silent hopen, readFrom?_literal hinside,
    readFrom?_cons hclose]
  rfl

/-! ## Runs -/

/-- The rest of a run. -/
theorem readFrom?_run {chars : List Char} (hchars : ∀ c ∈ chars, inRun c = true)
    (held : List Char) : readFrom? (.run held) chars = some [ofRun (held.reverse ++ chars)] := by
  induction chars generalizing held with
  | nil => rw [List.append_nil, readFrom?, finish?]
  | cons c chars ih =>
      have hstep : step? (.run held) c = some ([], .run (c :: held)) := by
        rw [step?, if_pos (hchars c List.mem_cons_self)]
      have hrest := ih (fun d hd => hchars d (List.mem_cons_of_mem _ hd)) (c :: held)
      rw [List.reverse_cons, List.append_assoc, List.singleton_append] at hrest
      rw [readFrom?_cons_silent hstep, hrest]

/-- A character of a run begins one. -/
theorem start?_run {c : Char} (hc : inRun c = true) : start? c = some ([], .run [c]) := by
  have hblank : isBlank c = false := by
    by_contra h
    rw [Bool.not_eq_false, isBlank, Bool.or_eq_true, beq_iff_eq, beq_iff_eq] at h
    rcases h with rfl | rfl <;> exact absurd hc (by decide)
  rw [start?, if_neg (by simp [hblank]), if_pos hc]

/-- A whole run is one lexeme. -/
theorem readFrom?_of_inRun {first : Char} {others : List Char}
    (hall : ∀ c ∈ first :: others, inRun c = true) :
    readFrom? .nothing (first :: others) = some [ofRun (first :: others)] := by
  obtain ⟨hfirst, hothers⟩ := List.forall_mem_cons.mp hall
  have hstep : step? .nothing first = some ([], .run [first]) := start?_run hfirst
  rw [readFrom?_cons_silent hstep, readFrom?_run hothers]
  rfl

/-- What the reader begins with a character is a run only of that character. -/
theorem inRun_of_start? {c : Char} {now : List Lexeme} {chars : List Char}
    (hstart : start? c = some (now, .run chars)) : ∀ d ∈ chars, inRun d = true := by
  unfold start? at hstart
  split_ifs at hstart with hblank hrun hmark hquote <;> cases hstart
  intro d hd
  rwa [List.mem_singleton.mp hd]

/-- No character completes a word by itself. -/
theorem word_not_mem_of_start? {c : Char} {now : List Lexeme} {next : Pending}
    (hstart : start? c = some (now, next)) (letters : String) : .word letters ∉ now := by
  unfold start? at hstart
  split_ifs at hstart <;> cases hstart <;> simp

/-- A word is a run: a pending run holds only characters of runs, and a word is all that it
holds. -/
theorem inRun_of_mem_word {pending : Pending} {cs : List Char} {found : List Lexeme}
    (hread : readFrom? pending cs = some found)
    (hpending : ∀ chars, pending = .run chars → ∀ c ∈ chars, inRun c = true) {letters : String}
    (hword : .word letters ∈ found) : ∀ c ∈ letters.toList, inRun c = true := by
  have hrun (chars : List Char) (hchars : ∀ c ∈ chars, inRun c = true)
      (hofRun : .word letters = ofRun chars.reverse) : ∀ c ∈ letters.toList, inRun c = true := by
    unfold ofRun at hofRun
    split_ifs at hofRun
    rw [Lexeme.word.inj hofRun, String.toList_ofList]
    intro c hc
    exact hchars c (List.mem_reverse.mp hc)
  induction cs generalizing pending found with
  | nil =>
      cases pending with
      | nothing =>
          cases hread
          cases hword
      | run chars =>
          cases hread
          exact hrun chars (hpending chars rfl) (List.mem_singleton.mp hword)
      | literal inside => cases hread
  | cons c cs ih =>
      obtain ⟨now, next, further, hstep, hfurther, rfl⟩ := exists_step_of_readFrom? hread
      cases pending with
      | nothing =>
          refine ih hfurther ?_ ((List.mem_append.mp hword).resolve_left ?_)
          · rintro chars rfl
            exact inRun_of_start? hstep
          · exact word_not_mem_of_start? hstep letters
      | run chars =>
          have hchars := hpending chars rfl
          rw [step?] at hstep
          split_ifs at hstep with hc
          · cases hstep
            refine ih hfurther ?_ hword
            rintro held hheld
            cases hheld
            exact List.forall_mem_cons.mpr ⟨hc, hchars⟩
          · obtain ⟨⟨begun, after⟩, hstart, hnext⟩ := Option.map_eq_some_iff.mp hstep
            cases hnext
            rcases List.mem_append.mp hword with hnow | hlater
            · rcases List.mem_cons.mp hnow with hofRun | hbegun
              · exact hrun chars hchars hofRun
              · exact absurd hbegun (word_not_mem_of_start? hstart letters)
            · refine ih hfurther ?_ hlater
              rintro held rfl
              exact inRun_of_start? hstart
      | literal inside =>
          rw [step?] at hstep
          split at hstep
          · cases hstep
            exact ih hfurther (fun chars h => by cases h) hword
          · cases hstep
            refine ih hfurther (fun chars h => by cases h) ?_
            simpa using hword
          · cases hstep

/-! ## Numbers -/

/-- A digit is a character of a run. -/
theorem inRun_of_isDigit {c : Char} (hdigit : c.isDigit = true) : inRun c = true := by
  simp [inRun, Char.isAlphanum, hdigit]

/-- What stands for the sign of a number. -/
def ofSign (negative : Bool) : List Lexeme :=
  if negative then [.mark '-'] else []

/-- A run that begins with a digit is a number, whatever its sign. -/
theorem reads_signed {first : Char} {others : List Char} (hfirst : first.isDigit = true)
    (hothers : ∀ c ∈ others, inRun c = true) (negative : Bool) :
    Reads (Number.signed negative (first :: others))
      (ofSign negative ++ [.number (String.ofList (first :: others))]) := by
  have hall : ∀ c ∈ first :: others, inRun c = true :=
    List.forall_mem_cons.mpr ⟨inRun_of_isDigit hfirst, hothers⟩
  have hsize : readFrom? .nothing (first :: others) =
      some [.number (String.ofList (first :: others))] := by
    rw [readFrom?_of_inRun hall]
    simp [ofRun, hfirst]
  rw [Reads, read?, Number.signed, String.toList_ofList]
  cases negative with
  | false => exact hsize
  | true =>
      have hminus : step? .nothing '-' = some ([.mark '-'], .nothing) := rfl
      rw [if_pos rfl, readFrom?_cons hminus, hsize]
      rfl

/-- A number with a fixed number of places is one run. -/
theorem fixedPlaces_eq_cons (scaled places : Nat) :
    ∃ first others, Number.fixedPlaces scaled places = first :: others ∧
      first.isDigit = true ∧ ∀ c ∈ others, inRun c = true := by
  have hdigits : ∀ n, ∀ c ∈ Number.digitChars n, c.isDigit = true :=
    fun n c => Number.isDigit_of_mem_digitChars
  obtain ⟨first, others, hwhole⟩ :=
    List.exists_cons_of_ne_nil (Number.digitChars_ne_nil (scaled / Nat.pow 10 places))
  have hall : ∀ c ∈ first :: others, c.isDigit = true := by
    rw [← hwhole]
    exact hdigits _
  refine ⟨first, _, by rw [Number.fixedPlaces, hwhole, List.cons_append],
    hall first List.mem_cons_self, ?_⟩
  intro c hc
  rcases List.mem_append.mp hc with hc | hc
  · exact inRun_of_isDigit (hall c (List.mem_cons_of_mem _ hc))
  · rcases List.mem_cons.mp hc with rfl | hc
    · decide
    · rcases List.mem_append.mp hc with hc | hc
      · rw [List.eq_of_mem_replicate hc]
        decide
      · exact inRun_of_isDigit (hdigits _ c hc)

/-- What is read from the text of a number in a request. -/
def ofLiteral (x : Float) : List Lexeme :=
  match Number.Binary64.ofFloat x with
  | .nan => [.word "NaN"]
  | .infinity negative => ofSign negative ++ [.word "inf"]
  | .finite negative significand exponent =>
    let size := Number.Binary64.magnitude significand exponent
    let places := Number.literalPlaces size
    ofSign negative ++
      [.number (String.ofList (Number.fixedPlaces (size.scaledTo places) places))]

/-- A literal is a word for what is no number, or a signed run that begins with a digit. -/
theorem literal_cases {motive : String → List Lexeme → Prop} (x : Float)
    (nan : motive "NaN" [.word "NaN"])
    (infinity : ∀ negative,
      motive (Number.infinityText negative) (ofSign negative ++ [.word "inf"]))
    (digits : ∀ negative first others, first.isDigit = true → (∀ c ∈ others, inRun c = true) →
      motive (Number.signed negative (first :: others))
        (ofSign negative ++ [.number (String.ofList (first :: others))])) :
    motive (Number.literalText x) (ofLiteral x) := by
  unfold Number.literalText ofLiteral
  cases Number.Binary64.ofFloat x with
  | nan => exact nan
  | infinity negative => exact infinity negative
  | finite negative significand exponent =>
      dsimp only
      generalize Number.Binary64.magnitude significand exponent = size
      obtain ⟨first, others, hchars, hfirst, hothers⟩ :=
        fixedPlaces_eq_cons (size.scaledTo (Number.literalPlaces size)) (Number.literalPlaces size)
      rw [hchars]
      exact digits negative first others hfirst hothers

/-- The literal of a double has a number and its sign as its lexemes, or the word that stands for
it. -/
theorem reads_literalText (x : Float) : Reads (Number.literalText x) (ofLiteral x) := by
  refine literal_cases x (by decide) (fun negative => ?_)
    fun negative first others hfirst hothers => ?_
  · cases negative <;> decide
  · exact reads_signed hfirst hothers negative

end Lexeme

end PodCosts
