import PodCosts.Proofs.Settings.Sessions
import PodCosts.Remote
import Mathlib.Data.List.DropRight
import Mathlib.Data.List.Infix

/-!
# Normalised endpoints

An endpoint is trimmed of blanks first and of the slashes at its end afterwards. Where a blank
stands in front of those slashes it comes to the end of the endpoint, and a second normalisation, or
the address that requests are posted to, loses it. Every other endpoint is in its final form after
one normalisation.
-/

namespace PodCosts

namespace Text

variable {p : Char → Bool} {cs front tail : List Char}

/-- What begins behind the dropped characters is not one of them. -/
theorem head?_dropWhile (p : Char → Bool) (cs : List Char) :
    ∀ c ∈ (cs.dropWhile p).head?, p c = false := by
  intro c hc
  have hfirst := List.head?_dropWhile_not p cs
  rw [hc] at hfirst
  exact hfirst

/-- What ends in front of the dropped characters is not one of them. -/
theorem getLast?_dropEndWhile (p : Char → Bool) (cs : List Char) :
    ∀ c ∈ (dropEndWhile p cs).getLast?, p c = false := by
  intro c hc
  rw [dropEndWhile, List.getLast?_reverse] at hc
  exact head?_dropWhile p cs.reverse c hc

/-- A list is what is left of it followed by the dropped characters. -/
theorem exists_eq_dropEndWhile_append (p : Char → Bool) (cs : List Char) :
    ∃ tail, cs = dropEndWhile p cs ++ tail ∧ ∀ c ∈ tail, p c = true :=
  ⟨cs.rtakeWhile p, List.rdropWhile_append_rtakeWhile.symm, fun _ => List.mem_rtakeWhile_imp⟩

/-- Dropping stops in front of the first character from the end that is kept. -/
theorem dropEndWhile_append (hfront : ∀ c ∈ front.getLast?, p c = false)
    (htail : ∀ c ∈ tail, p c = true) : dropEndWhile p (front ++ tail) = front := by
  have hreverse : ∀ c ∈ tail.reverse, p c = true := fun c hc => htail c (List.mem_reverse.mp hc)
  have hkept : front.reverse.dropWhile p = front.reverse := by
    rw [List.dropWhile_eq_self_iff]
    intro hne
    have hlast : front.getLast? = some (front.reverse[0]) := by
      rw [← List.head?_reverse, List.head?_eq_getElem?, List.getElem?_eq_getElem hne]
    simpa using hfront _ hlast
  rw [dropEndWhile, List.reverse_append, List.dropWhile_append_of_pos hreverse, hkept,
    List.reverse_reverse]

/-- What is left begins as the list does. -/
theorem head?_of_dropEndWhile {c : Char} (hc : c ∈ (dropEndWhile p cs).head?) : c ∈ cs.head? := by
  obtain ⟨tail, heq, -⟩ := exists_eq_dropEndWhile_append p cs
  rw [heq, List.head?_append, hc]
  rfl

/-- Trimmed text neither begins nor ends with a blank. -/
theorem head?_trimChars (cs : List Char) : ∀ c ∈ (trimChars cs).head?, isBlank c = false := by
  intro c hc
  exact head?_dropWhile isBlank cs c (head?_of_dropEndWhile hc)

/-- Trimmed text does not end in a blank. -/
theorem getLast?_trimChars (cs : List Char) : ∀ c ∈ (trimChars cs).getLast?, isBlank c = false :=
  getLast?_dropEndWhile isBlank (trimStart cs)

/-- Text without blanks around it is trimmed. -/
theorem trimChars_eq_self (hfirst : ∀ c ∈ cs.head?, isBlank c = false)
    (hlast : ∀ c ∈ cs.getLast?, isBlank c = false) : trimChars cs = cs := by
  have hstart : trimStart cs = cs := by
    rw [trimStart, List.dropWhile_eq_self_iff]
    intro hne
    have hhead : cs.head? = some cs[0] := by
      rw [List.head?_eq_getElem?, List.getElem?_eq_getElem hne]
    simpa using hfirst _ hhead
  have htrim := dropEndWhile_append hlast (List.forall_mem_nil _)
  rw [List.append_nil] at htrim
  rw [trimChars, hstart, htrim]

/-- Trimming only leaves characters out. -/
theorem trimChars_sublist (cs : List Char) : (trimChars cs).Sublist cs :=
  (List.rdropWhile_prefix isBlank (trimStart cs)).sublist.trans (List.dropWhile_sublist _)

end Text

/-! ## The final form of an endpoint -/

/-- The form that endpoints are meant to have: something, with no blanks around it and no slash at
its end. -/
structure CanonicalEndpoint (endpoint : String) : Prop where
  nonempty : endpoint ≠ ""
  first_not_blank : ∀ c ∈ endpoint.toList.head?, Text.isBlank c = false
  last_not_blank : ∀ c ∈ endpoint.toList.getLast?, Text.isBlank c = false
  last_not_slash : endpoint.toList.getLast? ≠ some '/'

/-- Whether the slashes at the end of a text, apart from blanks around it, have a blank in front of
them. -/
def BlankBeforeSlashes (text : String) : Prop :=
  ∃ front blank slashes, Text.trimChars text.toList = front ++ blank :: slashes ∧
    Text.isBlank blank = true ∧ ∀ c ∈ slashes, c = '/'

/-- An endpoint is trimmed at both ends first and loses its last slashes then. -/
theorem toList_trimEndpoint (text : String) :
    (trimEndpoint text).toList = Text.dropEndWhile (· == '/') (Text.trimChars text.toList) :=
  String.toList_ofList

/-- A trimmed endpoint does not begin with a blank. -/
theorem trimEndpoint_first_not_blank (text : String) :
    ∀ c ∈ (trimEndpoint text).toList.head?, Text.isBlank c = false := by
  intro c hc
  rw [toList_trimEndpoint] at hc
  exact Text.head?_trimChars text.toList c (Text.head?_of_dropEndWhile hc)

/-- A trimmed endpoint does not end in a slash. -/
theorem trimEndpoint_last_not_slash (text : String) :
    (trimEndpoint text).toList.getLast? ≠ some '/' := by
  intro hlast
  rw [toList_trimEndpoint] at hlast
  have hkept := Text.getLast?_dropEndWhile (· == '/') _ '/' hlast
  simp at hkept

/-- Of a trimmed text with slashes at its end exactly these slashes are dropped, so a blank in front
of them is what the endpoint ends with. -/
theorem trimEndpoint_last_blank_iff (text : String) :
    (∃ c ∈ (trimEndpoint text).toList.getLast?, Text.isBlank c = true) ↔
      BlankBeforeSlashes text := by
  rw [toList_trimEndpoint]
  constructor
  · rintro ⟨blank, hlast, hblank⟩
    obtain ⟨slashes, heq, hslashes⟩ :=
      Text.exists_eq_dropEndWhile_append (· == '/') (Text.trimChars text.toList)
    obtain ⟨front, hfront⟩ := List.getLast?_eq_some_iff.mp hlast
    refine ⟨front, blank, slashes, ?_, hblank, ?_⟩
    · rw [heq, hfront]
      simp
    · intro c hc
      simpa using hslashes c hc
  · rintro ⟨front, blank, slashes, heq, hblank, hslashes⟩
    have hkept : ∀ c ∈ (front ++ [blank]).getLast?, (c == '/') = false := by
      intro c hc
      rw [List.getLast?_concat] at hc
      obtain rfl := Option.some.inj hc
      have hne : blank ≠ '/' := by
        rintro rfl
        exact absurd hblank (by decide)
      simpa using hne
    have hdropped : ∀ c ∈ slashes, (c == '/') = true := by
      intro c hc
      simpa using hslashes c hc
    have hsplit : front ++ blank :: slashes = (front ++ [blank]) ++ slashes := by simp
    refine ⟨blank, ?_, hblank⟩
    rw [heq, hsplit, Text.dropEndWhile_append hkept hdropped, List.getLast?_concat]
    rfl

/-- Exactly the texts with no blanks around them and no slash at their end are kept as they are. -/
theorem trimEndpoint_eq_self_iff (text : String) :
    trimEndpoint text = text ↔
      (∀ c ∈ text.toList.head?, Text.isBlank c = false) ∧
        (∀ c ∈ text.toList.getLast?, Text.isBlank c = false) ∧
        text.toList.getLast? ≠ some '/' := by
  constructor
  · intro hkept
    refine ⟨?_, ?_, ?_⟩
    · have hfirst := trimEndpoint_first_not_blank text
      rwa [hkept] at hfirst
    · -- nothing was dropped, so nothing was trimmed either
      have hlist := toList_trimEndpoint text
      rw [hkept] at hlist
      have hprefix : Text.dropEndWhile (· == '/') (Text.trimChars text.toList) <+:
          Text.trimChars text.toList := List.rdropWhile_prefix _ _
      rw [← hlist] at hprefix
      have hsublist := Text.trimChars_sublist text.toList
      have htrimmed : Text.trimChars text.toList = text.toList :=
        hsublist.eq_of_length_le hprefix.length_le
      have hlast := Text.getLast?_trimChars text.toList
      rwa [htrimmed] at hlast
    · have hlast := trimEndpoint_last_not_slash text
      rwa [hkept] at hlast
  · rintro ⟨hfirst, hlast, hslash⟩
    have hkept : ∀ c ∈ text.toList.getLast?, (c == '/') = false := by
      intro c hc
      have hne : c ≠ '/' := by
        rintro rfl
        exact hslash hc
      simpa using hne
    have hnone := Text.dropEndWhile_append hkept (List.forall_mem_nil _)
    rw [List.append_nil] at hnone
    rw [trimEndpoint, Text.trimChars_eq_self hfirst hlast, hnone, String.ofList_toList]

/-- Something that is not empty has the final form exactly if trimming keeps it. -/
theorem canonicalEndpoint_iff {endpoint : String} (hne : endpoint ≠ "") :
    CanonicalEndpoint endpoint ↔ trimEndpoint endpoint = endpoint := by
  rw [trimEndpoint_eq_self_iff]
  constructor
  · intro h
    exact ⟨h.first_not_blank, h.last_not_blank, h.last_not_slash⟩
  · rintro ⟨hfirst, hlast, hslash⟩
    exact ⟨hne, hfirst, hlast, hslash⟩

/-- The usual endpoint is canonical. -/
theorem canonicalEndpoint_standard : CanonicalEndpoint StoreSettings.standard.endpoint := by
  refine ⟨by decide, ?_, ?_, by decide⟩ <;> rintro c ⟨⟩ <;> decide

/-- Requests are posted to an endpoint as it is exactly if trimming keeps it. -/
theorem Store.queryUrl_eq_iff (endpoint : String) :
    Store.queryUrl endpoint = endpoint ++ "/query" ↔ trimEndpoint endpoint = endpoint := by
  rw [queryUrl]
  constructor
  · intro heq
    exact String.append_left_inj _ |>.mp heq
  · intro heq
    rw [heq]

namespace Settings

/-! ## Settings before and after their normalisation -/

/-- The settings as they are written in a text. -/
def written? (text : String) : Option Settings := do
  let entries ← Toml.read? text
  let pricing ← Toml.Entries.field? entries "pricing" Pricing.standard Pricing.ofItem?
  let store ← Toml.Entries.field? entries "store" StoreSettings.standard StoreSettings.ofItem?
  some ⟨pricing, store⟩

/-- The settings of a text are those that are written in it, normalised. -/
theorem ofText?_eq (text : String) : ofText? text = (written? text).map normalized := by
  simp only [ofText?, written?, Option.bind_eq_bind, Option.map_bind, Option.map_some,
    Function.comp_def]

variable (written : Settings)

/-- A normalised endpoint is the trimmed one, or the usual one where nothing is left of it. -/
theorem endpoint_normalized :
    (trimEndpoint written.store.endpoint = "" ∧
        written.normalized.store.endpoint = StoreSettings.standard.endpoint) ∨
      (trimEndpoint written.store.endpoint ≠ "" ∧
        written.normalized.store.endpoint = trimEndpoint written.store.endpoint) := by
  by_cases hempty : trimEndpoint written.store.endpoint = ""
  · exact .inl ⟨hempty, by simp only [normalized, if_pos hempty]⟩
  · exact .inr ⟨hempty, by simp only [normalized, if_neg hempty]⟩

/-- Something is left of every endpoint. It neither begins with a blank nor ends with a slash. -/
theorem endpoint_normalized_sound :
    let endpoint := written.normalized.store.endpoint
    endpoint ≠ "" ∧ (∀ c ∈ endpoint.toList.head?, Text.isBlank c = false) ∧
      endpoint.toList.getLast? ≠ some '/' := by
  intro endpoint
  obtain ⟨-, hendpoint⟩ | ⟨hne, hendpoint⟩ := endpoint_normalized written
  · have husual := canonicalEndpoint_standard
    rw [← hendpoint] at husual
    exact ⟨husual.nonempty, husual.first_not_blank, husual.last_not_slash⟩
  · have hfirst := trimEndpoint_first_not_blank written.store.endpoint
    have hlast := trimEndpoint_last_not_slash written.store.endpoint
    rw [← hendpoint] at hne hfirst hlast
    exact ⟨hne, hfirst, hlast⟩

/-- A normalised endpoint is in its final form exactly if no blank came to its end. -/
theorem canonicalEndpoint_normalized_iff :
    CanonicalEndpoint written.normalized.store.endpoint ↔
      ¬BlankBeforeSlashes written.store.endpoint := by
  obtain ⟨hempty, hendpoint⟩ | ⟨hne, hendpoint⟩ := endpoint_normalized written
  · rw [← trimEndpoint_last_blank_iff, hempty, hendpoint]
    constructor
    · rintro - ⟨c, hc, -⟩
      cases hc
    · intro _
      exact canonicalEndpoint_standard
  · rw [← trimEndpoint_last_blank_iff, hendpoint]
    constructor
    · rintro hcanonical ⟨c, hc, hblank⟩
      rw [hcanonical.last_not_blank c hc] at hblank
      cases hblank
    · intro hnone
      refine ⟨hne, trimEndpoint_first_not_blank _, ?_, trimEndpoint_last_not_slash _⟩
      intro c hc
      by_contra hblank
      exact hnone ⟨c, hc, by simpa using hblank⟩

/-- Normalising settings once more changes nothing exactly if trimming keeps their endpoint. -/
theorem normalized_eq_self_iff {settings : Settings} (hne : settings.store.endpoint ≠ "") :
    settings.normalized = settings ↔
      trimEndpoint settings.store.endpoint = settings.store.endpoint := by
  constructor
  · intro hkept
    have hsame : settings.normalized.store.endpoint = settings.store.endpoint := by rw [hkept]
    obtain ⟨hempty, hendpoint⟩ | ⟨-, hendpoint⟩ := endpoint_normalized settings
    · rw [hendpoint] at hsame
      have husual := (canonicalEndpoint_iff canonicalEndpoint_standard.nonempty).mp
        canonicalEndpoint_standard
      rwa [hsame] at husual
    · exact hendpoint.symm.trans hsame
  · intro hkept
    simp only [normalized, hkept, if_neg hne]

/-- What is written as an endpoint comes to something that neither begins with a blank nor ends with
a slash. That is the final form, is kept by a second normalisation, and is the address of the store
up to the place of its requests, exactly if what is written has no blank in front of the slashes at
its end. Reading a file gives these settings. -/
theorem endpoint_canonical_iff (written : Settings) :
    let settings := written.normalized
    let endpoint := settings.store.endpoint
    endpoint ≠ "" ∧ (∀ c ∈ endpoint.toList.head?, Text.isBlank c = false) ∧
      endpoint.toList.getLast? ≠ some '/' ∧
      (CanonicalEndpoint endpoint ↔ ¬BlankBeforeSlashes written.store.endpoint) ∧
      (settings.normalized = settings ↔ ¬BlankBeforeSlashes written.store.endpoint) ∧
      (Store.queryUrl endpoint = endpoint ++ "/query" ↔
        ¬BlankBeforeSlashes written.store.endpoint) ∧
      ∀ bytes text, Text.decodeStrict? bytes = some text →
        written? (String.ofList text) = some written →
        (Workspace.directory (.file bytes)).load = .ok settings := by
  intro settings endpoint
  obtain ⟨hne, hfirst, hlast⟩ := endpoint_normalized_sound written
  have hcanonical := canonicalEndpoint_normalized_iff written
  have hkept := canonicalEndpoint_iff hne
  refine ⟨hne, hfirst, hlast, hcanonical, ?_, ?_, ?_⟩
  · rw [normalized_eq_self_iff hne, ← hkept, hcanonical]
  · rw [Store.queryUrl_eq_iff, ← hkept, hcanonical]
  · intro bytes text hdecode hwritten
    rw [Workspace.load, ofBytes, hdecode]
    simp only [ofText?_eq, hwritten, Option.map_some]
    rfl

/-- An endpoint with a blank in front of its last slash ends with that blank, and requests are
posted to another address than it. -/
theorem endpoint_normalized_blank :
    let text := "store.endpoint = \"http://costs:8080 /\"\n"
    let settings : Settings := ⟨Pricing.standard, ⟨"http://costs:8080 ", 30⟩⟩
    (Workspace.directory (.file (Text.encode text))).load = .ok settings ∧
      ¬CanonicalEndpoint settings.store.endpoint ∧ settings.normalized ≠ settings ∧
      Store.queryUrl settings.store.endpoint = "http://costs:8080/query" := by
  intro text settings
  have hread : ofText? text = some settings := by decide +kernel
  refine ⟨?_, ?_, ?_, by decide +kernel⟩
  · rw [Workspace.load]
    exact ofBytes_encode hread
  · intro hcanonical
    have hlast : "http://costs:8080 ".toList.getLast? = some ' ' := by decide
    exact absurd (hcanonical.last_not_blank ' ' hlast) (by decide)
  · decide +kernel

end Settings

end PodCosts
