import PodCosts.Proofs.CommandLine.Held

/-!
# Reading the arguments of an option

Reading the arguments of a shared option checks the value that waits, and then takes the option: its
value has to be accepted, and nothing may be held for the option so far. An option that is taken
before others can be taken after them.
-/

namespace PodCosts.CommandLine

/-! ## What is held for an option that is given -/

/-- What is held for an option with a value, if it accepts the value. -/
def SharedSetting.check (shared : SharedSetting) (value : String) : Except Refusal Held :=
  match shared with
  | workspace => do
    let checked := if value = "" then .error .invalidValue else .ok value
    let path ← checked
    .ok (.workspace (some path))
  | endpoint => .ok (.endpoint (some value))
  | logFormat => do
    let format ← (LogFormat.ofText value).mapError .valueValidation
    .ok (.logFormat (some format))

/-- What is held for an option that is given, if its value is accepted. -/
def Given.check : Given → Except Refusal Held
  | joined shared value => shared.check value
  | apart shared value _ => shared.check value
  | printQuery => .ok (.printQuery true)

/-- What is held for an option that is given is not nothing. -/
structure Held.IsOf (held : Held) (option : Meaning) : Prop where
  option_eq : held.option = option
  not_lacks (reading : Reading) : ¬(reading.put held).Lacks held

/-- What a shared option holds for an accepted value belongs to that option. -/
theorem SharedSetting.isOf_of_check {shared : SharedSetting} {value : String} {held : Held}
    (hcheck : shared.check value = .ok held) : held.IsOf (.setting shared.setting) := by
  cases shared with
  | endpoint =>
    cases hcheck
    exact ⟨rfl, fun reading hlacks => by cases hlacks⟩
  | workspace | logFormat =>
    obtain ⟨_, -, hheld⟩ := exists_of_bind_eq_ok hcheck
    cases hheld
    exact ⟨rfl, fun reading hlacks => by cases hlacks⟩

/-- What is held for an option that is given belongs to that option. -/
theorem Given.isOf_of_check {given : Given} {held : Held} (hcheck : given.check = .ok held) :
    held.IsOf given.option := by
  cases given with
  | joined shared value => exact SharedSetting.isOf_of_check hcheck
  | apart shared value hword => exact SharedSetting.isOf_of_check hcheck
  | printQuery =>
    cases hcheck
    exact ⟨rfl, fun reading hlacks => by cases hlacks⟩

namespace Reading

variable {reading settled after : Reading} {given : Given}

/-! ## Taking an option -/

/-- Takes an option that is given. -/
def take (reading : Reading) : Given → Except Refusal Reading
  | .joined shared value => reading.accept shared.setting value
  | .apart shared value _ => reading.accept shared.setting value
  | .printQuery => reading.switchOn .printQuery

/-- A value is kept if it is accepted and is the first one. -/
theorem once_eq_ok_iff {α : Type} {kept : Option α} {value : Except Refusal α}
    {place : Option α → Held} (hlacks : ∀ value?, reading.Lacks (place value?) ↔ kept = none) :
    (once kept value >>= fun value? => .ok (reading.put (place value?))) = .ok after ↔
      ∃ held, (value >>= fun value => .ok (place (some value))) = .ok held ∧
        reading.Lacks held ∧ after = reading.put held := by
  cases kept with
  | some first =>
    refine iff_of_false (by simp [once, bind, Except.bind]) ?_
    rintro ⟨held, hheld, hnone, -⟩
    obtain ⟨_, -, hheld⟩ := exists_of_bind_eq_ok hheld
    cases hheld
    cases (hlacks _).mp hnone
  | none =>
    cases value with
    | error refusal => simp [once, bind, Except.map, Except.bind]
    | ok value =>
      have hnone := (hlacks (some value)).mpr rfl
      simp [once, bind, Except.map, Except.bind, hnone, eq_comm]

/-- A value of a shared option is kept exactly if it is accepted and nothing is held for the option
yet. -/
theorem accept_eq_ok_iff {shared : SharedSetting} {value : String} :
    reading.accept shared.setting value = .ok after ↔
      ∃ held, shared.check value = .ok held ∧ reading.Lacks held ∧ after = reading.put held := by
  cases shared with
  | workspace =>
    have hkeep : ∀ path? : Option String, reading.Lacks (.workspace path?) ↔ _ := fun _ => Iff.rfl
    exact once_eq_ok_iff hkeep
  | endpoint =>
    have hkeep : ∀ text? : Option String, reading.Lacks (.endpoint text?) ↔ _ := fun _ => Iff.rfl
    change (once reading.endpoint (.ok value) >>= _) = _ ↔ _
    exact once_eq_ok_iff hkeep
  | logFormat =>
    have hkeep : ∀ format?, reading.Lacks (.logFormat format?) ↔ _ := fun _ => Iff.rfl
    exact once_eq_ok_iff hkeep

/-- An option is taken if its value is accepted and it is given for the first time. -/
theorem take_eq_ok_iff (hsettled : reading.pending = none) :
    reading.take given = .ok after ↔
      ∃ held, given.check = .ok held ∧ reading.Lacks held ∧ after = reading.put held := by
  cases given with
  | joined shared value => exact accept_eq_ok_iff
  | apart shared value hword => exact accept_eq_ok_iff
  | printQuery =>
    rw [take, switchOn, settle_of_pending hsettled]
    have hlacks : reading.Lacks (.printQuery true) ↔ reading.printQuery = false := Iff.rfl
    cases hgiven : reading.printQuery <;>
      simp [bind, Except.bind, Given.check, hlacks, hgiven, put, eq_comm]

/-- Taking an option leaves no value to be checked. -/
theorem pending_of_take (hsettled : reading.pending = none)
    (htake : reading.take given = .ok after) :
    after.pending = none := by
  obtain ⟨held, -, -, rfl⟩ := (take_eq_ok_iff hsettled).mp htake
  rw [pending_put, hsettled]

/-- Taking options leaves no value to be checked. -/
theorem pending_of_foldlM_take {givens : List Given} (hsettled : reading.pending = none)
    (htaken : givens.foldlM take reading = .ok after) : after.pending = none := by
  induction givens generalizing reading with
  | nil =>
    cases htaken
    exact hsettled
  | cons given givens ih =>
    rw [List.foldlM_cons] at htaken
    obtain ⟨between, hfirst, hrest⟩ := exists_of_bind_eq_ok htaken
    exact ih (pending_of_take hsettled hfirst) hrest

/-- What is held for an option is not touched by the options that are taken later. -/
theorem exists_of_foldlM_take_put {later : List Given} {held : Held} {option : Meaning}
    (hheld : held.IsOf option) (hsettled : reading.pending = none) (hlacks : reading.Lacks held)
    (htaken : later.foldlM take (reading.put held) = .ok after) :
    ∃ others, later.foldlM take reading = .ok others ∧ others.Lacks held ∧
      after = others.put held := by
  induction later generalizing reading with
  | nil =>
    cases htaken
    exact ⟨reading, rfl, hlacks, rfl⟩
  | cons next later ih =>
    rw [List.foldlM_cons] at htaken
    obtain ⟨between, hnext, hlater⟩ := exists_of_bind_eq_ok htaken
    obtain ⟨other, hcheck, hother, rfl⟩ := (take_eq_ok_iff (by rwa [pending_put])).mp hnext
    -- no option is taken twice, so the next one is another one
    have hne : held.option ≠ other.option := fun heq =>
      hheld.not_lacks reading ((lacks_iff_of_option_eq heq).mpr hother)
    rw [put_comm hne] at hlater
    obtain ⟨others, hothers, hrest, hafter⟩ :=
      ih (by rwa [pending_put]) ((lacks_put_of_ne hne.symm).mpr hlacks) hlater
    refine ⟨others, ?_, hrest, hafter⟩
    rw [List.foldlM_cons,
      (take_eq_ok_iff hsettled).mpr ⟨other, hcheck, (lacks_put_of_ne hne).mp hother, rfl⟩]
    exact hothers

/-- An option that is taken among others can be taken last. -/
theorem exists_of_foldlM_take {earlier later : List Given} (hsettled : reading.pending = none)
    (htaken : (earlier ++ given :: later).foldlM take reading = .ok after) :
    ∃ held others, given.check = .ok held ∧ (earlier ++ later).foldlM take reading = .ok others ∧
      others.Lacks held ∧ after = others.put held := by
  rw [List.foldlM_append] at htaken
  obtain ⟨before, hearlier, hrest⟩ := exists_of_bind_eq_ok htaken
  have hbefore := pending_of_foldlM_take hsettled hearlier
  rw [List.foldlM_cons] at hrest
  obtain ⟨between, hgiven, hlater⟩ := exists_of_bind_eq_ok hrest
  obtain ⟨held, hcheck, hlacks, rfl⟩ := (take_eq_ok_iff hbefore).mp hgiven
  obtain ⟨others, hothers, hlacks, rfl⟩ :=
    exists_of_foldlM_take_put (Given.isOf_of_check hcheck) hbefore hlacks hlater
  refine ⟨held, others, hcheck, ?_, hlacks, rfl⟩
  rw [List.foldlM_append, hearlier]
  exact hothers

/-! ## The arguments of an option -/

section

variable (hopen : reading.trailing = false)
include hopen

/-- An argument is an option if two dashes stand in front of a name. -/
theorem argument_of_toList {text : String} {c : Char} {cs : List Char}
    (htext : text.toList = '-' :: '-' :: c :: cs) :
    reading.argument text =
      match splitAtEquals (c :: cs) with
      | some (name, value) => reading.option (String.ofList name) (some (String.ofList value))
      | none => reading.option (String.ofList (c :: cs)) none := by
  rw [argument, if_neg (by simp [hopen]), htext]
  rfl

variable {name : String} (hne : name.toList ≠ []) (hequals : '=' ∉ name.toList)
include hne hequals

/-- A name with a value behind an equals sign is read as an option with that value. -/
theorem argument_joined (value : String) :
    reading.argument ("--" ++ name ++ "=" ++ value) = reading.option name (some value) := by
  obtain ⟨c, cs, hname⟩ := List.exists_cons_of_ne_nil hne
  have htext : ("--" ++ name ++ "=" ++ value).toList =
      '-' :: '-' :: c :: (cs ++ '=' :: value.toList) := by
    simp [hname]
  rw [argument_of_toList hopen htext, ← List.cons_append, ← hname, splitAtEquals_append hequals]
  simp only [String.ofList_toList]

/-- A name by itself is read as an option without a value. -/
theorem argument_apart : reading.argument ("--" ++ name) = reading.option name none := by
  obtain ⟨c, cs, hname⟩ := List.exists_cons_of_ne_nil hne
  have htext : ("--" ++ name).toList = '-' :: '-' :: c :: cs := by simp [hname]
  rw [argument_of_toList hopen htext, ← hname, splitAtEquals_of_notMem hequals]
  simp only [String.ofList_toList]

end

/-- A word is taken as it stands. -/
theorem argument_of_isWord (hopen : reading.trailing = false) {text : String}
    (hword : IsWord text) : reading.argument text = reading.word text := by
  rw [argument, if_neg (by simp [hopen])]
  split
  · exact absurd ‹_› (isWord_iff.mp hword _ _)
  · exact absurd ‹_› (isWord_iff.mp hword _ _)
  · exact absurd ‹_› (isWord_iff.mp hword _ _)
  · rfl

/-- A shared option with its value is kept once the value that waits has been checked. -/
theorem option_joined (shared : SharedSetting) (value : String) :
    reading.option shared.text (some value) =
      reading.settle >>= (·.accept shared.setting value) := by
  unfold option
  rw [shared.get?_text]

/-- A shared option without its value awaits one once the value that waits has been checked. -/
theorem option_apart (shared : SharedSetting) :
    reading.option shared.text none =
      reading.settle >>= fun settled =>
        .ok { settled with pending := some (shared.setting, none) } := by
  unfold option
  rw [shared.get?_text]

/-- The request is asked for by a switch. -/
theorem option_printQuery :
    reading.option (Meaning.switch .printQuery).text none = reading.switchOn .printQuery := by
  unfold option
  rw [get?_printQuery]

/-- Leaves the value of an option to be checked later if it stands by itself. -/
def give (settled : Reading) : Given → Except Refusal Reading
  | .joined shared value => settled.accept shared.setting value
  | .apart shared value _ => .ok { settled with pending := some (shared.setting, some value) }
  | .printQuery => settled.switchOn .printQuery

/-- The arguments of an option check the value that waits and then give the option. -/
theorem arguments_args (hopen : reading.trailing = false) (given : Given) :
    reading.arguments given.args = reading.settle >>= (·.give given) := by
  cases given with
  | joined shared value =>
    rw [Given.args, arguments, argument_joined hopen shared.text_ne_nil shared.equals_notMem_text,
      option_joined]
    exact bind_pure _
  | apart shared value hword =>
    rw [Given.args, arguments, argument_apart hopen shared.text_ne_nil shared.equals_notMem_text,
      option_apart, bind_assoc]
    refine bind_congr_of_ok fun settled hsettle => ?_
    let awaiting : Reading := { settled with pending := some (shared.setting, none) }
    have hopen : awaiting.trailing = false := (place_settle hsettle).2.trailing_eq.trans hopen
    change awaiting.arguments [value] = _
    rw [arguments, argument_of_isWord hopen hword]
    rfl
  | printQuery =>
    rw [Given.args, arguments, argument_apart hopen (by decide) (by decide), option_printQuery]
    refine (bind_pure _).trans (bind_congr_of_ok fun settled hsettle => ?_)
    rw [give, switchOn, settle_of_pending (place_settle hsettle).1]
    rfl

/-- Once its value has been checked, the option has been taken. -/
theorem settle_give (hsettled : settled.pending = none) (given : Given) :
    settled.give given >>= settle = settled.take given := by
  have hkept : settled.take given >>= settle = settled.take given :=
    (bind_congr_of_ok fun _ htake =>
      settle_of_pending (pending_of_take hsettled htake)).trans (bind_pure _)
  cases given with
  | joined shared value => exact hkept
  | apart shared value hword =>
    obtain ⟨_, _, _, _, _, _, _, _, _, _, _⟩ := settled
    cases hsettled
    rfl
  | printQuery => exact hkept

/-- The arguments of an option come to taking it, whatever follows them. -/
theorem arguments_args_append (hopen : reading.trailing = false)
    (hsettled : reading.pending = none) (htake : reading.take given = .ok after)
    (texts : List String) :
    reading.arguments (given.args ++ texts) >>= settle = after.arguments texts >>= settle := by
  have hargs : reading.arguments given.args >>= settle = .ok after := by
    rw [arguments_args hopen, settle_of_pending hsettled]
    exact (settle_give hsettled given).trans htake
  obtain ⟨unchecked, hunchecked, hsettle⟩ := exists_of_bind_eq_ok hargs
  rw [arguments_append, hunchecked]
  exact arguments_settled hsettle texts

/-- Giving an option changes nothing but the options. -/
theorem samePlace_give (hgive : settled.give given = .ok after) : settled.SamePlace after := by
  cases given with
  | joined shared value => exact (place_accept hgive).2
  | apart shared value hword =>
    cases hgive
    exact ⟨rfl, rfl, rfl⟩
  | printQuery =>
    have hswitch : settled.switchOn .printQuery = .ok after := hgive
    exact (place_switchOn hswitch).2

/-- Reading the arguments of options takes the options one by one. -/
theorem arguments_flatMap (hopen : reading.trailing = false) (givens : List Given) :
    reading.arguments (givens.flatMap Given.args) >>= settle =
      reading.settle >>= fun settled => givens.foldlM take settled := by
  induction givens generalizing reading with
  | nil => exact (bind_pure _).symm
  | cons given givens ih =>
    rw [List.flatMap_cons, arguments_append, arguments_args hopen, bind_assoc, bind_assoc]
    refine bind_congr_of_ok fun settled hsettle => ?_
    obtain ⟨hpending, hplace⟩ := place_settle hsettle
    have hnext : ∀ after, settled.give given = .ok after →
        after.arguments (givens.flatMap Given.args) >>= settle =
          after.settle >>= fun settled => givens.foldlM take settled := fun after hgive =>
      ih ((hplace.trans (samePlace_give hgive)).trailing_eq.trans hopen)
    rw [bind_congr_of_ok hnext, ← bind_assoc, settle_give hpending, List.foldlM_cons]

end Reading

end PodCosts.CommandLine
