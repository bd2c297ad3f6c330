import PodCosts.Proofs.CommandLine.Steps

/-!
# In front of the name of the subcommand

An argument list that is accepted consists of options that may stand on either side, the name of a
subcommand, and what stands behind the name.
-/

namespace PodCosts.CommandLine

/-- The arguments that consist of options, the name of a subcommand and what stands behind it. -/
def line (givens : List Given) (name : String) (behind : List String) : List String :=
  givens.flatMap Given.args ++ name :: behind

/-- Whether arguments consist of options, the name of a subcommand and what stands behind it. -/
def IsLine (args : List String) : Prop :=
  ∃ givens name behind, (Subcommand.ofText? name).isSome ∧ args = line givens name behind

/-- An option in front of such arguments is one more of their options. -/
theorem IsLine.cons {args : List String} (hline : IsLine args) (given : Given) :
    IsLine (given.args ++ args) := by
  obtain ⟨givens, name, behind, hname, rfl⟩ := hline
  refine ⟨given :: givens, name, behind, hname, ?_⟩
  rw [line, line, List.flatMap_cons, List.append_assoc]

/-! ## Reading up to the name of the subcommand -/

/-- Whether an argument is looked for in front of the arguments of a subcommand. -/
def IsName (text : String) : Prop :=
  text = helpWord ∨ (Subcommand.ofText? text).isSome

/-- The name of a subcommand is no option. -/
theorem isWord_of_isName {text : String} (hname : IsName text) : IsWord text := by
  have hnames : ∀ named ∈ Subcommand.named, IsWord named.1 := by decide
  rcases hname with rfl | hsome
  · decide
  · obtain ⟨subcommand, hsubcommand⟩ := Option.isSome_iff_exists.mp hsome
    exact hnames _ (Fields.mem_of_get? hsubcommand)

/-- A value is awaited behind the name of an option that has none yet. -/
theorem Reading.awaitsValue_iff {reading : Reading} (hopen : reading.trailing = false) :
    reading.awaitsValue = true ↔ ∃ setting, reading.pending = some (setting, none) := by
  unfold awaitsValue
  split
  · rename_i hpending
    simp [hopen, hpending]
  · rename_i hother
    refine iff_of_false Bool.false_ne_true ?_
    rintro ⟨setting, hpending⟩
    exact hother setting hpending

section

variable {before : Reading} {sides : Sides} {args texts : List String} {text : String}

/-- Arguments that end before a subcommand is named are refused. -/
theorem readSides_nil_ne_ok : readSides before [] ≠ .ok sides := by
  intro hread
  obtain ⟨settled, -, hrest⟩ := exists_of_bind_eq_ok hread
  split_ifs at hrest

/-- An argument that is no name, or is awaited, is one of those in front. -/
theorem readSides_cons (htext : (before.trailing || before.awaitsValue) = true ∨ ¬IsName text) :
    readSides before (text :: texts) =
      before.argument text >>= fun after => readSides after texts := by
  rw [readSides]
  split_ifs with hawaits hhelp
  · rfl
  · exact absurd (.inl hhelp) (htext.resolve_left hawaits)
  · split
    · rename_i hname
      exact absurd (.inr (by rw [hname]; rfl)) (htext.resolve_left hawaits)
    · rfl

/-- No subcommand is named behind two dashes. -/
theorem readSides_ne_ok (htrailing : before.trailing = true) (hfront : before.subcommand = none) :
    readSides before args ≠ .ok sides := by
  intro hread
  cases args with
  | nil => exact readSides_nil_ne_ok hread
  | cons text texts =>
    rw [readSides_cons (.inl (by simp [htrailing]))] at hread
    obtain ⟨after, hargument, -⟩ := exists_of_bind_eq_ok hread
    cases Reading.step_of_argument hargument <;> simp_all

end

namespace Reading

variable {reading settled after : Reading} {text : String}

/-- No value is awaited where the last one can be checked. -/
theorem awaitsValue_of_settle (hsettle : reading.settle = .ok settled)
    (hopen : reading.trailing = false) : reading.awaitsValue = false := by
  rw [Bool.eq_false_iff, ne_eq, awaitsValue_iff hopen, not_exists]
  exact pending_ne_of_settle hsettle

/-- No value is awaited where none is pending. -/
theorem awaitsValue_of_pending (hpending : reading.pending = none) :
    reading.awaitsValue = false := by
  rw [awaitsValue, hpending]

/-- In front of the name of the subcommand an argument is the value that is awaited, an option, or
the name of an option with its value to come. Or it ends the options. -/
theorem front_cases (hopen : reading.trailing = false) (hfront : reading.subcommand = none)
    (hread : reading.argument text = .ok after) :
    after.subcommand = none ∧ (after.trailing = true ∨ after.trailing = false ∧
      ((reading.awaitsValue = true ∧ after.awaitsValue = false ∧ IsWord text) ∨
        (reading.awaitsValue = false ∧ after.awaitsValue = false ∧
          ∃ given : Given, given.args = [text]) ∨
        (reading.awaitsValue = false ∧ after.awaitsValue = true ∧
          ∃ shared : SharedSetting, text = "--" ++ shared.text))) := by
  cases step_of_argument hread with
  | endOptions => exact ⟨hfront, .inl rfl⟩
  | positional hsubcommand => exact absurd (hfront.symm.trans hsubcommand) nofun
  | value _ hword hpending =>
    exact ⟨hfront, .inr ⟨hopen, .inl ⟨(awaitsValue_iff hopen).mpr ⟨_, hpending⟩, rfl, hword⟩⟩⟩
  | @joined name value setting settled _ _ hknown hsettle haccept =>
    obtain ⟨hpending, hsettled⟩ := place_settle hsettle
    obtain ⟨hkept, haccepted⟩ := place_accept haccept
    have hplace := hsettled.trans haccepted
    rw [hfront] at hknown
    obtain ⟨shared, rfl, rfl⟩ := exists_shared_of_get? hknown
    refine ⟨hplace.subcommand_eq.trans hfront,
      .inr ⟨hplace.trailing_eq.trans hopen, .inr (.inl ⟨?_, ?_, ?_⟩)⟩⟩
    · exact awaitsValue_of_settle hsettle hopen
    · exact awaitsValue_of_pending (hkept.trans hpending)
    · exact ⟨.joined shared value, rfl⟩
  | @apart name setting settled _ hknown hsettle =>
    obtain ⟨-, hplace⟩ := place_settle hsettle
    rw [hfront] at hknown
    obtain ⟨shared, rfl, rfl⟩ := exists_shared_of_get? hknown
    refine ⟨hplace.subcommand_eq.trans hfront,
      .inr ⟨hplace.trailing_eq.trans hopen, .inr (.inr ⟨?_, ?_, ?_⟩)⟩⟩
    · exact awaitsValue_of_settle hsettle hopen
    · refine (awaitsValue_iff ?_).mpr ⟨shared.setting, rfl⟩
      exact hplace.trailing_eq.trans hopen
    · exact ⟨shared, rfl⟩
  | @switch name switch _ _ hknown hswitch =>
    obtain ⟨hpending, hplace⟩ := place_switchOn hswitch
    obtain ⟨settled, hsettle, -⟩ := exists_of_bind_eq_ok hswitch
    obtain rfl := eq_text_of_get? hknown
    have hprintQuery : switch = .printQuery := by
      rw [hfront] at hknown
      cases switch with
      | printQuery => rfl
      | orphans => exact absurd hknown (by decide)
      | help => exact absurd hswitch (switchOn_ne_ok (.inl rfl))
      | version => exact absurd hswitch (switchOn_ne_ok (.inr rfl))
    refine ⟨hplace.subcommand_eq.trans hfront,
      .inr ⟨hplace.trailing_eq.trans hopen, .inr (.inl ⟨?_, ?_, ?_⟩)⟩⟩
    · exact awaitsValue_of_settle hsettle hopen
    · exact awaitsValue_of_pending hpending
    · exact ⟨.printQuery, by rw [hprintQuery]; rfl⟩

/-- A reading that awaits no value stays so over the arguments of an option. -/
theorem awaitsValue_of_give {given : Given} (hsettled : settled.pending = none)
    (hgive : settled.give given = .ok after) : after.awaitsValue = false := by
  cases given with
  | joined shared value =>
    exact awaitsValue_of_pending ((place_accept hgive).1.trans hsettled)
  | apart shared value hword =>
    cases hgive
    rfl
  | printQuery =>
    have hswitch : settled.switchOn .printQuery = .ok after := hgive
    exact awaitsValue_of_pending (place_switchOn hswitch).1

end Reading

/-- An argument that begins with two dashes is no name. -/
theorem not_isName_dashes (text : String) : ¬IsName ("--" ++ text) := by
  intro hname
  rcases isWord_of_isName hname with heq | hhead
  · simp [← String.toList_inj] at heq
  · simp at hhead

section

variable {before : Reading} {args rest : List String} {given : Given}

/-- The arguments of an option are read as behind the name of the subcommand. -/
theorem readSides_args (hopen : before.trailing = false) :
    readSides before (given.args ++ rest) =
      before.arguments given.args >>= fun after => readSides after rest := by
  cases given with
  | joined shared value =>
    rw [Given.args, List.singleton_append, String.append_assoc, String.append_assoc,
      readSides_cons (.inr (not_isName_dashes _)), Reading.arguments, bind_assoc]
    rfl
  | printQuery =>
    rw [Given.args, List.singleton_append, readSides_cons (.inr (not_isName_dashes _)),
      Reading.arguments, bind_assoc]
    rfl
  | apart shared value hword =>
    rw [Given.args, List.cons_append, readSides_cons (.inr (not_isName_dashes _)),
      Reading.arguments, bind_assoc,
      Reading.argument_apart hopen shared.text_ne_nil shared.equals_notMem_text,
      Reading.option_apart, bind_assoc, bind_assoc]
    refine bind_congr_of_ok fun settled hsettle => ?_
    let awaiting : Reading := { settled with pending := some (shared.setting, none) }
    have hopen : awaiting.trailing = false :=
      (Reading.place_settle hsettle).2.trailing_eq.trans hopen
    have hawaits := (Reading.awaitsValue_iff hopen).mpr ⟨shared.setting, rfl⟩
    change readSides awaiting (value :: rest) = awaiting.arguments [value] >>= _
    rw [readSides_cons (.inl (by simp [hawaits])), Reading.arguments, bind_assoc]
    rfl

/-- Options, the name of a subcommand and what stands behind it are read as such. -/
theorem readSides_line {name : String} {subcommand : Subcommand}
    (hname : Subcommand.ofText? name = some subcommand) (hopen : before.trailing = false)
    (hready : before.awaitsValue = false) (givens : List Given) (behind : List String) :
    readSides before (line givens name behind) =
      before.arguments (givens.flatMap Given.args) >>= fun before =>
        (Reading.start (some subcommand)).arguments behind >>= fun behind =>
          .ok ⟨before, behind⟩ := by
  induction givens generalizing before with
  | nil =>
    have hhelp : name ≠ helpWord := by
      rintro rfl
      have hnone : Subcommand.ofText? helpWord = none := by decide
      exact absurd (hnone.symm.trans hname) nofun
    rw [line, List.flatMap_nil, List.nil_append, readSides, if_neg (by simp [hopen, hready]),
      if_neg hhelp, hname]
    rfl
  | cons given givens ih =>
    have hcons : line (given :: givens) name behind = given.args ++ line givens name behind := by
      rw [line, line, List.flatMap_cons, List.append_assoc]
    rw [hcons, readSides_args hopen, List.flatMap_cons, Reading.arguments_append, bind_assoc]
    refine bind_congr_of_ok fun after hargs => ?_
    rw [Reading.arguments_args hopen] at hargs
    obtain ⟨settled, hsettle, hgive⟩ := exists_of_bind_eq_ok hargs
    obtain ⟨hpending, hplace⟩ := Reading.place_settle hsettle
    exact ih ((hplace.trans (Reading.samePlace_give hgive)).trailing_eq.trans hopen)
      (Reading.awaitsValue_of_give hpending hgive)

end

/-- What stands in front of the name of the subcommand are options, behind the value of the last one
where it is still awaited. -/
theorem isLine_of_readSides {before : Reading} {sides : Sides} {args : List String}
    (hopen : before.trailing = false) (hfront : before.subcommand = none)
    (hread : readSides before args = .ok sides) :
    if before.awaitsValue then ∃ value rest, args = value :: rest ∧ IsWord value ∧ IsLine rest
    else IsLine args := by
  induction args generalizing before with
  | nil => exact absurd hread readSides_nil_ne_ok
  | cons text texts ih =>
    by_cases hname : (before.trailing || before.awaitsValue) = true ∨ ¬IsName text
    · rw [readSides_cons hname] at hread
      obtain ⟨after, hargument, hrest⟩ := exists_of_bind_eq_ok hread
      obtain ⟨hfront, hended | ⟨hopen, hcases⟩⟩ := Reading.front_cases hopen hfront hargument
      · exact absurd hrest (readSides_ne_ok hended hfront)
      · have hline := ih hopen hfront hrest
        obtain ⟨hawaits, hafter, hword⟩ | ⟨hawaits, hafter, given, hgiven⟩ |
          ⟨hawaits, hafter, shared, rfl⟩ := hcases <;> rw [hafter] at hline <;> rw [hawaits]
        · exact ⟨text, texts, rfl, hword, hline⟩
        · have hcons := IsLine.cons hline given
          rwa [hgiven] at hcons
        · obtain ⟨value, rest, rfl, hword, hline⟩ := hline
          exact hline.cons (.apart shared value hword)
    · obtain ⟨hawaits, hname⟩ := not_or.mp hname
      rw [Bool.or_eq_true, not_or] at hawaits
      rw [if_neg hawaits.2]
      obtain rfl | hsome := not_not.mp hname
      · rw [readSides, if_neg (by simpa using hawaits)] at hread
        cases hread
      · exact ⟨[], text, texts, hsome, rfl⟩

end PodCosts.CommandLine
