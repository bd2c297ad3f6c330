import PodCosts.Proofs.CommandLine.Given

/-!
# What one argument does

An argument that is accepted does one of six things to a reading. From them follows what all
arguments behind the name of a subcommand keep, and that in front of it there are only options.
-/

namespace PodCosts.CommandLine.Reading

variable {reading settled after : Reading} {held : Held} {text : String}

/-- What reading an argument can come to. -/
inductive Step (reading : Reading) : String → Reading → Prop
  | endOptions (hopen : reading.trailing = false) :
      Step reading "--" { reading with trailing := true }
  | value {setting : Setting} {text : String} (hopen : reading.trailing = false)
      (hword : IsWord text) (hpending : reading.pending = some (setting, none)) :
      Step reading text { reading with pending := some (setting, some text) }
  | positional {subcommand : Subcommand} {text : String} {settled : Reading}
      (hsubcommand : reading.subcommand = some subcommand)
      (hsettle : reading.settle = .ok settled) :
      Step reading text { settled with pod := some text }
  | joined {name value : String} {setting : Setting} {settled after : Reading}
      (hopen : reading.trailing = false)
      (hknown : Fields.get? name (optionsOf reading.subcommand) = some (.setting setting))
      (hsettle : reading.settle = .ok settled)
      (haccept : settled.accept setting value = .ok after) :
      Step reading ("--" ++ name ++ "=" ++ value) after
  | apart {name : String} {setting : Setting} {settled : Reading}
      (hopen : reading.trailing = false)
      (hknown : Fields.get? name (optionsOf reading.subcommand) = some (.setting setting))
      (hsettle : reading.settle = .ok settled) :
      Step reading ("--" ++ name) { settled with pending := some (setting, none) }
  | switch {name : String} {switch : Switch} {after : Reading} (hopen : reading.trailing = false)
      (hknown : Fields.get? name (optionsOf reading.subcommand) = some (.switch switch))
      (hswitch : reading.switchOn switch = .ok after) : Step reading ("--" ++ name) after

/-- A positional argument that is accepted is the pod. -/
theorem step_of_positional (hread : reading.positional text = .ok after) :
    reading.Step text after := by
  unfold positional at hread
  split at hread
  · split_ifs at hread
  · rename_i subcommand hsubcommand
    split_ifs at hread
    obtain ⟨settled, hsettle, hafter⟩ := exists_of_bind_eq_ok hread
    cases hafter
    exact .positional hsubcommand hsettle

/-- An option that is accepted is a switch, or an option with its value or without it. -/
theorem step_of_option {name : String} {value? : Option String} (hopen : reading.trailing = false)
    (hread : reading.option name value? = .ok after) :
    reading.Step (match value? with
      | some value => "--" ++ name ++ "=" ++ value
      | none => "--" ++ name) after := by
  unfold option at hread
  rcases hknown : Fields.get? name (optionsOf reading.subcommand) with _ | (setting | switch) <;>
    rw [hknown] at hread
  · cases hread
  · cases value? with
    | some value =>
      obtain ⟨settled, hsettle, haccept⟩ := exists_of_bind_eq_ok hread
      exact .joined hopen hknown hsettle haccept
    | none =>
      obtain ⟨settled, hsettle, hafter⟩ := exists_of_bind_eq_ok hread
      cases hafter
      exact .apart hopen hknown hsettle
  · cases value? with
    | some value => cases hread
    | none => exact .switch hopen hknown hread

/-- Help and the version are never an argument among others. -/
theorem switchOn_ne_ok {switch : Switch} (hswitch : switch = .help ∨ switch = .version) :
    reading.switchOn switch ≠ .ok after := by
  intro hread
  obtain ⟨settled, -, hrest⟩ := exists_of_bind_eq_ok hread
  rcases hswitch with rfl | rfl <;> cases hrest

/-- No option of one letter is accepted, since help and version end the reading. -/
theorem shortOption_ne_ok {letter : Char} : reading.shortOption letter ≠ .ok after := by
  unfold shortOption
  split_ifs
  · exact switchOn_ne_ok (.inl rfl)
  · exact switchOn_ne_ok (.inr rfl)
  · exact nofun

/-- An argument that is accepted does one of the six things. -/
theorem step_of_argument (hread : reading.argument text = .ok after) : reading.Step text after := by
  unfold argument at hread
  split at hread
  · exact step_of_positional hread
  · rename_i hopen
    have hopen : reading.trailing = false := Bool.eq_false_iff.mpr hopen
    split at hread
    · rename_i hdashes
      obtain rfl : text = "--" := String.toList_inj.mp hdashes
      cases hread
      exact .endOptions hopen
    · rename_i cs _ htext
      split at hread
      · rename_i name value hsplit
        have hjoined : text = "--" ++ String.ofList name ++ "=" ++ String.ofList value := by
          rw [← String.toList_inj, htext, eq_append_of_splitAtEquals hsplit]
          simp
        rw [hjoined]
        exact step_of_option hopen hread
      · have happart : text = "--" ++ String.ofList cs := by
          rw [← String.toList_inj, htext]
          simp
        rw [happart]
        exact step_of_option hopen hread
    · exact absurd hread shortOption_ne_ok
    · rename_i hother
      unfold word at hread
      split at hread
      · rename_i setting hpending
        cases hread
        exact .value hopen (isWord_iff.mpr hother) hpending
      · exact step_of_positional hread

/-! ## What is kept behind the name of the subcommand -/

/-- Once the options have ended they do not begin again. -/
theorem trailing_of_argument (hread : reading.argument text = .ok after)
    (htrailing : reading.trailing = true) : after.trailing = true := by
  cases step_of_argument hread with
  | positional hsubcommand hsettle =>
    exact (place_settle hsettle).2.trailing_eq.trans htrailing
  | endOptions | value | joined | apart | switch => simp_all

/-- Only an argument that names an option makes its value wait. -/
theorem free_of_argument (hread : reading.argument text = .ok after) (hfree : reading.Free held)
    (hnames : reading.trailing = false → ¬Names held.option.text text) : after.Free held := by
  cases step_of_argument hread with
  | endOptions hopen => exact hfree
  | value hopen hword hpending =>
    intro setting value? hafter
    cases hafter
    exact hfree _ _ hpending
  | positional hsubcommand hsettle => exact free_of_pending (place_settle hsettle).1
  | joined hopen hknown hsettle haccept =>
    exact free_of_pending ((place_accept haccept).1.trans (place_settle hsettle).1)
  | apart hopen hknown hsettle =>
    intro setting value? hafter heq
    cases hafter
    exact hnames hopen (.inl (by rw [eq_text_of_get? hknown, heq]))
  | switch hopen hknown hswitch => exact free_of_pending (place_switchOn hswitch).1

/-- What is held for an option makes no difference to arguments that do not give it. -/
theorem arguments_put {texts : List String} (hfree : reading.Free held)
    (hgives : reading.trailing = false → ¬Gives held.option.text texts) :
    (reading.put held).arguments texts >>= settle =
      (put · held) <$> (reading.arguments texts >>= settle) := by
  induction texts generalizing reading with
  | nil => exact settle_put hfree
  | cons text texts ih =>
    by_cases hends : reading.trailing = false ∧ text = "--"
    · -- whatever follows is no option any more
      obtain ⟨hopen, rfl⟩ := hends
      rw [arguments, arguments, argument_dashes hopen, argument_dashes (trailing_put.trans hopen)]
      have hput : { reading.put held with trailing := true } =
          { reading with trailing := true }.put held := by
        cases held <;> rfl
      exact hput ▸ ih hfree fun hopen => absurd hopen.symm Bool.false_ne_true
    · have hapart : reading.trailing = false →
          ¬Names held.option.text text ∧ ¬Gives held.option.text texts := fun hopen =>
        not_gives_cons (fun hdashes => hends ⟨hopen, hdashes⟩) (hgives hopen)
      rw [arguments, arguments, argument_put hfree fun hopen => (hapart hopen).1, bind_map_left,
        bind_assoc, bind_assoc, map_bind]
      refine bind_congr_of_ok fun after hread => ?_
      refine ih (free_of_argument hread hfree fun hopen => (hapart hopen).1) fun hafter => ?_
      refine (hapart ?_).2
      rw [Bool.eq_false_iff] at hafter ⊢
      exact mt (trailing_of_argument hread) hafter

end PodCosts.CommandLine.Reading
