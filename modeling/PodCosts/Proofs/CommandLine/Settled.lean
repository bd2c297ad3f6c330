import PodCosts.Proofs.CommandLine.Options
import PodCosts.Proofs.Visits

/-!
# Settled readings

The value of an option is only checked when the next argument has to be understood. A reading is
settled when no value waits to be checked. Checking it beforehand makes no difference to what comes
of the arguments that follow.
-/

namespace PodCosts.CommandLine.Reading

variable {reading settled after : Reading}

/-! ## Checking the last value -/

/-- A reading that differs only in the options that have been read. -/
structure SamePlace (reading after : Reading) : Prop where
  trailing_eq : after.trailing = reading.trailing
  subcommand_eq : after.subcommand = reading.subcommand
  pod_eq : after.pod = reading.pod

/-- Readings that stand in one place with a third stand in one place. -/
theorem SamePlace.trans (hfirst : reading.SamePlace settled) (hsecond : settled.SamePlace after) :
    reading.SamePlace after where
  trailing_eq := hsecond.trailing_eq.trans hfirst.trailing_eq
  subcommand_eq := hsecond.subcommand_eq.trans hfirst.subcommand_eq
  pod_eq := hsecond.pod_eq.trans hfirst.pod_eq

/-- Keeping a value changes nothing but what is held for its option. -/
theorem place_accept {setting : Setting} {value : String}
    (haccept : reading.accept setting value = .ok after) :
    after.pending = reading.pending ∧ reading.SamePlace after := by
  cases setting with
  | workspace | endpoint | logFormat | name | label =>
    obtain ⟨_, -, hkept⟩ := exists_of_bind_eq_ok haccept
    cases hkept
    exact ⟨rfl, rfl, rfl, rfl⟩

/-- After the check no value waits any more, and the reading stands where it stood. -/
theorem place_settle (hsettle : reading.settle = .ok settled) :
    settled.pending = none ∧ reading.SamePlace settled := by
  unfold settle at hsettle
  split at hsettle
  · rename_i hnone
    cases hsettle
    exact ⟨hnone, rfl, rfl, rfl⟩
  · cases hsettle
  · obtain ⟨hpending, hplace⟩ := place_accept hsettle
    exact ⟨hpending, hplace.trailing_eq, hplace.subcommand_eq, hplace.pod_eq⟩

/-- A switch checks the value that waits, and then changes nothing but whether it is on. -/
theorem place_switchOn {switch : Switch} (hswitch : reading.switchOn switch = .ok after) :
    after.pending = none ∧ reading.SamePlace after := by
  obtain ⟨settled, hsettle, hrest⟩ := exists_of_bind_eq_ok hswitch
  obtain ⟨hpending, hplace⟩ := place_settle hsettle
  cases switch with
  | help | version => cases hrest
  | printQuery | orphans =>
    dsimp only at hrest
    split at hrest
    · cases hrest
    · cases hrest
      exact ⟨hpending, hplace.trailing_eq, hplace.subcommand_eq, hplace.pod_eq⟩

/-- A reading in which no value waits is settled. -/
theorem settle_of_pending (hpending : reading.pending = none) :
    reading.settle = .ok reading := by
  rw [settle, hpending]

/-- The end of the options can be read before or after the check. -/
theorem settle_trailing (hsettle : reading.settle = .ok settled) :
    { reading with trailing := true }.settle = .ok { settled with trailing := true } := by
  unfold settle at hsettle ⊢
  split at hsettle
  · rename_i hnone
    cases hsettle
    simp only [hnone]
  · cases hsettle
  · rename_i setting value hpending
    simp only [hpending]
    cases setting with
    | workspace | endpoint | logFormat | name | label =>
      obtain ⟨held, hheld, hkept⟩ := exists_of_bind_eq_ok hsettle
      cases hkept
      rw [accept]
      simp only [hheld]
      rfl

/-! ## The arguments behind a value -/

/-- A value that is awaited is no value to check. -/
theorem pending_ne_of_settle (hsettle : reading.settle = .ok settled) (setting : Setting) :
    reading.pending ≠ some (setting, none) := by
  intro hpending
  rw [settle, hpending] at hsettle
  cases hsettle

section

variable (hsettle : reading.settle = .ok settled)
include hsettle

/-- A switch can be read before or after the check. -/
theorem switchOn_settled (switch : Switch) :
    reading.switchOn switch = settled.switchOn switch := by
  rw [switchOn, switchOn, hsettle, settle_of_pending (place_settle hsettle).1]

/-- An option can be read before or after the check. -/
theorem option_settled (name : String) (value? : Option String) :
    reading.option name value? = settled.option name value? := by
  obtain ⟨hpending, hplace⟩ := place_settle hsettle
  unfold option
  simp only [hplace.subcommand_eq, switchOn_settled hsettle, hsettle, settle_of_pending hpending]

/-- A positional argument can be read before or after the check. -/
theorem positional_settled (text : String) :
    reading.positional text = settled.positional text := by
  obtain ⟨hpending, hplace⟩ := place_settle hsettle
  rw [positional, positional, hplace.subcommand_eq, hplace.trailing_eq, hplace.pod_eq, hsettle,
    settle_of_pending hpending]

/-- An argument that is no option can be read before or after the check. -/
theorem word_settled (text : String) : reading.word text = settled.word text := by
  have hword : ∀ other : Reading, (∀ setting, other.pending ≠ some (setting, none)) →
      other.word text = other.positional text := by
    intro other hother
    unfold word
    split
    · rename_i hpending
      exact absurd hpending (hother _)
    · rfl
  rw [hword reading (pending_ne_of_settle hsettle), positional_settled hsettle,
    hword settled (by simp [(place_settle hsettle).1])]

/-- The value that waits may be checked before the next argument is read, unless that only ends the
options. -/
theorem argument_settled {text : String} (htext : reading.trailing = true ∨ text ≠ "--") :
    reading.argument text = settled.argument text := by
  obtain ⟨-, hplace⟩ := place_settle hsettle
  unfold argument
  simp only [hplace.trailing_eq, positional_settled hsettle, word_settled hsettle,
    option_settled hsettle, shortOption, switchOn_settled hsettle, hplace.subcommand_eq]
  split
  · rfl
  · rename_i hopen
    have htext : text ≠ "--" := htext.resolve_left hopen
    split
    · rename_i hdashes
      exact absurd (String.toList_inj.mp hdashes) htext
    · rfl
    · rfl
    · rfl

end

/-- Two dashes end the options. -/
theorem argument_dashes (hopen : reading.trailing = false) :
    reading.argument "--" = .ok { reading with trailing := true } := by
  rw [argument, if_neg (by simp [hopen])]
  rfl

/-- Nothing that follows depends on whether the value that waits is checked first. -/
theorem arguments_settled (hsettle : reading.settle = .ok settled) (texts : List String) :
    reading.arguments texts >>= settle = settled.arguments texts >>= settle := by
  induction texts generalizing reading settled with
  | nil => exact hsettle.trans (settle_of_pending (place_settle hsettle).1).symm
  | cons text texts ih =>
    by_cases htext : reading.trailing = true ∨ text ≠ "--"
    · rw [arguments, argument_settled hsettle htext, arguments]
    · -- the options end here, and the value still waits
      obtain ⟨hopen, rfl⟩ : reading.trailing = false ∧ text = "--" := by
        simpa [not_or] using htext
      rw [arguments, argument_dashes hopen, arguments,
        argument_dashes ((place_settle hsettle).2.trailing_eq.trans hopen)]
      exact ih (settle_trailing hsettle)

/-- Arguments are read one after another. -/
theorem arguments_append (texts others : List String) :
    reading.arguments (texts ++ others) =
      reading.arguments texts >>= fun after => after.arguments others := by
  induction texts generalizing reading with
  | nil => rfl
  | cons text texts ih =>
    rw [List.cons_append, arguments, arguments, bind_assoc]
    exact bind_congr fun _ => ih

end PodCosts.CommandLine.Reading
