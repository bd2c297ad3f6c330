import PodCosts.Proofs.CommandLine.Settled

/-!
# What is held for a shared option

Reading arguments that do not give a shared option neither looks at what is held for it nor changes
that: putting something else there beforehand puts it there afterwards, and nothing else changes.
-/

namespace PodCosts.CommandLine

/-- What a reading holds for one of the shared options, which may be nothing. -/
inductive Held where
  | workspace (path? : Option String)
  | endpoint (text? : Option String)
  | logFormat (format? : Option LogFormat)
  | printQuery (given : Bool)

namespace Held

/-- The option that something is held for. -/
def option : Held → Meaning
  | workspace _ => .setting .workspace
  | endpoint _ => .setting .endpoint
  | logFormat _ => .setting .logFormat
  | printQuery _ => .switch .printQuery

/-- What is held for an option before it is given. -/
def nothing : Held → Held
  | workspace _ => workspace none
  | endpoint _ => endpoint none
  | logFormat _ => logFormat none
  | printQuery _ => printQuery false

end Held

namespace Reading

variable {reading after : Reading} {held other : Held}

/-- Puts something in the place of what is held for an option. -/
def put (reading : Reading) : Held → Reading
  | .workspace path? => { reading with workspace := path? }
  | .endpoint text? => { reading with endpoint := text? }
  | .logFormat format? => { reading with logFormat := format? }
  | .printQuery given => { reading with printQuery := given }

/-- What is held for an option does not change which value waits. -/
@[simp] theorem pending_put : (reading.put held).pending = reading.pending := by
  cases held <;> rfl

/-- What is held for an option does not change whether the options have ended. -/
@[simp] theorem trailing_put : (reading.put held).trailing = reading.trailing := by
  cases held <;> rfl

/-- What is held for an option does not change the subcommand. -/
@[simp] theorem subcommand_put : (reading.put held).subcommand = reading.subcommand := by
  cases held <;> rfl

/-- What is held for an option does not change the pod. -/
@[simp] theorem pod_put : (reading.put held).pod = reading.pod := by
  cases held <;> rfl

/-- What is held for two different options may be put there in either order. -/
theorem put_comm (hne : held.option ≠ other.option) :
    (reading.put held).put other = (reading.put other).put held := by
  cases held <;> cases other <;> first | rfl | exact absurd rfl hne

/-- Nothing is held for the option. -/
def Lacks (reading : Reading) : Held → Prop
  | .workspace _ => reading.workspace = none
  | .endpoint _ => reading.endpoint = none
  | .logFormat _ => reading.logFormat = none
  | .printQuery _ => reading.printQuery = false

/-- Before anything is read nothing is held. -/
theorem lacks_start (side : Option Subcommand) : (start side).Lacks held := by
  cases held <;> rfl

/-- What is held for one option does not decide whether another one is given. -/
theorem lacks_put_of_ne (hne : held.option ≠ other.option) :
    (reading.put held).Lacks other ↔ reading.Lacks other := by
  cases held <;> cases other <;> first | exact Iff.rfl | exact absurd rfl hne

/-- Whether nothing is held for an option depends on the option alone. -/
theorem lacks_iff_of_option_eq (heq : held.option = other.option) :
    reading.Lacks held ↔ reading.Lacks other := by
  cases held <;> cases other <;> first | exact Iff.rfl | cases heq

/-- Where nothing has been put, nothing is held. -/
theorem lacks_put_nothing : (reading.put held.nothing).Lacks held := by
  cases held <;> rfl

/-- Putting nothing where nothing is held changes nothing. -/
theorem put_nothing_of_lacks (hlacks : reading.Lacks held) :
    reading.put held.nothing = reading := by
  cases reading
  cases held <;> cases hlacks <;> rfl

/-- Nothing is held for the same option. -/
theorem option_nothing : held.nothing.option = held.option := by
  cases held <;> rfl

/-! ## Arguments that do not give the option -/

/-- No value of the option waits to be checked or to be given. -/
def Free (reading : Reading) (held : Held) : Prop :=
  ∀ setting value?, reading.pending = some (setting, value?) → .setting setting ≠ held.option

/-- Where no value waits, none of any option does. -/
theorem free_of_pending (hpending : reading.pending = none) : reading.Free held := by
  intro setting value? hsome
  rw [hpending] at hsome
  cases hsome

/-- The value of another option is kept whatever is held for this one. -/
theorem accept_put {setting : Setting} (hne : .setting setting ≠ held.option) (value : String) :
    (reading.put held).accept setting value = (put · held) <$> reading.accept setting value := by
  cases setting <;> cases held <;>
    first | exact absurd rfl hne | (simp only [accept, map_bind]; rfl)

/-- The value of another option is checked whatever is held for this one. -/
theorem settle_put (hfree : reading.Free held) :
    (reading.put held).settle = (put · held) <$> reading.settle := by
  unfold settle
  rw [pending_put]
  split
  · rfl
  · rfl
  · rename_i setting value hpending
    have hput : { reading.put held with pending := none } =
        { reading with pending := none }.put held := by
      cases held <;> rfl
    rw [hput]
    exact accept_put (hfree setting _ hpending) value

/-- Another switch is turned on whatever is held for this option. -/
theorem switchOn_put (hfree : reading.Free held) {switch : Switch}
    (hne : .switch switch ≠ held.option) :
    (reading.put held).switchOn switch = (put · held) <$> reading.switchOn switch := by
  rw [switchOn, switchOn, settle_put hfree, map_bind, bind_map_left]
  refine bind_congr fun settled => ?_
  -- only whether one of the two switches is already on decides what happens
  rcases settled with ⟨_, _, _, _, _ | _, _, _ | _, _, _, _, _⟩ <;> cases switch <;> cases held <;>
    first | rfl | exact absurd rfl hne

/-- Another option is read whatever is held for this one. -/
theorem option_put (hfree : reading.Free held) {name : String} (hne : name ≠ held.option.text)
    (value? : Option String) :
    (reading.put held).option name value? = (put · held) <$> reading.option name value? := by
  have hmeaning : ∀ meaning, Fields.get? name (optionsOf reading.subcommand) = some meaning →
      meaning ≠ held.option := fun meaning hknown heq =>
    hne (heq ▸ eq_text_of_get? hknown)
  unfold option
  rw [subcommand_put]
  split
  · rfl
  · rfl
  · rename_i hknown
    exact switchOn_put hfree (hmeaning _ hknown)
  · rename_i setting value hknown
    rw [settle_put hfree, map_bind, bind_map_left]
    exact bind_congr fun settled => accept_put (hmeaning _ hknown) value
  · rw [settle_put hfree, map_bind, bind_map_left]
    refine bind_congr fun settled => ?_
    cases held <;> rfl

/-- An option of one letter is read whatever is held for a shared option. -/
theorem shortOption_put (hfree : reading.Free held) (letter : Char) :
    (reading.put held).shortOption letter = (put · held) <$> reading.shortOption letter := by
  unfold shortOption
  rw [subcommand_put]
  split_ifs
  · exact switchOn_put hfree (by cases held <;> simp [Held.option])
  · exact switchOn_put hfree (by cases held <;> simp [Held.option])
  · rfl

/-- A positional argument is read whatever is held for a shared option. -/
theorem positional_put (hfree : reading.Free held) (text : String) :
    (reading.put held).positional text = (put · held) <$> reading.positional text := by
  unfold positional
  rw [subcommand_put, trailing_put, pod_put]
  split
  · split_ifs <;> rfl
  · split_ifs
    · rw [settle_put hfree, map_bind, bind_map_left]
      refine bind_congr fun settled => ?_
      cases held <;> rfl
    · rfl

/-- An argument that is no option is read whatever is held for a shared option. -/
theorem word_put (hfree : reading.Free held) (text : String) :
    (reading.put held).word text = (put · held) <$> reading.word text := by
  unfold word
  rw [pending_put]
  split
  · cases held <;> rfl
  · exact positional_put hfree text

/-- What is held for an option makes no difference to an argument that does not name it. -/
theorem argument_put (hfree : reading.Free held) {text : String}
    (hnames : reading.trailing = false → ¬Names held.option.text text) :
    (reading.put held).argument text = (put · held) <$> reading.argument text := by
  unfold argument
  rw [trailing_put]
  split
  · exact positional_put hfree text
  · rename_i hopen
    have hnames := hnames (Bool.eq_false_iff.mpr hopen)
    split
    · cases held <;> rfl
    · rename_i cs _ htext
      split
      · rename_i hsplit
        exact option_put hfree (fun heq => hnames (heq ▸ names_of_splitAtEquals htext hsplit)) _
      · exact option_put hfree (fun heq => hnames (heq ▸ names_of_toList htext)) _
    · exact shortOption_put hfree _
    · exact word_put hfree text

end Reading

end PodCosts.CommandLine
