import PodCosts.CommandLine.Parser
import PodCosts.Proofs.Fields

/-!
# Options as they are written

An option is written with two dashes in front of its name. Its value stands behind an equals sign,
or is the next argument if that is a word. This module says how the arguments of an option are
spelled, when a list of arguments gives an option, and what the reader makes of one argument by its
spelling.
-/

namespace PodCosts.CommandLine

/-! ## The two parts around the first equals sign -/

/-- The first equals sign ends a name. -/
theorem splitAtEquals_append {name : List Char} (hname : '=' ∉ name) (value : List Char) :
    splitAtEquals (name ++ '=' :: value) = some (name, value) := by
  induction name with
  | nil => rfl
  | cons c name ih =>
    obtain ⟨hc, hname⟩ := not_or.mp (mt List.mem_cons.mpr hname)
    rw [List.cons_append, splitAtEquals, if_neg (Ne.symm hc), ih hname, Option.map_some]

/-- Without an equals sign there is no value. -/
theorem splitAtEquals_of_notMem {cs : List Char} (hcs : '=' ∉ cs) : splitAtEquals cs = none := by
  induction cs with
  | nil => rfl
  | cons c cs ih =>
    obtain ⟨hc, hcs⟩ := not_or.mp (mt List.mem_cons.mpr hcs)
    rw [splitAtEquals, if_neg (Ne.symm hc), ih hcs, Option.map_none]

/-- A name and its value have an equals sign between them. -/
theorem eq_append_of_splitAtEquals {cs name value : List Char}
    (hsplit : splitAtEquals cs = some (name, value)) : cs = name ++ '=' :: value := by
  induction cs generalizing name with
  | nil => cases hsplit
  | cons c cs ih =>
    rw [splitAtEquals] at hsplit
    by_cases hc : c = '='
    · rw [if_pos hc] at hsplit
      cases hsplit
      rw [hc, List.nil_append]
    · rw [if_neg hc] at hsplit
      obtain ⟨⟨first, second⟩, hfirst, heq⟩ := Option.map_eq_some_iff.mp hsplit
      cases heq
      rw [ih hfirst, List.cons_append]

/-! ## The names of options -/

/-- The name of an option. -/
def Meaning.text : Meaning → String
  | .setting .workspace => "workspace"
  | .setting .endpoint => "endpoint"
  | .setting .logFormat => "log-format"
  | .setting .name => "name"
  | .setting .label => "label"
  | .switch .printQuery => "print-query"
  | .switch .orphans => "orphans"
  | .switch .help => "help"
  | .switch .version => "version"

/-- An option is known by its own name only. -/
theorem eq_text_of_get? {side : Option Subcommand} {name : String} {meaning : Meaning}
    (hknown : Fields.get? name (optionsOf side) = some meaning) : name = meaning.text := by
  have hall : ∀ option ∈ optionsOf side, option.1 = option.2.text := by
    rcases side with _ | _ | _ | _ | _ | _ <;> decide
  exact hall _ (Fields.mem_of_get? hknown)

/-- The options with a value that stand on either side of the name of the subcommand. -/
inductive SharedSetting where
  | workspace
  | endpoint
  | logFormat
deriving DecidableEq

namespace SharedSetting

/-- A shared option as one of all options. -/
def setting : SharedSetting → Setting
  | workspace => .workspace
  | endpoint => .endpoint
  | logFormat => .logFormat

/-- The name of a shared option. -/
def text (shared : SharedSetting) : String :=
  (Meaning.setting shared.setting).text

variable (shared : SharedSetting)

/-- A shared option is known on both sides. -/
theorem get?_text (side : Option Subcommand) :
    Fields.get? shared.text (optionsOf side) = some (.setting shared.setting) := by
  rcases side with _ | _ | _ | _ | _ | _ <;> cases shared <;> decide

/-- No shared option has an equals sign in its name. -/
theorem equals_notMem_text : '=' ∉ shared.text.toList := by
  cases shared <;> decide

/-- Every shared option has a name. -/
theorem text_ne_nil : shared.text.toList ≠ [] := by
  cases shared <;> decide

end SharedSetting

/-- The request can be asked for on both sides. -/
theorem get?_printQuery (side : Option Subcommand) :
    Fields.get? (Meaning.switch .printQuery).text (optionsOf side) =
      some (.switch .printQuery) := by
  rcases side with _ | _ | _ | _ | _ | _ <;> decide

/-- In front of the name of the subcommand every option with a value is a shared one. -/
theorem exists_shared_of_get? {name : String} {setting : Setting}
    (hknown : Fields.get? name (optionsOf none) = some (.setting setting)) :
    ∃ shared : SharedSetting, shared.text = name ∧ shared.setting = setting := by
  have hname := eq_text_of_get? hknown
  have hall : ∀ option ∈ optionsOf none,
      option.2 ∉ [Meaning.setting .name, Meaning.setting .label] := by decide
  have hshared := hall _ (Fields.mem_of_get? hknown)
  cases setting with
  | workspace => exact ⟨.workspace, hname.symm, rfl⟩
  | endpoint => exact ⟨.endpoint, hname.symm, rfl⟩
  | logFormat => exact ⟨.logFormat, hname.symm, rfl⟩
  | name => exact absurd (by simp) hshared
  | label => exact absurd (by simp) hshared

/-! ## The arguments of an option -/

/-- An argument that is no option: a single dash, or what does not begin with a dash. -/
def IsWord (text : String) : Prop :=
  text = "-" ∨ text.toList.head? ≠ some '-'

instance (text : String) : Decidable (IsWord text) :=
  inferInstanceAs (Decidable (_ ∨ _))

/-- A word has nothing behind a dash at its beginning. -/
theorem isWord_iff {text : String} :
    IsWord text ↔ ∀ letter cs, text.toList ≠ '-' :: letter :: cs := by
  constructor
  · rintro (rfl | hhead) letter cs htext
    · simp at htext
    · simp [htext] at hhead
  · intro hnone
    rcases htext : text.toList with _ | ⟨c, _ | ⟨letter, cs⟩⟩
    · exact .inr (by simp [htext])
    · by_cases hc : c = '-'
      · exact .inl (String.toList_inj.mp (by rw [htext, hc]; rfl))
      · exact .inr (by simpa [htext] using hc)
    · refine .inr ?_
      rintro hhead
      obtain rfl : c = '-' := by simpa [htext] using hhead
      exact hnone letter cs htext

/-- A shared option as it is given in a list of arguments. -/
inductive Given where
  /-- With its value behind an equals sign. -/
  | joined (shared : SharedSetting) (value : String)
  /-- With its value as an argument of its own. -/
  | apart (shared : SharedSetting) (value : String) (hword : IsWord value)
  | printQuery

namespace Given

/-- The option that is given. -/
def option : Given → Meaning
  | joined shared _ => .setting shared.setting
  | apart shared _ _ => .setting shared.setting
  | printQuery => .switch .printQuery

/-- The arguments by which the option is given. -/
def args : Given → List String
  | joined shared value => ["--" ++ shared.text ++ "=" ++ value]
  | apart shared value _ => ["--" ++ shared.text, value]
  | printQuery => ["--" ++ (Meaning.switch .printQuery).text]

end Given

/-- Whether an argument is the option of a name, with or without a value behind an equals sign. -/
def Names (name text : String) : Prop :=
  text = "--" ++ name ∨ ("--" ++ name ++ "=").toList <+: text.toList

instance (name text : String) : Decidable (Names name text) :=
  inferInstanceAs (Decidable (_ ∨ _))

/-- Whether the option of a name is given in a list of arguments. Behind two dashes there are no
options any more. -/
def Gives (name : String) (args : List String) : Prop :=
  ∃ arg ∈ args.takeWhile (· ≠ "--"), Names name arg

instance (name : String) (args : List String) : Decidable (Gives name args) :=
  List.decidableBEx (Names name) (args.takeWhile (· ≠ "--"))

/-- An option that is not given in arguments is neither the first of them nor given in the others.
-/
theorem not_gives_cons {name arg : String} {args : List String} (harg : arg ≠ "--")
    (hgives : ¬Gives name (arg :: args)) : ¬Names name arg ∧ ¬Gives name args := by
  have htake : (arg :: args).takeWhile (· ≠ "--") = arg :: args.takeWhile (· ≠ "--") :=
    List.takeWhile_cons_of_pos (by simpa using harg)
  rw [Gives, htake] at hgives
  exact ⟨fun hnames => hgives ⟨arg, List.mem_cons_self, hnames⟩,
    fun ⟨other, hother, hnames⟩ => hgives ⟨other, List.mem_cons_of_mem _ hother, hnames⟩⟩

/-- An argument that is read as an option with a value behind an equals sign names the option. -/
theorem names_of_splitAtEquals {text : String} {cs name value : List Char}
    (htext : text.toList = '-' :: '-' :: cs) (hsplit : splitAtEquals cs = some (name, value)) :
    Names (String.ofList name) text := by
  right
  rw [htext, eq_append_of_splitAtEquals hsplit]
  exact ⟨value, by simp⟩

/-- So does the name alone. -/
theorem names_of_toList {text : String} {cs : List Char}
    (htext : text.toList = '-' :: '-' :: cs) : Names (String.ofList cs) text := by
  left
  rw [← String.toList_inj, htext]
  simp

end PodCosts.CommandLine
