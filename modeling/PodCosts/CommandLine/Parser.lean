import PodCosts.CommandLine.Basic

/-!
# Reading the command line

Arguments are read from left to right. Options of the program may stand before or behind the name of
the subcommand, where they win; options of a subcommand only behind it. The value of an option is
checked when the next argument has to be understood, so a fault further to the right can be the one
that is reported.
-/

namespace PodCosts.CommandLine

/-- The subcommands. -/
inductive Subcommand where
  | interactions
  | hierarchy
  | metrics
  | labels
  | livePods
deriving DecidableEq

namespace Subcommand

/-- All subcommands with their names. -/
def named : List (String × Subcommand) :=
  [("interactions", .interactions), ("hierarchy", .hierarchy), ("metrics", .metrics),
    ("labels", .labels), ("live-pods", .livePods)]

/-- The subcommand of a name. -/
def ofText? (text : String) : Option Subcommand :=
  Fields.get? text named

/-- Whether a subcommand takes the name of a pod as an argument of its own. -/
def takesPod : Subcommand → Bool
  | .hierarchy | .metrics => true
  | _ => false

end Subcommand

/-- The word that asks for help in the place of a subcommand. -/
def helpWord : String := "help"

/-- Options with a value. -/
inductive Setting where
  | workspace
  | endpoint
  | logFormat
  | name
  | label
deriving DecidableEq

/-- Options without a value. -/
inductive Switch where
  | printQuery
  | orphans
  | help
  | version
deriving DecidableEq

/-- What the name of an option stands for. -/
inductive Meaning where
  | setting (setting : Setting)
  | switch (switch : Switch)
deriving DecidableEq

/-- The options that stand on either side of the subcommand. -/
def globalOptions : List (String × Meaning) :=
  [("workspace", .setting .workspace), ("endpoint", .setting .endpoint),
    ("print-query", .switch .printQuery), ("log-format", .setting .logFormat),
    ("help", .switch .help)]

/-- The options that are known before the subcommand, or behind a given one. -/
def optionsOf : Option Subcommand → List (String × Meaning)
  | none => globalOptions ++ [("version", .switch .version)]
  | some .interactions =>
    globalOptions ++ [("name", .setting .name), ("orphans", .switch .orphans)]
  | some .labels => globalOptions ++ [("label", .setting .label)]
  | some _ => globalOptions

/-- What has been read on one side of the name of the subcommand. -/
structure Reading where
  /-- The subcommand, behind its name. -/
  subcommand : Option Subcommand
  workspace : Option String
  endpoint : Option String
  logFormat : Option LogFormat
  printQuery : Bool
  name : Option String
  orphans : Bool
  labels : List (String × String)
  pod : Option String
  /-- An option whose value is still to come or has not been checked. -/
  pending : Option (Setting × Option String)
  /-- Whether two dashes have ended the options. -/
  trailing : Bool

namespace Reading

/-- Nothing has been read. -/
def start (subcommand : Option Subcommand) : Reading :=
  ⟨subcommand, none, none, none, false, none, false, [], none, none, false⟩

/-- Whether the next argument is the value of an option. -/
def awaitsValue (reading : Reading) : Bool :=
  match reading.pending with
  | some (_, none) => !reading.trailing
  | _ => false

/-- Whether any option has been given. -/
def anyGiven (reading : Reading) : Bool :=
  reading.workspace.isSome || reading.endpoint.isSome || reading.logFormat.isSome ||
    reading.printQuery || reading.name.isSome || reading.orphans || !reading.labels.isEmpty

/-- A value for an option that may be given once. -/
def once {α : Type} (held : Option α) (value : Except Refusal α) : Except Refusal (Option α) :=
  if held.isSome then .error .argumentConflict else value.map some

/-- Checks the value of an option and keeps it. -/
def accept (reading : Reading) (setting : Setting) (value : String) : Except Refusal Reading :=
  match setting with
  | .workspace => do
    let checked := if value = "" then .error .invalidValue else .ok value
    let workspace ← once reading.workspace checked
    .ok { reading with workspace }
  | .endpoint => do
    let endpoint ← once reading.endpoint (.ok value)
    .ok { reading with endpoint }
  | .logFormat => do
    let logFormat ← once reading.logFormat ((LogFormat.ofText value).mapError .valueValidation)
    .ok { reading with logFormat }
  | .name => do
    let name ← once reading.name (.ok value)
    .ok { reading with name }
  | .label => do
    let pair ← (labelOfText value).mapError .valueValidation
    .ok { reading with labels := reading.labels ++ [pair] }

/-- Checks the option that has not been checked yet, if there is one. -/
def settle (reading : Reading) : Except Refusal Reading :=
  match reading.pending with
  | none => .ok reading
  | some (_, none) => .error .invalidValue
  | some (setting, some value) => { reading with pending := none }.accept setting value

/-- An option without a value. -/
def switchOn (reading : Reading) (switch : Switch) : Except Refusal Reading := do
  let reading ← reading.settle
  match switch with
  | .help => .error .help
  | .version => .error .version
  | .printQuery =>
    if reading.printQuery then .error .argumentConflict
    else .ok { reading with printQuery := true }
  | .orphans =>
    if reading.orphans then .error .argumentConflict else .ok { reading with orphans := true }

/-- An argument that begins with two dashes, with the value behind its `=` if there is one. -/
def option (reading : Reading) (name : String) (value? : Option String) :
    Except Refusal Reading :=
  match Fields.get? name (optionsOf reading.subcommand), value? with
  | none, _ => .error .unknownArgument
  | some (.switch _), some _ => .error .tooManyValues
  | some (.switch switch), none => reading.switchOn switch
  | some (.setting setting), some value => do
    let reading ← reading.settle
    reading.accept setting value
  | some (.setting setting), none => do
    let reading ← reading.settle
    .ok { reading with pending := some (setting, none) }

/-- An argument that begins with one dash, by its first letter. Only help and version have one. -/
def shortOption (reading : Reading) (letter : Char) : Except Refusal Reading :=
  if letter = 'h' then reading.switchOn .help
  else if letter = 'V' ∧ reading.subcommand = none then reading.switchOn .version
  else .error .unknownArgument

/-- An argument that is no option and no value of one. -/
def positional (reading : Reading) (text : String) : Except Refusal Reading :=
  match reading.subcommand with
  | none =>
    if reading.trailing && ((Subcommand.ofText? text).isSome || text == helpWord) then
      .error .unknownArgument
    else .error .invalidSubcommand
  | some subcommand =>
    if subcommand.takesPod && reading.pod.isNone then do
      let reading ← reading.settle
      .ok { reading with pod := some text }
    else .error .unknownArgument

/-- An argument that is no option: the value that is awaited, or a positional one. -/
def word (reading : Reading) (text : String) : Except Refusal Reading :=
  match reading.pending with
  | some (setting, none) => .ok { reading with pending := some (setting, some text) }
  | _ => reading.positional text

/-- Any argument but the name of a subcommand. A single dash is a word, and so is everything behind
two dashes, which no option awaits any more. -/
def argument (reading : Reading) (text : String) : Except Refusal Reading :=
  if reading.trailing then reading.positional text
  else
    match text.toList with
    | ['-', '-'] => .ok { reading with trailing := true }
    | '-' :: '-' :: cs =>
      match splitAtEquals cs with
      | some (name, value) => reading.option (String.ofList name) (some (String.ofList value))
      | none => reading.option (String.ofList cs) none
    | '-' :: letter :: _ => reading.shortOption letter
    | _ => reading.word text

/-- The arguments behind the name of a subcommand. -/
def arguments (reading : Reading) : List String → Except Refusal Reading
  | [] => .ok reading
  | text :: texts => do
    let reading ← reading.argument text
    reading.arguments texts

end Reading

/-- What stands behind the word for help: the name of at most one subcommand. -/
def helpRefusal : List String → Refusal
  | [] => .help
  | [name] =>
    if (Subcommand.ofText? name).isSome || name == helpWord then .help else .invalidSubcommand
  | _ => .invalidSubcommand

/-- The two sides of the name of the subcommand. -/
structure Sides where
  before : Reading
  behind : Reading

/-- Reads up to the name of the subcommand, and what is behind it. -/
def readSides (before : Reading) : List String → Except Refusal Sides
  | [] => do
    let before ← before.settle
    if before.anyGiven then .error .missingSubcommand else .error .helpOnMissingArgument
  | text :: texts =>
    if before.trailing || before.awaitsValue then do
      let before ← before.argument text
      readSides before texts
    else if text = helpWord then .error (helpRefusal texts)
    else
      match Subcommand.ofText? text with
      | some subcommand => do
        let behind ← (Reading.start (some subcommand)).arguments texts
        .ok ⟨before, behind⟩
      | none => do
        let before ← before.argument text
        readSides before texts

/-- The command of a subcommand, once everything it needs has been given. -/
def commandOf (subcommand : Subcommand) (behind : Reading) : Except Refusal Command :=
  match subcommand with
  | .interactions => .ok (.interactions (behind.name.getD Target.allWord) behind.orphans)
  | .hierarchy =>
    match behind.pod with
    | some name => .ok (.hierarchy name)
    | none => .error .missingRequired
  | .metrics =>
    match behind.pod with
    | some name => .ok (.metrics name)
    | none => .error .missingRequired
  | .labels =>
    if behind.labels.isEmpty then .error .missingRequired else .ok (.labels behind.labels)
  | .livePods => .ok .livePods

/-- Reads an argument list. What is given behind the subcommand wins over what is given before. -/
def parse (args : List String) : Except Refusal Invocation := do
  let sides ← readSides (Reading.start none) args
  let behind ← sides.behind.settle
  let command ←
    match behind.subcommand with
    | some subcommand => commandOf subcommand behind
    | none => .error .missingSubcommand
  let before ← sides.before.settle
  .ok
    { workspace := (behind.workspace.or before.workspace).getD "."
      endpoint := behind.endpoint.or before.endpoint
      printQuery := behind.printQuery || before.printQuery
      logFormat := (behind.logFormat.or before.logFormat).getD .human
      command }

end PodCosts.CommandLine
