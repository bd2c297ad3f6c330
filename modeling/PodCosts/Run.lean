import PodCosts.Command
import PodCosts.CommandLine.Parser
import PodCosts.Remote
import PodCosts.Settings.Workspace

/-!
# Runs

What the program does between reading its arguments and writing its output: it makes sure that its
workspace has settings, picks the store to ask, and carries out its command or shows the request it
would send.
-/

namespace PodCosts

/-- Why a run fails. -/
inductive RunError where
  /-- The workspace cannot be found. -/
  | workspace (path : String)
  | settings (path : String) (error : SettingsError)
  | command (error : CommandError)
deriving DecidableEq

namespace SettingsError

/-- The wording of an error. -/
def message : SettingsError → String
  | .io => "io error: the settings cannot be read or written"
  | .parse => "failed to parse config TOML: the text is not a settings file"

end SettingsError

namespace RunError

/-- The wordings of an error and of the errors behind it, the outermost first. -/
def chain : RunError → List String
  | .workspace path => ["failed to resolve workspace path " ++ path]
  | .settings path error =>
    ["failed to load or create workspace config at " ++ path, error.message]
  | .command error => error.chain

/-- The causes of an error with their numbers. -/
def numberedCauses (causes : List String) : List String :=
  causes.zipIdx.map fun (cause, index) => "    " ++ toString index ++ ": " ++ cause

/-- What is reported about an error. -/
def report (error : RunError) : String :=
  match error.chain with
  | [] => "Error: \n"
  | [message] => "Error: " ++ message ++ "\n"
  | [message, cause] => "Error: " ++ message ++ "\n\nCaused by:\n    " ++ cause ++ "\n"
  | message :: causes =>
    "Error: " ++ message ++ "\n\nCaused by:\n" ++ Text.joined "\n" (numberedCauses causes) ++ "\n"

end RunError

namespace Refusal

/-- Help and the version are given without complaint. -/
def exitCode : Refusal → Nat
  | .help | .version => 0
  | _ => 2

/-- How the program is used. -/
def usage : String :=
  "Usage: costgraphd [OPTIONS] <COMMAND>\n" ++
  "\n" ++
  "Commands:\n" ++
  "  interactions [--name NAME] [--orphans]\n" ++
  "  hierarchy NAME\n" ++
  "  metrics NAME\n" ++
  "  labels --label KEY=VALUE...\n" ++
  "  live-pods\n" ++
  "\n" ++
  "Options:\n" ++
  "  --workspace PATH\n" ++
  "  --endpoint URL\n" ++
  "  --print-query\n" ++
  "  --log-format human|json\n"

/-- What is written instead of a run. -/
def output : Refusal → String
  | .version => "costgraphd 0.1.0\n"
  | .help => usage
  | _ => ""

/-- What is wrong with an argument list. -/
def complaint : Refusal → String
  | .help | .version => ""
  | .helpOnMissingArgument => usage
  | .missingSubcommand => "error: a command is required\n"
  | .invalidSubcommand => "error: there is no such command\n"
  | .unknownArgument => "error: unexpected argument\n"
  | .argumentConflict => "error: an option is given twice\n"
  | .tooManyValues => "error: an option takes no value\n"
  | .invalidValue => "error: an option needs a value\n"
  | .missingRequired => "error: a required argument is missing\n"
  | .valueValidation cause => "error: invalid value: " ++ cause ++ "\n"

end Refusal

namespace CommandLine

/-- The arguments without the mark that may stand in front of all of them. -/
def withoutMark : List String → List String
  | "--" :: args => args
  | args => args

end CommandLine

/-- What comes of a run. -/
structure Outcome where
  result : Except RunError (List UInt8)
  /-- The workspace afterwards. -/
  workspace : Workspace
  journal : Journal

namespace Outcome

/-- The code with which a run ends. -/
def exitCode (outcome : Outcome) : Nat :=
  match outcome.result with
  | .ok _ => 0
  | .error _ => 1

end Outcome

namespace Invocation

/-- The endpoint of the store to ask: the one that is asked for, unless it is blank. -/
def storeEndpoint (invocation : Invocation) (settings : Settings) : String :=
  match invocation.endpoint with
  | none => settings.store.endpoint
  | some text =>
    let endpoint := Text.trim text
    if endpoint = "" then settings.store.endpoint else endpoint

/-- Carries out the command, or shows its request without asking a store. -/
def perform (invocation : Invocation) (terms : Terms) (store : Store) :
    Except CommandError (List UInt8) × Journal :=
  if invocation.printQuery then
    match invocation.command.request terms with
    | .ok query => (.ok (Text.encode (query.text ++ "\n")), Journal.empty)
    | .error error => (.error error, Journal.empty)
  else (invocation.command.run terms).run store Journal.empty

/-- Makes sure that there are settings and goes on with them. `root` is the path of the workspace.
-/
def run (invocation : Invocation) (root : String) (workspace : Workspace) (now : Instant)
    (connection : Connection) : Outcome :=
  match workspace.ensure with
  | (.error error, workspace) =>
    ⟨.error (.settings (Workspace.filePath root) error), workspace, Journal.empty⟩
  | (.ok settings, workspace) =>
    let store := Store.remote connection (invocation.storeEndpoint settings)
    let (result, journal) := invocation.perform ⟨settings.pricing, now⟩ store
    match result with
    | .ok output => ⟨.ok output, workspace, journal⟩
    | .error error => ⟨.error (.command error), workspace, journal⟩

end Invocation

end PodCosts
