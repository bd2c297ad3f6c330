import PodCosts.Settings.File

/-!
# Workspaces

Settings belong to a directory, the workspace, in which they lie at `.costgraph/config.toml`. Of the
workspace only what is at that place counts. `Workspace.load` reads the settings, and
`Workspace.ensure` also creates the file if nothing is there; neither of them changes a file.
-/

namespace PodCosts

/-- What is at the place of the settings file. -/
inductive SettingsEntry where
  | absent
  | directory
  | file (bytes : List UInt8)
deriving DecidableEq

/-- What is at the place of the directory that holds the settings file. -/
inductive Workspace where
  | absent
  | file
  | directory (entry : SettingsEntry)
deriving DecidableEq

namespace Workspace

/-- A path one step down. -/
def below (path step : String) : String :=
  if path = "" || path.endsWith "/" then path ++ step else path ++ "/" ++ step

/-- The directory that holds the settings file of a workspace. -/
def directoryPath (root : String) : String :=
  below root ".costgraph"

/-- The settings file of a workspace. -/
def filePath (root : String) : String :=
  below (directoryPath root) "config.toml"

/-- The settings of a workspace, the usual ones if it has no settings file. -/
def load : Workspace → Except SettingsError Settings
  | .absent | .file | .directory .absent => .ok Settings.standard
  | .directory .directory => .error .io
  | .directory (.file bytes) => Settings.ofBytes bytes

/-- The settings of a workspace, and the workspace afterwards: if it had no settings file, it has
one now. -/
def ensure : Workspace → Except SettingsError Settings × Workspace
  | .file => (.error .io, .file)
  | .absent | .directory .absent =>
    (.ok Settings.standard, .directory (.file (Text.encode Settings.standardText)))
  | workspace => (workspace.load, workspace)

example : filePath "" = ".costgraph/config.toml" ∧ directoryPath "/srv/" = "/srv/.costgraph" := by
  decide +kernel

end Workspace

end PodCosts
