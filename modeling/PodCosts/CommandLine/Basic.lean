import PodCosts.Request.Labels
import PodCosts.Text.Blank

/-!
# The command line

What a run of the program is asked to do, and why an argument list is refused.
-/

namespace PodCosts

/-- How reports are written. -/
inductive LogFormat where
  | human
  | json
deriving DecidableEq

namespace LogFormat

/-- The name of a format. -/
def text : LogFormat → String
  | .human => "human"
  | .json => "json"

/-- Reads the name of a format. Blanks around it do not matter. -/
def ofText (text : String) : Except String LogFormat :=
  let name := Text.trim text
  if name = "human" then .ok .human
  else if name = "json" then .ok .json
  else .error ("invalid log format '" ++ name ++ "', expected one of: human, json")

end LogFormat

/-- What is asked for. -/
inductive Command where
  | interactions (name : String) (orphans : Bool)
  | hierarchy (name : String)
  | metrics (name : String)
  | labels (pairs : List (String × String))
  | livePods
deriving DecidableEq

/-- What a run of the program is asked to do. -/
structure Invocation where
  workspace : String
  endpoint : Option String
  printQuery : Bool
  logFormat : LogFormat
  command : Command
deriving DecidableEq

/-- Why an argument list is refused, or what it asks for instead of a run. -/
inductive Refusal where
  | helpOnMissingArgument
  | help
  | version
  | missingSubcommand
  | invalidSubcommand
  | unknownArgument
  | argumentConflict
  | tooManyValues
  | invalidValue
  | missingRequired
  /-- A value that its option does not accept. -/
  | valueValidation (cause : String)
deriving DecidableEq

namespace CommandLine

/-- The two parts of a text around the first `=`, if there is one. -/
def splitAtEquals : List Char → Option (List Char × List Char)
  | [] => none
  | c :: cs =>
    if c = '=' then some ([], cs)
    else (splitAtEquals cs).map fun parts => (c :: parts.1, parts.2)

/-- Reads a label. Key and value are trimmed, and only the value may be empty. -/
def labelOfText (text : String) : Except String (String × String) :=
  match splitAtEquals text.toList with
  | none => .error ("invalid label '" ++ text ++ "', expected key=value")
  | some (key, value) =>
    let key := Text.trimChars key
    if key.isEmpty then .error ("invalid label '" ++ text ++ "', key must not be empty")
    else .ok (String.ofList key, String.ofList (Text.trimChars value))

end CommandLine

end PodCosts
