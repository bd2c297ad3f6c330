import PodCosts.Http.Message
import PodCosts.Log
import PodCosts.Run
import Std.Async.DNS
import Std.Async.TCP
import Std.Async.Timer
import Std.Time.DateTime.Timestamp

/-!
# The program

Files, the clock, the network and the standard streams. What is read from them is handed to
`Invocation.run`, and what comes of it is written back.
-/

open PodCosts

namespace PodCosts.Program

/-- The time of the clock. -/
def currentTime : IO Instant := do
  let sinceEpoch := (← Std.Time.Timestamp.now).val
  pure ((Instant.ofUnix? sinceEpoch.second.val sinceEpoch.nano.val.toNat).getD (.midnight 0))

/-- Looks at the place of the settings file. -/
def observe (root : String) : IO Workspace := do
  match ← (IO.FS.readBinFile (Workspace.filePath root)).toBaseIO with
  | .ok bytes => pure (.directory (.file bytes.toList))
  | .error (.noFileOrDirectory ..) => pure .absent
  | .error _ =>
    match ← (IO.FS.createDirAll (Workspace.directoryPath root)).toBaseIO with
    | .ok _ => pure (.directory .directory)
    | .error _ => pure .file

/-- Writes a settings file that was not there before. -/
def save (root : String) (before after : Workspace) : IO Unit := do
  match before, after with
  | .absent, .directory (.file bytes) =>
    IO.FS.createDirAll (Workspace.directoryPath root)
    IO.FS.writeBinFile (Workspace.filePath root) ⟨bytes.toArray⟩
  | _, _ => pure ()

/-! ## Network -/

/-- Receives bytes until they make up a response. -/
partial def receive (client : Std.Async.TCP.Socket.Client) (received : List UInt8) :
    Std.Async.Async Response := do
  match ← client.recv? 65536 with
  | some bytes =>
    let received := received ++ bytes.toList
    match Http.response? false received with
    | some response => pure response
    | none => receive client received
  | none =>
    match Http.response? true received with
    | some response => pure response
    | none => throw (.userError "the connection was closed within the answer")

/-- Sends a post to an address and receives the response. -/
def converse (url : Http.Url) (post : Post) : Std.Async.Async Response := do
  let addresses ← Std.Async.DNS.getAddrInfo url.host ""
  let some address := addresses[0]? | throw (.userError "the server has no address")
  let port := UInt16.ofNat url.port
  let client ← Std.Async.TCP.Socket.Client.mk
  let destination : Std.Net.SocketAddress :=
    match address with
    | .v4 addr => .v4 ⟨addr, port⟩
    | .v6 addr => .v6 ⟨addr, port⟩
  client.connect destination
  client.send ⟨(Http.request url post).toArray⟩
  receive client []

/-- Fails after a number of seconds. -/
def expire (seconds : Nat) : Std.Async.Async Response := do
  Std.Async.sleep (.ofNat (1000 * seconds))
  throw (.userError "the server took too long")

/-- The answer of a server. Zero seconds mean that there is no limit. -/
def exchange (timeoutSecs : Nat) (post : Post) : IO (Except String Response) := do
  let some url := Http.Url.ofText? post.url | pure (.error "the address is not understood")
  let answer :=
    if timeoutSecs = 0 then converse url post
    else Std.Async.Async.race (converse url post) (expire timeoutSecs)
  match ← (Std.Async.Async.block answer).toBaseIO with
  | .ok response => pure (.ok response)
  | .error failure => pure (.error (toString failure))

/-! ## Runs -/

/-- Runs with the responses that are known, gets the next one that turns out to be needed, and
begins again until none is missing. -/
partial def runWith (invocation : Invocation) (root : String) (workspace : Workspace)
    (now : Instant) (settings : Settings) (known : List (Except String Response)) :
    IO Outcome := do
  let outcome := invocation.run root workspace now (Connection.replaying known)
  match outcome.journal.sent.drop known.length with
  | [] => pure outcome
  | query :: _ =>
    let post := Store.post (invocation.storeEndpoint settings) query
    let response ← exchange settings.store.timeoutSecs post
    runWith invocation root workspace now settings (known ++ [response])

/-- Writes lines about what was noticed. -/
def report (invocation : Invocation) (now : Instant) (settings : Settings) (journal : Journal) :
    IO Unit := do
  let stderr ← IO.getStderr
  for warning in settings.warnings do
    stderr.putStrLn (Log.warningLine invocation.logFormat now warning)
  for event in journal.events do
    stderr.putStrLn (Log.eventLine invocation.logFormat now event)

/-- Writes the output of a run, or why it failed. -/
def conclude (outcome : Outcome) : IO UInt32 := do
  match outcome.result with
  | .ok bytes =>
    let stdout ← IO.getStdout
    stdout.write ⟨bytes.toArray⟩
    stdout.flush
  | .error failure => (← IO.getStderr).putStr failure.report
  pure (UInt32.ofNat outcome.exitCode)

/-- Runs in a workspace. -/
def runIn (invocation : Invocation) (root : String) : IO UInt32 := do
  let now ← currentTime
  let workspace ← observe root
  let (loaded, after) := workspace.ensure
  match ← (save root workspace after).toBaseIO with
  | .error _ =>
    conclude ⟨.error (.settings (Workspace.filePath root) .io), workspace, Journal.empty⟩
  | .ok _ =>
    let settings := loaded.toOption.getD Settings.standard
    let outcome ← runWith invocation root workspace now settings []
    report invocation now settings outcome.journal
    conclude outcome

/-- Writes what is written instead of a run. -/
def refuse (refusal : Refusal) : IO UInt32 := do
  (← IO.getStdout).putStr refusal.output
  (← IO.getStderr).putStr refusal.complaint
  pure (UInt32.ofNat refusal.exitCode)

end PodCosts.Program

/-- Runs the program. -/
def main (args : List String) : IO UInt32 := do
  match CommandLine.parse (CommandLine.withoutMark args) with
  | .error refusal => PodCosts.Program.refuse refusal
  | .ok invocation =>
    match ← (IO.FS.realPath invocation.workspace).toBaseIO with
    | .ok root => PodCosts.Program.runIn invocation root.toString
    | .error _ =>
      (← IO.getStderr).putStr (RunError.workspace invocation.workspace).report
      pure 1
