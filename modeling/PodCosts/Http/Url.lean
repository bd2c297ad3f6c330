import PodCosts.Text.Blank

/-!
# Addresses of servers

Requests go to addresses of the form `http://host:port/path`. The port may be left out, and so may
the path.
-/

namespace PodCosts.Http

/-- The number that decimal digits stand for. -/
def number? (digits : List Char) : Option Nat :=
  if digits.isEmpty || !digits.all Char.isDigit then none
  else some (digits.foldl (fun n c => 10 * n + (c.toNat - '0'.toNat)) 0)

/-- The address of a resource on a server. -/
structure Url where
  host : String
  port : Nat
  path : String
deriving DecidableEq

namespace Url

/-- The port of servers that do not name one. -/
def standardPort : Nat := 80

/-- The text behind a given beginning. -/
def behind? : List Char → List Char → Option (List Char)
  | [], cs => some cs
  | _ :: _, [] => none
  | x :: xs, c :: cs => if x = c then behind? xs cs else none

/-- Whether a character ends the name of a server. -/
def endsAuthority (c : Char) : Bool :=
  c == '/' || c == '?' || c == '#'

/-- The number of a port. -/
def port? (digits : List Char) : Option Nat :=
  if digits.isEmpty then some standardPort
  else (number? digits).filter fun port => port < 65536

/-- A server and its port. -/
def authority? (cs : List Char) : Option (String × Nat) :=
  let host := cs.takeWhile (· != ':')
  if host.isEmpty || host.any fun c => Text.isBlank c || c == '@' then none
  else
    match cs.drop host.length with
    | [] => some (String.ofList host, standardPort)
    | _ :: digits => (port? digits).map fun port => (String.ofList host, port)

/-- What is asked for on a server; a fragment is not sent. -/
def pathOf (cs : List Char) : String :=
  let path := cs.takeWhile (· != '#')
  String.ofList (if path.head? = some '/' then path else '/' :: path)

/-- Reads an address. -/
def ofText? (text : String) : Option Url := do
  let cs ← behind? "http://".toList text.toList
  let authority := cs.takeWhile fun c => !endsAuthority c
  let (host, port) ← authority? authority
  some ⟨host, port, pathOf (cs.drop authority.length)⟩

/-- A server and its port as they are named in a request. -/
def authority (url : Url) : String :=
  if url.port = standardPort then url.host else url.host ++ ":" ++ toString url.port

example : ofText? "http://127.0.0.1:8080/query" = some ⟨"127.0.0.1", 8080, "/query"⟩ := by
  decide +kernel
example : ofText? "http://store" = some ⟨"store", 80, "/"⟩ ∧ ofText? "store/query" = none := by
  decide +kernel

end Url

end PodCosts.Http
