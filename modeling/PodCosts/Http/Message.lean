import PodCosts.Http.Url
import PodCosts.Json.Token
import PodCosts.Remote

/-!
# Messages to and from servers

The bytes of a post, and the response that bytes of a server make up. `Http.response?` gives nothing
as long as bytes are missing, so it can be asked again whenever more of them have come in.
-/

namespace PodCosts.Http

/-- The bytes of a post. The server is asked to close the connection behind its answer. -/
def request (url : Url) (post : Post) : List UInt8 :=
  let body := Text.encode post.body
  Text.encode
    ("POST " ++ url.path ++ " HTTP/1.1\r\n" ++
      "Host: " ++ url.authority ++ "\r\n" ++
      "Content-Type: " ++ post.contentType ++ "\r\n" ++
      "Content-Length: " ++ toString body.length ++ "\r\n" ++
      "Connection: close\r\n\r\n") ++ body

/-- The bytes up to the first line break, and those behind it. -/
def line? : List UInt8 → Option (List UInt8 × List UInt8)
  | [] => none
  | 13 :: 10 :: rest => some ([], rest)
  | byte :: rest => (line? rest).map fun (line, rest) => (byte :: line, rest)

/-- The status that the first line of a response tells. -/
def status? (line : List UInt8) : Option Nat :=
  let version := Text.decodeLossy (line.take 7)
  let digits := Text.decodeLossy ((line.drop 9).take 3)
  if version = "HTTP/1.".toList ∧ digits.length = 3 then number? digits else none

/-- A field of the head of a response. Names do not depend on case. -/
def field (line : List UInt8) : String × String :=
  let cs := Text.decodeLossy line
  let name := cs.takeWhile (· != ':')
  (String.ofList (name.map Char.toLower),
    Text.trim (String.ofList (cs.drop (name.length + 1))))

/-- The fields up to the empty line, one unit of `fuel` for each line, and the bytes behind it. -/
def fields? : Nat → List UInt8 → Option (List (String × String) × List UInt8)
  | 0, _ => none
  | fuel + 1, bytes => do
    let (line, rest) ← line? bytes
    if line.isEmpty then some ([], rest)
    else
      let (fields, rest) ← fields? fuel rest
      some (field line :: fields, rest)

/-- How the end of a body is found. -/
inductive Framing where
  | length (count : Nat)
  | chunked
  /-- The body ends where the connection is closed. -/
  | untilClosed
deriving DecidableEq

/-- How the body behind a head ends. Chunks go before a length. -/
def framing (fields : List (String × String)) : Framing :=
  if Fields.get? "transfer-encoding" fields = some "chunked" then .chunked
  else
    match (Fields.get? "content-length" fields).bind fun text => number? text.toList with
    | some count => .length count
    | none => .untilClosed

/-- The size of a chunk. -/
def chunkSize? (line : List UInt8) : Option Nat :=
  let digits := (Text.decodeLossy line).takeWhile fun c => c != ';' && !Text.isBlank c
  if digits.isEmpty then none
  else (digits.mapM Token.hexValue?).map fun values => values.foldl (fun n d => 16 * n + d) 0

/-- The content of chunks, one unit of `fuel` for each of them. -/
def chunks? : Nat → List UInt8 → Option (List UInt8)
  | 0, _ => none
  | fuel + 1, bytes => do
    let (line, rest) ← line? bytes
    let size ← chunkSize? line
    if size = 0 then some []
    else if rest.length < size + 2 then none
    else
      let more ← chunks? fuel (rest.drop (size + 2))
      some (rest.take size ++ more)

/-- The body of a response. `closed` tells whether no more bytes will come. -/
def body? (framing : Framing) (closed : Bool) (bytes : List UInt8) : Option (List UInt8) :=
  match framing with
  | .length count => if bytes.length < count then none else some (bytes.take count)
  | .chunked => chunks? (bytes.length + 1) bytes
  | .untilClosed => if closed then some bytes else none

/-- The response that bytes make up. -/
def response? (closed : Bool) (bytes : List UInt8) : Option Response := do
  let (first, rest) ← line? bytes
  let status ← status? first
  let (fields, rest) ← fields? (rest.length + 1) rest
  let body ← body? (framing fields) closed rest
  some ⟨status, body⟩

example :
    response? false (Text.encode "HTTP/1.1 200 OK\r\nContent-Length: 2\r\n\r\n\x7b\x7d") =
      some ⟨200, Text.encode "\x7b\x7d"⟩ := by decide +kernel
example :
    response? false
        (Text.encode "HTTP/1.1 502 Bad\r\nTransfer-Encoding: chunked\r\n\r\n2\r\nno\r\n0\r\n\r\n") =
      some ⟨502, Text.encode "no"⟩ := by decide +kernel

end PodCosts.Http
