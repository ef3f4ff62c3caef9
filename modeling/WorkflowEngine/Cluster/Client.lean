import WorkflowEngine.Cluster.Topology
import WorkflowEngine.Error
import WorkflowEngine.Json.Reader

/-! # The Topology Service

    The cluster answers requests for its topology over HTTP with a JSON
    document.
-/

namespace WorkflowEngine

/-- What becomes of an HTTP request. -/
inductive HttpReply where
  /-- Nothing listens at the address. -/
  | refused
  /-- No answer came in time. -/
  | timedOut
  | answered (status : Nat) (body : String)
  deriving DecidableEq, Repr

/-- Where the topology service is. -/
structure TopologyService where
  endpoint : String
  deriving DecidableEq, Repr

namespace TopologyService

/-- The path of the topology below the base address. -/
def path : String := "/v1/topology"

/-- The base address without slashes at its end. -/
def base (s : TopologyService) : String :=
  String.ofList (s.endpoint.toList.reverse.dropWhile (· == '/')).reverse

/-- The address of the topology. -/
def url (s : TopologyService) : String := s.base ++ path

/-! ## Requests -/

/-- Whether an address holds a character as it is. -/
def isPlain (c : Char) : Bool :=
  0x20 < c.toNat && c.toNat < 0x7F && c ∉ ['"', '<', '>', '\x60', '\x7b', '\x7d']

/-- The hexadecimal digit of a number below sixteen. -/
def hexDigit (n : Nat) : Char := if n < 10 then Char.ofNat (48 + n) else Char.ofNat (55 + n)

/-- A character as an address holds it: plain, or its bytes in hexadecimal. -/
def encodeChar (c : Char) : List Char :=
  if isPlain c then [c]
  else
    (String.singleton c).toUTF8.toList.flatMap fun b =>
      ['%', hexDigit (b.toNat / 16), hexDigit (b.toNat % 16)]

/-- What a request for the topology names, if the base address begins with the
    given host: the path and the query. There is none if the host runs on. -/
def target? (s : TopologyService) (host : String) : Option String :=
  let rest := (s.url.toList.drop host.length).takeWhile (· ≠ '#')
  let encoded := String.ofList (rest.flatMap encodeChar)
  match s.url.toList.drop host.length with
  | '/' :: _ => some encoded
  | '?' :: _ | '#' :: _ => some ("/" ++ encoded)
  | _ => none

/-- Whether an answer of the given status comes with a body. -/
def hasBody (status : Nat) : Bool := status ≠ 204 && status ≠ 304

/-- The topology that a reply brings. -/
def readReply : HttpReply → Except EngineError Topology
  | .refused => .error (.topology "connection refused")
  | .timedOut => .error (.timeout "no answer in time")
  | .answered status body =>
    if 400 ≤ status then .error (.topology ("status " ++ toString status))
    else
      let text := if hasBody status then body else ""
      match Document.parse? text >>= Topology.ofDocument? with
      | some topology => .ok topology
      | none => .error (.deserialization "not a topology")

end TopologyService

end WorkflowEngine
