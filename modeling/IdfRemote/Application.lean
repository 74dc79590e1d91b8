import IdfRemote.Mux
import IdfRemote.Value

/-!
# Application protocol sessions

A session is a nonce, a request counter and a decoder for the received bytes. A
function that changes the session and may fail returns the session it leaves in
either case. The nonce of a new session comes from a process-wide counter and is
an argument here, and emitted outputs are returned in order.
-/
namespace IdfRemote.Application
open Mux

def nul : Char := Char.ofNat 0

mutual

/-- The firmware rejects values that it cannot faithfully read back. -/
def validateJson : Value → ℕ → Result Unit
  | value, depth => do
      ensure (depth ≤ 16) "application JSON nesting exceeds 16 levels"
      match value with
      | .string text =>
          ensure (nul ∉ text.toList)
            "application JSON strings cannot contain NUL; use base64 for binary data"
      | .number n =>
          ensure n.interoperable
            ("application JSON numbers must be within the interoperable 53-bit range; " ++
              "use a string for larger values")
      | .array values => validateValues values (depth + 1)
      | .object fields => validateFields fields (depth + 1)
      | _ => return ()

def validateValues : List Value → ℕ → Result Unit
  | [], _ => return ()
  | value :: values, depth => do
      validateJson value depth
      validateValues values depth

def validateFields : List (String × Value) → ℕ → Result Unit
  | [], _ => return ()
  | (key, value) :: fields, depth => do
      ensure (nul ∉ key.toList) "application JSON keys cannot contain NUL"
      validateJson value depth
      validateFields fields depth

end

def payload (serde : Serde) (command : Command) : Result (List UInt8) := do
  ensure (command.method ≠ "" ∧ command.method.utf8ByteSize ≤ 64) "method must be 1..64 bytes"
  ensure (nul ∉ command.method.toList) "method cannot contain NUL"
  validateJson command.params 0
  let bytes ← serde.toVec command
  ensure (bytes.length ≤ maxPayload) "application request exceeds 1024 bytes"
  return bytes

inductive Output
  | console (data : List UInt8)
  | event (value : Value)
  | corruptFrame

structure Session where
  nonce : UInt64
  nextRequest : UInt32 := 1
  decoder : Decoder := {}
  info : Value := .null
  valid : Bool := false

/-- The pieces of at most `n` elements that make up a list. -/
def chunks {α : Type} (n : ℕ) (xs : List α) : List (List α) :=
  (List.range ((xs.length + n - 1) / n)).map fun i => (xs.drop (n * i)).take n

/-- What `process` waits for: the kind and the request number of a reply. -/
abbrev Expected := Option (UInt8 × UInt32)

namespace Session

def beginConnect (nonce : UInt64) : Session × Frame :=
  ({ nonce := nonce }, { kind := hello, session := nonce, request := 0, payload := [] })

def acceptHello (s : Session) (info : Value) : Session × Result Value :=
  if (info.get "protocol").bind Value.asU64 = some 1 then
    ({ s with info := info, valid := true }, .ok info)
  else (s, .error (.msg "unsupported application protocol"))

def prepareRequest (serde : Serde) (s : Session) (command : Command) :
    Result (Session × Frame) := do
  ensure s.valid "application session lost; connect again"
  let payload ← payload serde command
  ensure (s.nextRequest ≠ 0xffffffff) "request ID exhausted; connect again"
  return ({ s with nextRequest := s.nextRequest + 1 },
    { kind := Mux.request, session := s.nonce, request := s.nextRequest, payload := payload })

def prepareConsole (s : Session) (bytes : List UInt8) : Result (List (List UInt8)) := do
  ensure s.valid "application session lost; connect again"
  (chunks 256 bytes).mapM fun chunk =>
    Frame.encode { kind := console, session := s.nonce, request := 0, payload := chunk }

def expects (expected : Expected) (frame : Frame) : Bool :=
  expected.any fun e => frame.request = e.2 && (frame.kind = e.1 || frame.kind = Mux.error)

/-- The loop of `process` over what the decoder returned, with its variables `reply` and
`reset`. Outputs emitted before a reply that is not JSON stay emitted. -/
def items (serde : Serde) (s : Session) (expected : Expected) :
    List Decoded → Option (Result Value) → Bool →
      List Output × Result (Option (Result Value) × Bool)
  | [], reply, reset => ([], .ok (reply, reset))
  | .raw data :: ds, reply, reset =>
      let r := items serde s expected ds reply (reset || s.valid)
      (.console data :: r.1, r.2)
  | .corrupt :: ds, reply, reset =>
      let r := items serde s expected ds reply reset
      (.corruptFrame :: r.1, r.2)
  | .frame frame :: ds, reply, reset =>
      if frame.session ≠ s.nonce then items serde s expected ds reply reset
      else if expects expected frame then
        match serde.fromSlice frame.payload with
        | .error e => ([], .error (e.context "invalid application response JSON"))
        | .ok value =>
            items serde s expected ds
              (some (if frame.kind = Mux.error then
                .error (.msg ("application error: " ++ serde.display value))
              else .ok value)) reset
      else if frame.kind = console then
        let r := items serde s expected ds reply reset
        (.console frame.payload :: r.1, r.2)
      else if frame.kind = Mux.event then
        let output := match serde.fromSlice frame.payload with
          | .ok value => .event value
          | .error _ => .corruptFrame
        let r := items serde s expected ds reply reset
        (output :: r.1, r.2)
      else items serde s expected ds reply reset

def process (serde : Serde) (s : Session) (bytes : List UInt8) (expected : Expected) :
    Session × List Output × Result (Option (Result Value)) :=
  let decoded := s.decoder.feed bytes
  let next := { s with decoder := decoded.1 }
  match items serde s expected decoded.2 none false with
  | (outputs, .error e) => (next, outputs, .error e)
  | (outputs, .ok (reply, reset)) =>
      if reset then
        ({ next with valid := false }, outputs,
          .error (.msg "application session ended by unframed output; connect again"))
      else (next, outputs, .ok reply)

end Session
end IdfRemote.Application
