import IdfRemote.Application

/-!
# The stream scheduler

One owner drives a serial stream: it starts an application request or a write,
alternates `tick` and a bounded read, and passes received bytes to `feed`. Each
call sees its own readings of the clock, in the order in which it takes them, and
`tick` sees one write of the driver. A function that fails returns the state it
leaves behind.
-/
namespace IdfRemote
open Mux Application

inductive Lane
  | application
  | input
deriving DecidableEq, Repr

structure Completion where
  key : String
  lane : Lane
  result : Result Value

structure Pending where
  key : String
  deadline : ℕ
  kind : UInt8
  request : UInt32

structure Transfer where
  key : String
  lane : Lane
  deadline : ℕ
  frames : List (List UInt8)
  offset : ℕ := 0
  result : Value

/-- The readings of the clock during one call, in order. -/
abbrev Clock := ℕ → ℕ

inductive ErrorKind
  | timedOut
  | wouldBlock
  | interrupted
  | other
deriving DecidableEq, Repr

structure IoError where
  kind : ErrorKind
  message : String

def IoError.transient (e : IoError) : Bool :=
  e.kind = .timedOut || e.kind = .wouldBlock || e.kind = .interrupted

/-- What one `write` returns for each slice. No driver accepts more than it is given. -/
structure Driver where
  write : List UInt8 → Except IoError ℕ
  write_le : ∀ {bytes n}, write bytes = .ok n → n ≤ bytes.length

namespace Transfer

/-- The part of the front frame offered to the driver. -/
def slice (t : Transfer) : List UInt8 :=
  ((t.frames.headD []).drop t.offset).take 256

/-- A complete front frame is dropped. -/
def accept (t : Transfer) (n : ℕ) : Transfer :=
  if t.offset + n = (t.frames.headD []).length then
    { t with frames := t.frames.tail, offset := 0 }
  else { t with offset := t.offset + n }

/-- One write of the front frame; `none` is a write to be tried again later. -/
def send (t : Transfer) (io : Driver) : Result (Option Transfer) :=
  if t.frames.isEmpty then .ok (some t)
  else
    match io.write t.slice with
    | .ok 0 => .error (.msg "serial stream closed while writing; outcome unknown")
    | .ok n => .ok (some (t.accept n))
    | .error e =>
        if e.transient then .ok none
        else .error ((Error.msg e.message).context "write serial payload; outcome unknown")

/-- The bytes that the driver takes in `send`. -/
def taken (t : Transfer) (io : Driver) : List UInt8 :=
  if t.frames.isEmpty then []
  else
    match io.write t.slice with
    | .ok n => t.slice.take n
    | .error _ => []

end Transfer

structure Duplex where
  session : Option Session := none
  pending : Option Pending := none
  tx : List Transfer := []

namespace Duplex

def hasPending (d : Duplex) : Bool := d.pending.isSome || !d.tx.isEmpty

def connecting (d : Duplex) : Bool := d.pending.any fun p => p.kind = helloAck

/-- The frame of a request and the kind of its reply. Negotiation replaces the session. -/
def prepare (serde : Serde) (d : Duplex) (command : Option Command) (nonce : UInt64) :
    Duplex × Result (Frame × UInt8) :=
  match command with
  | some command =>
      match d.session with
      | none => (d, .error (.msg "application not connected; use app-connect first"))
      | some session =>
          match session.prepareRequest serde command with
          | .error e => (d, .error e)
          | .ok (session, frame) => ({ d with session := some session }, .ok (frame, response))
  | none =>
      if d.tx.isEmpty then
        let (session, hello) := Session.beginConnect nonce
        ({ d with session := some session }, .ok (hello, helloAck))
      else (d, .error (.msg "cannot negotiate during a write"))

def startApplication (serde : Serde) (d : Duplex) (key : String) (command : Option Command)
    (timeout : ℕ) (now : Clock) (nonce : UInt64) : Duplex × Result Unit :=
  if d.pending.isSome then (d, .error (.msg "application request already pending"))
  else
    match d.prepare serde command nonce with
    | (d, .error e) => (d, .error e)
    | (d, .ok (frame, kind)) =>
        match frame.encode with
        | .error e => (d, .error e)
        | .ok bytes =>
            let deadline := now 0 + timeout
            ({ d with
                pending := some
                  { key := key, deadline := deadline, kind := kind, request := frame.request }
                tx := d.tx ++ [
                  { key := key, lane := .application, deadline := deadline, frames := [bytes],
                    result := .null }] }, .ok ())

/-- Frames of console payloads in a session, raw pieces without one. -/
def inputFrames (d : Duplex) (data : List UInt8) : Result (List (List UInt8)) :=
  match d.session with
  | some session => session.prepareConsole data
  | none => .ok (chunks 256 data)

def startInput (d : Duplex) (key : String) (data : List UInt8) (timeout : ℕ) (result : Value)
    (now : Clock) : Duplex × Result Unit :=
  if d.tx.any fun t => t.lane = .input then (d, .error (.msg "serial write already pending"))
  else
    match d.inputFrames data with
    | .error e => (d, .error e)
    | .ok frames =>
        ({ d with
            tx := d.tx ++ [
              { key := key, lane := .input, deadline := now 0 + timeout, frames := frames,
                result := result }] }, .ok ())

def expire (d : Duplex) (now : ℕ) : Duplex × List Completion :=
  match d.pending with
  | none => (d, [])
  | some p =>
      if p.deadline ≤ now then
        ({ d with
            pending := none
            session := if p.kind = helloAck then none else d.session },
          [{ key := p.key
             lane := .application
             result := .error
               (.msg "application response timed out; outcome unknown (not retried)") }])
      else (d, [])

/-- A transfer whose deadline has passed at its reading of the clock. -/
def late (d : Duplex) (now : Clock) : Bool :=
  d.tx.zipIdx.any fun t => t.1.deadline ≤ now t.2

/-- After a write, the place of the front transfer: a finished one leaves, one between two
frames goes to the back, and one inside a frame stays in front. -/
def requeue {α : Type} (front : Transfer) (x : α) (xs : List α) : List α :=
  if front.frames.isEmpty then xs
  else if front.offset = 0 then xs ++ [x]
  else x :: xs

/-- A write is complete when its transfer leaves; an application transfer awaits its reply. -/
def retire (front : Transfer) : List Completion :=
  if front.frames.isEmpty ∧ front.lane = .input then
    [{ key := front.key, lane := front.lane, result := .ok front.result }]
  else []

def tick (d : Duplex) (now : Clock) (io : Driver) : Duplex × Result (List Completion) :=
  if d.late now then
    (d, .error (.msg "serial write timed out; outcome unknown (not retried)"))
  else
    match d.tx with
    | [] =>
        let r := d.expire (now 0)
        (r.1, .ok r.2)
    | front :: rest =>
        match front.send io with
        | .error e => (d, .error e)
        | .ok none =>
            let r := d.expire (now d.tx.length)
            (r.1, .ok r.2)
        | .ok (some front) =>
            let r := expire { d with tx := requeue front front rest } (now d.tx.length)
            (r.1, .ok (retire front ++ r.2))

/-- The front transfer before and after the write that a `tick` makes. -/
def sent (d : Duplex) (now : Clock) (io : Driver) : Option (Transfer × Transfer) :=
  if d.late now then none
  else
    match d.tx with
    | [] => none
    | front :: _ =>
        match front.send io with
        | .ok (some front') => some (front, front')
        | _ => none

/-- The request a reply may still answer. -/
def expected (d : Duplex) (now : ℕ) : Expected :=
  (d.pending.filter fun p => now < p.deadline).map fun p => (p.kind, p.request)

/-- The reply to a negotiation is checked, and a rejected one leaves no session. -/
def conclude (session : Session) (p : Pending) (result : Result Value) :
    Option Session × Result Value :=
  if p.kind = helloAck then
    match result with
    | .error e => (none, .error e)
    | .ok info =>
        match session.acceptHello info with
        | (session, .ok info) => (some session, .ok info)
        | (_, .error e) => (none, .error e)
  else (some session, result)

def feed (serde : Serde) (d : Duplex) (bytes : List UInt8) (now : Clock) :
    Duplex × List Output × Result (List Completion) :=
  match d.session with
  | none =>
      let r := d.expire (now 1)
      (r.1, [.console bytes], .ok r.2)
  | some session =>
      match session.process serde bytes (d.expected (now 0)) with
      | (session, outputs, .error e) => ({ d with session := some session }, outputs, .error e)
      | (session, outputs, .ok none) =>
          let r := expire { d with session := some session } (now 1)
          (r.1, outputs, .ok r.2)
      | (session, outputs, .ok (some reply)) =>
          match d.pending with
          -- Without a pending request nothing is expected and there is no reply.
          | none => ({ d with session := some session }, outputs, .ok [])
          | some p =>
              let (session, result) := conclude session p reply
              let r := expire { d with session := session, pending := none } (now 1)
              (r.1, outputs,
                .ok ({ key := p.key, lane := .application, result := result } :: r.2))

def abort (d : Duplex) (reason : String) : Duplex × List Completion :=
  ({},
    (d.pending.toList.map fun p =>
      { key := p.key, lane := .application, result := .error (.msg reason) }) ++
    ((d.tx.filter fun t => t.lane = .input).map fun t =>
      { key := t.key, lane := .input, result := .error (.msg reason) }))

end Duplex

/-- A call of the scheduler with its readings of the clock. -/
inductive Call
  | startApplication (key : String) (command : Option Command) (timeout : ℕ) (nonce : UInt64)
      (now : Clock)
  | startInput (key : String) (data : List UInt8) (timeout : ℕ) (result : Value) (now : Clock)
  | tick (io : Driver) (now : Clock)
  | feed (bytes : List UInt8) (now : Clock)
  | abort (reason : String)

/-- The key a call tries to start. -/
def Call.startKey : Call → Option String
  | .startApplication key .. => some key
  | .startInput key .. => some key
  | _ => none

namespace Duplex

/-- The state after a call, whether it failed or not. -/
def after (serde : Serde) (d : Duplex) : Call → Duplex
  | .startApplication key command timeout nonce now =>
      (d.startApplication serde key command timeout now nonce).1
  | .startInput key data timeout result now => (d.startInput key data timeout result now).1
  | .tick io now => (d.tick now io).1
  | .feed bytes now => (d.feed serde bytes now).1
  | .abort reason => (d.abort reason).1

/-- The key and lane of a successful start. -/
def started (serde : Serde) (d : Duplex) : Call → List (String × Lane)
  | .startApplication key command timeout nonce now =>
      match (d.startApplication serde key command timeout now nonce).2 with
      | .ok _ => [(key, .application)]
      | .error _ => []
  | .startInput key data timeout result now =>
      match (d.startInput key data timeout result now).2 with
      | .ok _ => [(key, .input)]
      | .error _ => []
  | _ => []

/-- The completions a call returns; a failed call returns none. -/
def completions (serde : Serde) (d : Duplex) : Call → List Completion
  | .tick io now =>
      match (d.tick now io).2 with
      | .ok done => done
      | .error _ => []
  | .feed bytes now =>
      match (d.feed serde bytes now).2.2 with
      | .ok done => done
      | .error _ => []
  | .abort reason => (d.abort reason).2
  | _ => []

/-- What the scheduler still has to complete: keys and the lanes of their completions. -/
def duties (d : Duplex) : List (String × Lane) :=
  (d.pending.toList.map fun p => (p.key, .application)) ++
    ((d.tx.filter fun t => t.lane = .input).map fun t => (t.key, .input))

def held (d : Duplex) : List String := d.duties.map Prod.fst

end Duplex
end IdfRemote
