import IdfRemote.Logs
import IdfRemote.Duplex

/-!
# What runs under the store's lock

A request becomes an operation and a job for the worker of its device, and the
worker records what becomes of it. Each function here is one section of the lock,
so that nothing else happens between its parts. The answers of libraries outside
the repository are the fields of `Host`.
-/
namespace IdfRemote
open Application

structure Host where
  serde : Serde
  logText : LogText
  eventSize : Event → ℕ
  base64 : List UInt8 → String
  artifactDir : String

structure DeviceRequest where
  deviceId : DeviceId
  monitorBaud : ℕ
  noResetBefore : Bool

structure RequestIdentity where
  key : String
  fingerprint : String

inductive Action
  | probe
  | reset
  | monitor
  | application (command : Option Command) (timeoutMs : ℕ)
  | flash (baud : ℕ) (warnings : List Value)
  | readFlash (offset size baud : ℕ)
  | eraseFlash (baud : ℕ)
  | serialWrite (data : List UInt8) (sha256 : String) (baud timeoutMs : ℕ)

structure Job where
  id : String
  request : DeviceRequest
  action : Action

namespace Action

def capability : Action → DeviceCapability
  | probe => .probe
  | reset => .reset
  | monitor => .monitor
  | flash .. => .flash
  | readFlash .. => .readFlash
  | eraseFlash .. => .eraseFlash
  | serialWrite .. | application .. => .serialWrite

/-- The actions that share the stream of a monitor. -/
def isStream : Action → Bool
  | serialWrite .. | application .. => true
  | _ => false

def isMonitor : Action → Bool
  | monitor => true
  | _ => false

def isConnect : Action → Bool
  | application none _ => true
  | _ => false

def appLane : Action → Bool
  | application (some _) _ => true
  | _ => false

def inputLane : Action → Bool
  | serialWrite .. => true
  | _ => false

/-- The lane on which a stream action completes. -/
def lane : Action → Lane
  | serialWrite .. => .input
  | _ => .application

end Action

def reason (text : String) : Value := .object [("reason", .string text)]

def Operation.finish (op : Operation) : Result Value → Operation
  | .ok value => { op with status := .succeeded, result := some value }
  | .error e => { op with status := .failed, error := some e.displayChain }

/-- The first element with a property is changed. -/
def updateFirst {α : Type} (p : α → Bool) (f : α → α) : List α → List α
  | [] => []
  | x :: xs => if p x then f x :: xs else x :: updateFirst p f xs

namespace DeviceState

def setActivity (state : DeviceState) (activity : DeviceActivity) : DeviceState :=
  { state with status := { state.status with activity := activity } }

def setAvailability (state : DeviceState) (availability : DeviceAvailability) : DeviceState :=
  { state with status := { state.status with availability := availability } }

/-- A stream action leaves its lane, and what is left decides what the device shows. -/
def completeStream (state : DeviceState) (lane : Lane) (hasReader : Bool) : DeviceState :=
  let state := match lane with
    | .application => { state with applicationPending := false }
    | .input => { state with inputPending := false }
  let busy := state.applicationPending || state.inputPending
  let activity := if busy then .busy
    else if hasReader then .monitoring
    else if state.status.activity = .reconnecting then .reconnecting
    else .error
  { state with busy := busy, discardMonitorRead := false }.setActivity activity

def completeExclusive (state : DeviceState) (succeeded hasReader : Bool) : DeviceState :=
  let activity := if hasReader then .monitoring else if succeeded then .idle else .error
  { state with busy := false, discardMonitorRead := false }.setActivity activity

/-- Whether another action may join what occupies the device. -/
def compatible (state : DeviceState) (action : Action) : Bool :=
  (action.appLane && state.inputPending && !state.applicationPending) ||
    (action.inputLane && state.applicationPending && !state.inputPending)

def occupy (state : DeviceState) (action : Action) : DeviceState :=
  { state with
    busy := true
    applicationPending := state.applicationPending || action.appLane
    inputPending := state.inputPending || action.inputLane
    discardMonitorRead := !action.isStream }

/-- What `occupy` did is undone when the worker does not take the job. -/
def release (state : DeviceState) (action : Action) : DeviceState :=
  let applicationPending := state.applicationPending && !action.appLane
  let inputPending := state.inputPending && !action.inputLane
  let busy := applicationPending || inputPending
  let activity := if busy then .busy else .error
  { state with
    busy := busy, applicationPending := applicationPending, inputPending := inputPending,
    discardMonitorRead := false }.setActivity activity

end DeviceState

namespace Store

/-- The look-up of a request key, made twice by `submit`. A record is never kept longer
than its operation, so the operation it names is there. -/
def replay (s : Store) (identity : RequestIdentity) : ApiResult (Option Operation) :=
  match s.idempotency identity.key with
  | none => .ok none
  | some record =>
      if record.fingerprint ≠ identity.fingerprint then
        .error ⟨.conflict,
          "idempotency_key_conflict: key was already used for a different request"⟩
      else .ok (s.operations.find? fun op => op.id = record.operationId)

def operationId (s : Store) (device : DeviceId) (after : ℕ) : String :=
  s.epoch ++ "-" ++ device ++ "-" ++ toString after

/-- The operation that `accept` starts. -/
def started (s : Store) (device : DeviceId) (identity : RequestIdentity) : Operation where
  id := s.operationId device (s.cursor device).after
  deviceId := device
  requestKey := identity.key
  status := .running
  startCursor := s.cursor device

/-- The device is taken for an action, which the clients see. -/
def occupy (host : Host) (s : Store) (device : DeviceId) (action : Action) : Store :=
  (s.modifyDevice device (·.occupy action)).emit host.eventSize device "operation_started"
    (.object [])

/-- Admission of a new request, up to the hand-over of its job. -/
def accept (host : Host) (s : Store) (device : DeviceId) (action : Action)
    (identity : RequestIdentity) : ApiResult (Store × Operation) :=
  let state := s.devices device
  if state.busy && !state.compatible action then .error ⟨.conflict, "device_busy"⟩
  else
    let s := s.occupy host device action
    let op := s.started device identity
    let s := s.pushOperation op
    let s := { s with
      idempotency := Function.update s.idempotency identity.key
        (some { fingerprint := identity.fingerprint, operationId := op.id }) }
    .ok (s.modifyDevice device (·.setActivity .busy), op)

/-- The worker did not take the job. -/
def withdraw (s : Store) (device : DeviceId) (action : Action) (identity : RequestIdentity) :
    Store :=
  let s := s.modifyDevice device (·.release action)
  { s with
    operations := s.operations.dropLast
    idempotency := Function.update s.idempotency identity.key none }

/-- The status of a device whose stream can take another stream action. -/
def activeMonitorStatus (s : Store) (device : DeviceId) : Option DeviceStatus :=
  let state := s.devices device
  if state.status.availability = .available ∧
      (state.status.activity = .monitoring ∨ state.applicationPending ∨ state.inputPending) then
    some state.status
  else none

/-- An operation leaves the running ones, its device follows, and both are published.
Running operations are retained, so the operation is there. -/
def conclude (host : Host) (s : Store) (device : DeviceId) (id : String)
    (finish : Operation → Operation) (complete : DeviceState → DeviceState) : Store :=
  match s.operations.find? fun op => op.id = id with
  | none => s
  | some op =>
      let s := { s with operations := updateFirst (fun op => op.id = id) finish s.operations }
      let s := s.modifyDevice device complete
      s.emit host.eventSize device "operation_finished" (finish op).toValue

/-- One turn of the loop in `finish_stream`. -/
def finishCompletion (host : Host) (device : DeviceId) (hasReader : Bool) (s : Store)
    (c : Completion) : Store :=
  s.conclude host device c.key (·.finish c.result) (·.completeStream c.lane hasReader)

def finishStream (host : Host) (s : Store) (device : DeviceId) (done : List Completion)
    (hasReader : Bool) : Store :=
  done.foldl (finishCompletion host device hasReader) s

/-- How the operation of an exclusive action changes; only a success has an artifact. -/
def finished (result : Result Value) (artifact : Option ArtifactRecord) (op : Operation) :
    Operation :=
  match result with
  | .ok _ => { op.finish result with artifact := artifact.map (·.metadata) }
  | .error _ => op.finish result

def keepArtifact (s : Store) (id : String) (result : Result Value)
    (artifact : Option ArtifactRecord) : Store :=
  match result, artifact with
  | .ok _, some artifact =>
      { s with artifacts := Function.update s.artifacts id (some artifact) }
  | _, _ => s

@[simp] theorem devices_keepArtifact (s : Store) (id : String) (result : Result Value)
    (artifact : Option ArtifactRecord) :
    (s.keepArtifact id result artifact).devices = s.devices := by
  unfold keepArtifact
  split <;> rfl

@[simp] theorem operations_keepArtifact (s : Store) (id : String) (result : Result Value)
    (artifact : Option ArtifactRecord) :
    (s.keepArtifact id result artifact).operations = s.operations := by
  unfold keepArtifact
  split <;> rfl

def finishExclusive (host : Host) (s : Store) (device : DeviceId) (id : String)
    (result : Result Value) (artifact : Option ArtifactRecord) (hasReader : Bool) : Store :=
  (s.keepArtifact id result artifact).conclude host device id (finished result artifact)
    (·.completeExclusive result.isOk hasReader)

def beginMonitorReconnect (host : Host) (s : Store) (device : DeviceId) (baud : ℕ)
    (text : String) : Store :=
  let s := s.modifyDevice device fun state =>
    (state.setAvailability .disconnected).setActivity .reconnecting
  s.emit host.eventSize device "reconnecting"
    (.object [("reason", .string text), ("monitor_baud", natValue baud)])

def finishMonitorReconnect (host : Host) (s : Store) (device : DeviceId)
    (baud attempts : ℕ) : Store :=
  let s := s.modifyDevice device fun state =>
    (state.setAvailability .available).setActivity .monitoring
  s.emit host.eventSize device "reconnected"
    (.object [("attempts", natValue attempts), ("monitor_baud", natValue baud)])

/-- Received bytes are published as they are and as lines. -/
def publish (host : Host) (hostTime : ℕ → ℕ) (s : Store) (device : DeviceId)
    (decoder : LineDecoder) (bytes : List UInt8) : Store × LineDecoder × List LogRecord :=
  let s := s.emit host.eventSize device "raw" (.object [("base64", .string (host.base64 bytes))])
  let (decoder, records) := decoder.feed host.logText hostTime bytes
  (records.foldl (fun s r => s.emit host.eventSize device "log" r.toValue) s, decoder, records)

/-- What a stream in a session delivers, unless the monitor is being replaced. -/
def applicationOutput (host : Host) (hostTime : ℕ → ℕ) (s : Store) (device : DeviceId)
    (decoder : LineDecoder) (output : Output) : Store × LineDecoder :=
  if (s.devices device).discardMonitorRead then (s, decoder)
  else
    match output with
    | .console bytes =>
        let r := s.publish host hostTime device decoder bytes
        (r.1, r.2.1)
    | .event value => (s.emit host.eventSize device "application_event" value, decoder)
    | .corruptFrame =>
        (s.emit host.eventSize device "application_protocol_error"
          (reason "invalid or oversized mux frame"), decoder)

end Store
end IdfRemote
