import IdfRemote.Value
import IdfRemote.Device
import IdfRemote.BoundedLog
import Mathlib.Logic.Function.Basic

/-!
# The daemon's store

Everything the daemon shares between its tasks sits behind one lock: for each
device its events and what occupies it, and for all devices the retained
operations with their request keys and artifacts. A definition here is what runs
while the lock is held. The hash maps are functions, and the artifacts are kept
without the files behind them, which `ReadArtifacts` adds. The serialized size of an
event is an argument.
-/
namespace IdfRemote
open BoundedLog

inductive StatusCode
  | badRequest
  | forbidden
  | conflict
  | gone
  | serviceUnavailable
deriving DecidableEq, Repr

structure ApiError where
  status : StatusCode
  message : String
deriving DecidableEq, Repr

abbrev ApiResult (α : Type) := Except ApiError α

def ApiError.bad (message : String) : ApiError := ⟨.badRequest, message⟩

structure Cursor where
  epoch : String
  after : ℕ
deriving DecidableEq, Repr

structure Event where
  seq : ℕ
  kind : String
  data : Value

structure EventBatch where
  cursor : Cursor
  events : List Event
  deviceStatus : DeviceStatus

structure ArtifactMetadata where
  size : ℕ
  sha256 : String
  contentType : String
deriving DecidableEq, Repr

structure ArtifactRecord where
  metadata : ArtifactMetadata
  path : String
deriving DecidableEq, Repr

inductive OperationStatus
  | running
  | succeeded
  | failed
deriving DecidableEq, Repr

structure Operation where
  id : String
  deviceId : DeviceId
  requestKey : String
  status : OperationStatus
  startCursor : Cursor
  result : Option Value := none
  error : Option String := none
  artifact : Option ArtifactMetadata := none

def Operation.isRunning (op : Operation) : Bool := op.status = .running

def natValue (n : ℕ) : Value := .number (.posInt (.ofNat n))

def OperationStatus.name : OperationStatus → String
  | running => "running"
  | succeeded => "succeeded"
  | failed => "failed"

def Cursor.toValue (cursor : Cursor) : Value :=
  .object [("epoch", .string cursor.epoch), ("after", natValue cursor.after)]

def ArtifactMetadata.toValue (metadata : ArtifactMetadata) : Value :=
  .object [("size", natValue metadata.size), ("sha256", .string metadata.sha256),
    ("content_type", .string metadata.contentType)]

/-- The document of an operation; an absent artifact is not written. -/
def Operation.toValue (op : Operation) : Value :=
  .object ([("id", .string op.id), ("device_id", .string op.deviceId),
    ("request_key", .string op.requestKey), ("status", .string op.status.name),
    ("start_cursor", op.startCursor.toValue), ("result", op.result.getD .null),
    ("error", (op.error.map .string).getD .null)] ++
    op.artifact.toList.map fun artifact => ("artifact", artifact.toValue))

structure DeviceState where
  seq : ℕ := 0
  events : List (Event × ℕ) := []
  eventBytes : ℕ := 0
  busy : Bool := false
  applicationPending : Bool := false
  inputPending : Bool := false
  discardMonitorRead : Bool := false
  status : DeviceStatus

structure IdempotencyRecord where
  fingerprint : String
  operationId : String
deriving DecidableEq, Repr

structure Store where
  epoch : String
  devices : DeviceId → DeviceState
  operations : List Operation := []
  idempotency : String → Option IdempotencyRecord := fun _ => none
  artifacts : String → Option ArtifactRecord := fun _ => none

def maxEvents : ℕ := 4096

def maxEventBytes : ℕ := 4 * 1024 * 1024

/-- The loop that makes room removes events at the front. An empty list has no
bytes, so it never waits for a front that is not there. -/
def DeviceState.emit (size : Event → ℕ) (state : DeviceState) (kind : String) (data : Value) :
    DeviceState :=
  let event : Event := { seq := state.seq + 1, kind := kind, data := data }
  let kept := trim maxEvents maxEventBytes (state.events ++ [(event, size event)])
    (state.eventBytes + size event)
  { state with seq := state.seq + 1, events := kept.1, eventBytes := kept.2 }

@[simp] theorem DeviceState.emit_seq (size : Event → ℕ) (state : DeviceState) (kind : String)
    (data : Value) : (state.emit size kind data).seq = state.seq + 1 := rfl

namespace Store

def new (epoch : String) (status : DeviceId → DeviceStatus) : Store where
  epoch := epoch
  devices id := { status := status id }

def modifyDevice (s : Store) (device : DeviceId) (f : DeviceState → DeviceState) : Store :=
  { s with devices := Function.update s.devices device (f (s.devices device)) }

section
variable (s : Store) (device : DeviceId) (f : DeviceState → DeviceState)

@[simp] theorem modifyDevice_self : (s.modifyDevice device f).devices device =
    f (s.devices device) := Function.update_self ..

@[simp] theorem modifyDevice_of_ne {d : DeviceId} (h : d ≠ device) :
    (s.modifyDevice device f).devices d = s.devices d := Function.update_of_ne h ..

end

def cursor (s : Store) (device : DeviceId) : Cursor where
  epoch := s.epoch
  after := (s.devices device).seq

def emit (size : Event → ℕ) (s : Store) (device : DeviceId) (kind : String) (data : Value) :
    Store :=
  s.modifyDevice device fun state => state.emit size kind data

def eventsAfter (s : Store) (device : DeviceId) (cursor : Cursor) : ApiResult EventBatch :=
  if cursor.epoch ≠ s.epoch then
    .error ⟨.conflict, "daemon_restarted: cursor epoch differs"⟩
  else
    let state := s.devices device
    if state.seq < cursor.after then
      .error ⟨.badRequest, "cursor is ahead of the event stream"⟩
    else if state.events.head?.any fun e => cursor.after < e.1.seq - 1 then
      .error ⟨.gone, "log_gap: requested events have been evicted"⟩
    else
      .ok {
        cursor := s.cursor device
        events := (state.events.filter fun e => cursor.after < e.1.seq).map Prod.fst
        deviceStatus := state.status }

/-- The oldest operation that is not running leaves with its request key and its artifact. -/
def expire (s : Store) : Store :=
  match s.operations.find? fun op => !op.isRunning with
  | none => s
  | some expired =>
      { s with
        operations := s.operations.eraseP fun op => !op.isRunning
        idempotency := Function.update s.idempotency expired.requestKey none
        artifacts := Function.update s.artifacts expired.id none }

/-- The loop of `push_operation`, with the number of operations as fuel. -/
def makeRoom : ℕ → Store → Store
  | 0, s => s
  | fuel + 1, s =>
      if 64 ≤ s.operations.countP (fun op => !op.isRunning) then makeRoom fuel s.expire else s

/-- Running operations stay, however many others finish meanwhile. -/
def pushOperation (s : Store) (op : Operation) : Store :=
  let room := makeRoom s.operations.length s
  { room with operations := room.operations ++ [op] }

end Store
end IdfRemote
