import IdfRemote.Service

/-!
# The worker of a device

A worker owns the stream of its device. One pass of its loop aborts what a lost
stream leaves behind, looks whether it should stop, and then takes a job from its
queue or serves the stream. What a pass reads from outside (the driver, the
backend, the clock) is its `Inputs`. The sections of the store's lock that a pass
enters are written down as a list of instructions and executed one at a time, so
that submissions and other workers come in between; everything else belongs to the
worker alone. Times are in milliseconds.
-/
namespace IdfRemote
open Application

def monitorReconnectInitialDelay : ℕ := 50

def monitorReconnectMaxDelay : ℕ := 100

def nativeUsbBootReopenDelay : ℕ := 200

structure MonitorReconnect where
  baud : ℕ
  nextAttempt : ℕ
  delay : ℕ
  attempts : ℕ

namespace MonitorReconnect

def now (baud time : ℕ) : MonitorReconnect where
  baud := baud
  nextAttempt := time
  delay := monitorReconnectInitialDelay
  attempts := 0

def retryLater (r : MonitorReconnect) (time : ℕ) : MonitorReconnect :=
  { r with
    attempts := r.attempts + 1
    nextAttempt := time + r.delay
    delay := min (r.delay * 2) monitorReconnectMaxDelay }

end MonitorReconnect

/-- A section of the lock that a pass enters. `describe` is one of the inventory's lock. -/
inductive Instr
  | finishStream (done : List Completion) (hasReader : Bool)
  | finishExclusive (id : String) (result : Result Value) (artifact : Option ArtifactRecord)
      (hasReader : Bool)
  | emit (kind : String) (data : Value)
  | describe (descriptor : DeviceDescriptor)
  | setAvailability (availability : DeviceAvailability)
  | beginMonitorReconnect (baud : ℕ) (text : String)
  | finishMonitorReconnect (baud attempts : ℕ)
  | output (output : Output)
  | raw (bytes : List UInt8) (reopens : Bool) (deadline : ℕ)

/-- Where the next pass stands. A worker that has left its loop drops its queue. -/
inductive Place
  | head
  | test
  | receive
  | leaving
  | exited
deriving DecidableEq, Repr

/-- A reader is the number of the stream among those the worker has opened. -/
structure Worker where
  place : Place := .head
  todo : List Instr := []
  reader : Option ℕ := none
  readerBaud : Option ℕ := none
  duplex : Duplex := {}
  reconnect : Option MonitorReconnect := none
  bootReopenAt : Option ℕ := none
  decoder : LineDecoder := {}
  opened : ℕ := 0

structure Inputs where
  refresh : Result DeviceDescriptor
  openDevice : Result Unit
  intoMonitor : Result Unit
  board : Result Value
  progress : List Value
  createArtifact : Result Unit
  inspectArtifact : Result ArtifactMetadata
  read : Except IoError (List UInt8)
  driver : Driver
  nonce : UInt64
  startClock : Clock
  tickClock : Clock
  feedClock : Clock
  now : ℕ
  later : ℕ
  hostTime : ℕ → ℕ

def DeviceAvailability.debug : DeviceAvailability → String
  | available => "Available"
  | permissionRequired => "PermissionRequired"
  | disconnected => "Disconnected"
  | identityMismatch => "IdentityMismatch"
  | ambiguous => "Ambiguous"

namespace Inputs

/-- The device is refreshed and has to be available. -/
def ensureAvailable (i : Inputs) : List Instr × Result Unit :=
  match i.refresh with
  | .error e => ([], .error (.msg ("device_refresh_failed: " ++ e.displayChain)))
  | .ok device =>
      ([.describe device, .setAvailability device.status.availability],
        ensure (device.status.availability = .available)
          ("device is unavailable: " ++ device.status.availability.debug))

theorem forall_mem_ensureAvailable {P : Instr → Prop} (hdescribe : ∀ d, P (.describe d))
    (havailability : ∀ a, P (.setAvailability a)) (i : Inputs) :
    ∀ instr ∈ i.ensureAvailable.1, P instr := by
  unfold ensureAvailable
  split
  · exact fun _ h => by cases h
  · exact List.forall_mem_cons.mpr
      ⟨hdescribe _, List.forall_mem_singleton.mpr (havailability _)⟩

/-- A monitor is opened without a reset. -/
def openMonitor (i : Inputs) : Result Unit := do
  i.openDevice
  i.intoMonitor

end Inputs

/-- Nothing is recorded for no completions. -/
def finishInstr (done : List Completion) (hasReader : Bool) : List Instr :=
  if done.isEmpty then [] else [.finishStream done hasReader]

theorem forall_mem_finishInstr {P : Instr → Prop} {done : List Completion} {hasReader : Bool}
    (h : P (.finishStream done hasReader)) : ∀ instr ∈ finishInstr done hasReader, P instr := by
  unfold finishInstr
  split_ifs
  · exact fun _ h => by cases h
  · exact List.forall_mem_singleton.mpr h

def Action.streamBaud (action : Action) (request : DeviceRequest) : ℕ :=
  match action with
  | .serialWrite _ _ baud _ => baud
  | _ => request.monitorBaud

namespace Worker

def openStream (w : Worker) (baud : ℕ) : Worker :=
  { w with
    reader := some w.opened, readerBaud := some baud, decoder := {}, opened := w.opened + 1 }

def closeStream (w : Worker) : Worker := { w with reader := none, readerBaud := none }

/-- The head of the loop: a stream that is gone takes its session and its requests along. -/
def abandon (w : Worker) : Worker :=
  if w.reader.isNone ∧ (w.duplex.session.isSome ∨ w.duplex.hasPending) then
    let r := w.duplex.abort "transport closed; outcome unknown (not retried)"
    { w with
      duplex := r.1
      todo := finishInstr r.2 false ++
        if w.duplex.session.isSome then
          [.emit "application_disconnected" (reason "transport closed")]
        else [] }
  else w

/-- The stream that a stream action needs: the open one, or one that is opened for it. -/
def attach (w : Worker) (job : Job) (i : Inputs) : Worker × List Instr × Result Unit :=
  let baud := job.action.streamBaud job.request
  if w.duplex.hasPending ∧ w.readerBaud ≠ some baud then
    (w, [], .error (.msg "active stream uses a different baud"))
  else if w.duplex.session.isSome ∧ ¬ job.action.isConnect ∧ w.readerBaud ≠ some baud then
    (w, [], .error (.msg "active application uses a different baud"))
  else if w.reader.isNone ∨ w.readerBaud ≠ some baud then
    if job.action.appLane then
      (w, [], .error (.msg "application not connected; use app-connect first"))
    else
      let (found, available) := i.ensureAvailable
      match available with
      | .error e => (w, found, .error e)
      | .ok () =>
          match i.openMonitor with
          | .error e => (w.closeStream, found, .error e)
          | .ok () => (w.openStream baud, found, .ok ())
  else (w, [], .ok ())

def startStream (serde : Serde) (w : Worker) (job : Job) (i : Inputs) : Worker × Result Unit :=
  match job.action with
  | .application command timeoutMs =>
      let r := w.duplex.startApplication serde job.id command timeoutMs i.startClock i.nonce
      ({ w with duplex := r.1 }, r.2)
  | .serialWrite data sha256 baud timeoutMs =>
      let r := w.duplex.startInput job.id data timeoutMs
        (.object [("written", natValue data.length), ("sha256", .string sha256),
          ("baud", natValue baud)]) i.startClock
      ({ w with duplex := r.1 }, r.2)
  -- Only stream actions get here.
  | _ => (w, .ok ())

/-- A stream action that does not start is completed at once. -/
def refuse (w : Worker) (job : Job) (found : List Instr) (e : Error) : Worker :=
  { w with
    todo := found ++ [.finishStream
      [{ key := job.id, lane := job.action.lane, result := .error e }] w.reader.isSome] }

def stream (serde : Serde) (w : Worker) (job : Job) (i : Inputs) : Worker :=
  match w.attach job i with
  | (w, found, .error e) => w.refuse job found e
  | (w, found, .ok ()) =>
      match w.startStream serde job i with
      | (w, .error e) => w.refuse job found e
      | (w, .ok ()) => { w with reconnect := none, bootReopenAt := none, todo := found }

/-- What the opened device does for an exclusive action. -/
def perform (host : Host) (job : Job) (i : Inputs) :
    List Instr × Result (Value × Option ArtifactRecord) :=
  match job.action with
  | .probe => ([], do return (← i.board, none))
  | .flash _ warnings =>
      (i.progress.map (.emit "progress") ++
          (i.board.toOption.toList.map fun info => .emit "flash_verified" info),
        do
          let info ← i.board
          if warnings.isEmpty then return (info, none)
          else
            match info with
            | .object fields => return (.object (fields ++ [("warnings", .array warnings)]), none)
            | _ => .error (.msg "flash result must be a JSON object"))
  | .readFlash _ size _ =>
      ([], do
        i.createArtifact
        let info ← i.board
        let metadata ← i.inspectArtifact
        ensure (metadata.size = size) "read artifact size mismatch"
        return (info, some {
          metadata := metadata, path := host.artifactDir ++ "/" ++ job.id ++ ".bin" }))
  | .eraseFlash _ =>
      (i.board.toOption.toList.map fun info => .emit "flash_erased" info,
        do
          let info ← i.board
          return (.object [("erased", .bool true), ("post_state", .string "download_mode"),
            ("board", info)], none))
  | .reset => ([], .ok (.object [("reset", .bool true)], none))
  | .monitor => ([], .ok (.object [("monitor", .bool true)], none))
  | .application .. | .serialWrite .. => ([], .ok (.null, none))

/-- An erased chip has nothing to monitor; everything else ends with an open monitor. -/
def Action.keepsMonitor : Action → Bool
  | .eraseFlash _ => false
  | _ => true

/-- The device is opened, the action carried out, and the monitor handed over. -/
def operate (host : Host) (w : Worker) (job : Job) (i : Inputs) :
    Worker × List Instr × Result (Value × Option ArtifactRecord) :=
  match i.openDevice with
  | .error e => (w, [], .error e)
  | .ok () =>
      match perform host job i with
      | (events, .error e) => (w, events, .error e)
      | (events, .ok outcome) =>
          if Action.keepsMonitor job.action then
            match i.intoMonitor with
            | .error e =>
                (w, events, .error (e.context "operation finished but monitor handoff failed"))
            | .ok () => (w.openStream job.request.monitorBaud, events, .ok outcome)
          else (w, events, .ok outcome)

/-- A monitor of a negotiated session is left as it is; otherwise the device is refreshed. -/
def ready (w : Worker) (attached : Bool) (job : Job) (i : Inputs) : List Instr × Result Unit :=
  if attached ∧ w.reader.isSome ∧ w.readerBaud = some job.request.monitorBaud then ([], .ok ())
  else i.ensureAvailable

def hardware (host : Host) (w : Worker) (job : Job) (i : Inputs) :
    Worker × List Instr × Result (Value × Option ArtifactRecord) :=
  let attached := job.action.isMonitor && w.duplex.session.isSome
  match w.ready attached job i with
  | (found, .error e) => (w, found, .error e)
  | (found, .ok ()) =>
      if attached then
        if w.readerBaud = some job.request.monitorBaud then
          (w, found, .ok (.object [("monitor", .bool true), ("application", .bool true)], none))
        else (w, found, .error (.msg "active application uses a different baud"))
      else
        let (w, events, result) := w.operate host job i
        (w, found ++ events, result)

def exclusive (host : Host) (w : Worker) (job : Job) (i : Inputs) : Worker :=
  let w := { w with reconnect := none, bootReopenAt := none }
  let preservesMonitor := job.action.isMonitor && w.duplex.session.isSome
  let disconnected :=
    if !preservesMonitor ∧ w.duplex.session.isSome then
      [Instr.emit "application_disconnected" (reason "hardware operation")]
    else []
  let w :=
    if preservesMonitor then w
    else { w.closeStream with duplex := { w.duplex with session := none }, decoder := {} }
  let (w, events, result) := w.hardware host job i
  { w with
    todo := disconnected ++ events ++
      [.finishExclusive job.id (result.map Prod.fst) (result.toOption.bind Prod.snd)
        w.reader.isSome] }

/-- The stream is gone, and the worker tries to find it again. -/
def lose (w : Worker) (text : String) (i : Inputs) (todo : List Instr) : Worker :=
  match w.readerBaud with
  | none => { w with reader := none, todo := todo }
  | some baud =>
      { w with
        reader := none
        readerBaud := none
        decoder := {}
        reconnect := some (.now baud i.later)
        todo := todo ++ [.beginMonitorReconnect baud text] }

/-- Received bytes go to the session, if there is one. -/
def deliver (host : Host) (w : Worker) (bytes : List UInt8) (reopens : Bool) (i : Inputs)
    (todo : List Instr) : Worker :=
  let w := { w with bootReopenAt := none }
  if w.duplex.session.isSome then
    match w.duplex.feed host.serde bytes i.feedClock with
    | (duplex, outputs, .ok done) =>
        let connected := match w.duplex.connecting, duplex.session with
          | true, some session =>
              if session.valid then [Instr.emit "application_connected" session.info] else []
          | _, _ => []
        { w with
          duplex := duplex
          todo := todo ++ outputs.map .output ++ connected ++ finishInstr done true }
    | (duplex, outputs, .error e) =>
        let r := duplex.abort e.displayChain
        { w with
          duplex := r.1
          todo := todo ++ outputs.map .output ++ finishInstr r.2 true ++
            [.emit "application_disconnected" (reason e.display)] }
  else
    { w with
      todo := todo ++ [.raw bytes reopens (i.later + nativeUsbBootReopenDelay)] }

def readStream (host : Host) (w : Worker) (reopens : Bool) (i : Inputs) (todo : List Instr) :
    Worker :=
  match i.read with
  | .ok [] => w.lose "serial stream closed" i todo
  | .ok bytes => w.deliver host bytes reopens i todo
  | .error e =>
      if e.transient then { w with todo := todo }
      else { w with bootReopenAt := none }.lose e.message i todo

def reopen (w : Worker) (i : Inputs) : Worker :=
  match w.reconnect with
  | none => w
  | some r =>
      if r.nextAttempt ≤ i.now then
        let (found, available) := i.ensureAvailable
        match available.bind fun _ => i.openMonitor with
        | .ok () =>
            { w.openStream r.baud with
              reconnect := none
              bootReopenAt := none
              todo := found ++ [.finishMonitorReconnect r.baud (r.attempts + 1)] }
        | .error _ => { w with reconnect := some (r.retryLater i.later), todo := found }
      else w

/-- What follows the writes of a pass without a job. -/
def attend (host : Host) (w : Worker) (reopens : Bool) (i : Inputs) (todo : List Instr) : Worker :=
  if w.bootReopenAt.any (· ≤ i.now) then
    { w with bootReopenAt := none }.lose "native USB boot handoff" i todo
  else if w.reader.isSome then w.readStream host reopens i todo
  else w.reopen i

/-- A pass without a job. A failed write gives the stream up. -/
def idle (host : Host) (w : Worker) (reopens : Bool) (i : Inputs) : Worker :=
  if w.reader.isSome then
    match w.duplex.tick i.tickClock i.driver with
    | (duplex, .ok done) =>
        { w with duplex := duplex }.attend host reopens i (finishInstr done true)
    | (duplex, .error e) =>
        let r := duplex.abort e.displayChain
        { w.closeStream with
          duplex := r.1
          decoder := {}
          todo := finishInstr r.2 false ++
            if duplex.session.isSome then
              [.emit "application_disconnected" (reason e.display)]
            else [] }
  else w.attend host reopens i []

def serve (host : Host) (w : Worker) (job : Job) (i : Inputs) : Worker :=
  if job.action.isStream then w.stream host.serde job i else w.exclusive host job i

/-- A section of the store's lock, with the line decoder that it feeds. -/
def exec (host : Host) (device : DeviceId) (i : Inputs) (s : Store) (w : Worker) :
    Instr → Store × Worker
  | .finishStream done hasReader => (s.finishStream host device done hasReader, w)
  | .finishExclusive id result artifact hasReader =>
      (s.finishExclusive host device id result artifact hasReader, w)
  | .emit kind data => (s.emit host.eventSize device kind data, w)
  | .describe _ => (s, w)
  | .setAvailability availability =>
      (s.modifyDevice device (·.setAvailability availability), w)
  | .beginMonitorReconnect baud text => (s.beginMonitorReconnect host device baud text, w)
  | .finishMonitorReconnect baud attempts =>
      (s.finishMonitorReconnect host device baud attempts, w)
  | .output output =>
      let r := s.applicationOutput host i.hostTime device w.decoder output
      (r.1, { w with decoder := r.2 })
  | .raw bytes reopens deadline =>
      if (s.devices device).discardMonitorRead then (s, w)
      else
        let (s, decoder, records) := s.publish host i.hostTime device w.decoder bytes
        let entry := records.getLast?.any fun r =>
          r.text.startsWith "entry 0x" && decoder.pendingText host.logText = ""
        (s, { w with
          decoder := decoder
          bootReopenAt := if reopens && entry then some deadline else w.bootReopenAt })

end Worker
end IdfRemote
