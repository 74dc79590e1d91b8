import IdfRemote.Worker

/-!
# The daemon

Submissions, workers and discovery take turns. A submission stands between two
sections of a lock, or waits for the backend to refresh its device. Beside the
state of the program we keep the jobs that were ever handed to a worker.
-/
namespace IdfRemote

/-- The channel of a worker holds two jobs. -/
def queueCapacity : ℕ := 2

def maxManagedDevices : ℕ := 64

/-- Where a submission stands, with what it has learnt of its device. -/
inductive Phase
  | start
  | lookup
  | replay (runtime : DeviceDescriptor)
  | monitor (runtime : DeviceDescriptor)
  | refresh
  | describe (device : DeviceDescriptor)
  | publish (device : DeviceDescriptor)
  | check (device : DeviceDescriptor)
  | done (result : ApiResult Operation)

structure Submission where
  request : DeviceRequest
  action : Action
  identity : RequestIdentity
  phase : Phase := .start

/-- What a refresh in its own task comes to. -/
inductive Refresh
  | answer (result : Result DeviceDescriptor)
  | lost (message : String)

/-- A job that a worker's channel took. -/
structure Enqueued where
  job : Job
  identity : RequestIdentity

structure System where
  running : Bool := true
  runtimes : List (DeviceId × DeviceDescriptor)
  store : Store
  queues : DeviceId → List Job := fun _ => []
  workers : DeviceId → Worker := fun _ => {}
  submissions : List Submission := []
  enqueued : List Enqueued := []

/-- A fresh daemon with the devices it was given. -/
def System.init (epoch : String) (runtimes : List (DeviceId × DeviceDescriptor)) : System where
  runtimes := runtimes
  store := .new epoch fun id => ((runtimes.lookup id).map (·.status)).getD .availableIdle

def DeviceCapability.debug : DeviceCapability → String
  | probe => "Probe"
  | flash => "Flash"
  | readFlash => "ReadFlash"
  | eraseFlash => "EraseFlash"
  | serialWrite => "SerialWrite"
  | reset => "Reset"
  | monitor => "Monitor"

namespace Submission

def finish (sub : Submission) (result : ApiResult Operation) : Submission :=
  { sub with phase := .done result }

/-- The checks of a submission that need no lock. -/
def precheck (sub : Submission) (device : DeviceDescriptor) : ApiResult Unit :=
  if !device.supports sub.action.capability then
    .error (.bad ("unsupported_operation: device does not support " ++
      sub.action.capability.debug))
  else
    match device.status.availability with
    | .permissionRequired => .error ⟨.conflict, "device_permission_required"⟩
    | .disconnected => .error ⟨.conflict, "device_disconnected"⟩
    | .identityMismatch => .error ⟨.conflict, "device_identity_mismatch"⟩
    | .ambiguous => .error ⟨.conflict, "device_ambiguous"⟩
    | .available =>
        if sub.request.monitorBaud = 0 then .error (.bad "monitor baud must be positive")
        else .ok ()

end Submission

namespace System

def describe (s : System) (device : DeviceId) (descriptor : DeviceDescriptor) : System :=
  { s with
    runtimes := s.runtimes.map fun r => if r.1 = device then (r.1, descriptor) else r }

def setAvailability (s : System) (device : DeviceId) (availability : DeviceAvailability) :
    System :=
  { s with store := s.store.modifyDevice device (·.setAvailability availability) }

/-- A new device gets a worker, unless there are too many. -/
def discover (s : System) (descriptor : DeviceDescriptor) : System :=
  if (s.runtimes.lookup descriptor.id).isSome ∨ maxManagedDevices ≤ s.runtimes.length then s
  else
    { s with
      runtimes := s.runtimes ++ [(descriptor.id, descriptor)]
      store := s.store.modifyDevice descriptor.id fun _ => { status := descriptor.status }
      queues := Function.update s.queues descriptor.id []
      workers := Function.update s.workers descriptor.id {} }

/-- Whether a worker's channel takes another job. -/
def hasRoom (s : System) (device : DeviceId) : Bool :=
  (s.queues device).length < queueCapacity && (s.workers device).place ≠ .exited

/-- The last section of `submit`: the second check of the request key, the admission, and
the hand-over of the job. -/
def tryStart (host : Host) (s : System) (sub : Submission) : System × ApiResult Operation :=
  match s.store.replay sub.identity with
  | .error e => (s, .error e)
  | .ok (some op) => (s, .ok op)
  | .ok none =>
      let device := sub.request.deviceId
      match s.store.accept host device sub.action sub.identity with
      | .error e => (s, .error e)
      | .ok (store, op) =>
          if s.hasRoom device then
            let job : Job := { id := op.id, request := sub.request, action := sub.action }
            ({ s with
                store := store
                queues := Function.update s.queues device (s.queues device ++ [job])
                enqueued := s.enqueued ++ [{ job := job, identity := sub.identity }] }, .ok op)
          else
            ({ s with store := store.withdraw device sub.action sub.identity },
              .error ⟨.serviceUnavailable, "device worker unavailable"⟩)

/-- One step of a submission: what it leaves of the daemon, and where it stands then. -/
def proceed (host : Host) (s : System) (sub : Submission) (refresh : Refresh) :
    System × Submission :=
  let device := sub.request.deviceId
  match sub.phase with
  | .start =>
      if s.running then (s, { sub with phase := .lookup })
      else (s, sub.finish (.error ⟨.serviceUnavailable, "daemon shutting down"⟩))
  | .lookup =>
      match s.runtimes.lookup device with
      | none =>
          (s, sub.finish (.error
            ⟨.forbidden, "device_not_allowed: device is not in the daemon inventory"⟩))
      | some runtime => (s, { sub with phase := .replay runtime })
  | .replay runtime =>
      match s.store.replay sub.identity with
      | .error e => (s, sub.finish (.error e))
      | .ok (some op) => (s, sub.finish (.ok op))
      | .ok none =>
          (s, { sub with phase := if sub.action.isStream then .monitor runtime else .refresh })
  | .monitor runtime =>
      match s.store.activeMonitorStatus device with
      | some status => (s, { sub with phase := .check { runtime with status := status } })
      | none => (s, { sub with phase := .refresh })
  | .refresh =>
      match refresh with
      | .lost message =>
          (s, sub.finish (.error
            ⟨.serviceUnavailable, "device_refresh_task_failed: " ++ message⟩))
      | .answer (.error e) =>
          (s, sub.finish (.error
            ⟨.serviceUnavailable, "device_refresh_failed: " ++ e.displayChain⟩))
      | .answer (.ok descriptor) => (s, { sub with phase := .describe descriptor })
  | .describe descriptor =>
      (s.describe device descriptor, { sub with phase := .publish descriptor })
  | .publish descriptor =>
      let s := s.setAvailability device descriptor.status.availability
      (s, { sub with
        phase := .check { descriptor with status := (s.store.devices device).status } })
  | .check descriptor =>
      match sub.precheck descriptor with
      | .error e => (s, sub.finish (.error e))
      | .ok () =>
          let r := s.tryStart host sub
          (r.1, sub.finish r.2)
  | .done _ => (s, sub)

def advance (host : Host) (s : System) (n : ℕ) (refresh : Refresh) : System :=
  match s.submissions[n]? with
  | none => s
  | some sub =>
      let r := s.proceed host sub refresh
      { r.1 with submissions := r.1.submissions.set n r.2 }

def setWorker (s : System) (device : DeviceId) (w : Worker) : System :=
  { s with workers := Function.update s.workers device w }

@[simp] theorem setWorker_self (s : System) (device : DeviceId) (w : Worker) :
    (s.setWorker device w).workers device = w := by
  dsimp only [setWorker]
  rw [Function.update_self]

@[simp] theorem setWorker_of_ne (s : System) {device d : DeviceId} (w : Worker) (h : d ≠ device) :
    (s.setWorker device w).workers d = s.workers d := by
  dsimp only [setWorker]
  rw [Function.update_of_ne h]

def reopensAfterBootEntry (s : System) (device : DeviceId) : Bool :=
  ((s.runtimes.lookup device).bind fun r =>
    r.transport.metadata.lookup "reopen_after_boot_entry") = some "true"

/-- A worker's next instruction. -/
def execute (host : Host) (s : System) (device : DeviceId) (i : Inputs) (instr : Instr)
    (rest : List Instr) : System :=
  let r := Worker.exec host device i s.store { s.workers device with todo := rest } instr
  let s := { s.setWorker device r.2 with store := r.1 }
  match instr with
  | .describe descriptor => s.describe device descriptor
  | _ => s

/-- A worker without instructions goes on with its pass. -/
def pass (host : Host) (s : System) (device : DeviceId) (i : Inputs) : System :=
  let w := s.workers device
  match w.place with
  | .head => s.setWorker device { w.abandon with place := .test }
  | .test =>
      if !s.running && !(s.store.devices device).busy then
        s.setWorker device { w with place := .leaving }
      else s.setWorker device { w with place := .receive }
  | .receive =>
      match s.queues device with
      | job :: jobs =>
          { s.setWorker device { w.serve host job i with place := .head } with
            queues := Function.update s.queues device jobs }
      | [] =>
          s.setWorker device
            { w.idle host (s.reopensAfterBootEntry device) i with place := .head }
  | .leaving =>
      { s.setWorker device { w with place := .exited } with
        queues := Function.update s.queues device [] }
  | .exited => s

def work (host : Host) (s : System) (device : DeviceId) (i : Inputs) : System :=
  if (s.runtimes.lookup device).isNone then s
  else
    match (s.workers device).todo with
    | instr :: rest => s.execute host device i instr rest
    | [] => s.pass host device i

end System

/-- Who takes the next turn. The last three are discovery, and refreshes outside `submit`. -/
inductive Step
  | submit (request : DeviceRequest) (action : Action) (identity : RequestIdentity)
  | advance (n : ℕ) (refresh : Refresh)
  | work (device : DeviceId) (inputs : Inputs)
  | shutdown
  | discover (descriptor : DeviceDescriptor)
  | describe (device : DeviceId) (descriptor : DeviceDescriptor)
  | setAvailability (device : DeviceId) (availability : DeviceAvailability)

namespace System

def next (host : Host) (s : System) : Step → System
  | .submit request action identity =>
      { s with
        submissions := s.submissions ++ [
          { request := request, action := action, identity := identity }] }
  | .advance n refresh => s.advance host n refresh
  | .work device inputs => s.work host device inputs
  | .shutdown => { s with running := false }
  | .discover descriptor => s.discover descriptor
  | .describe device descriptor => s.describe device descriptor
  | .setAvailability device availability =>
      if (s.runtimes.lookup device).isSome then s.setAvailability device availability else s

def run (host : Host) (s : System) (steps : List Step) : System := steps.foldl (next host) s

end System
end IdfRemote
