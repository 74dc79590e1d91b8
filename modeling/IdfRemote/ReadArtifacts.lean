import IdfRemote.Daemon
import IdfRemote.Announcements
import IdfRemote.FlashManifest

/-!
# The files of read artifacts

What a read of the flash returns is kept in a file of the daemon's own directory. A worker
creates the file, the backend fills it, and the worker looks at it once more; it is
removed when the read fails or when its operation makes room for another, and a download
reads it without the store's lock. Here the steps of the daemon are given what they do to
these files, and what the daemon is told of a file is what is there.
-/
namespace IdfRemote

/-- The file of a read, named after its operation. -/
def artifactFile (host : Host) (id : String) : String := host.artifactDir ++ "/" ++ id ++ ".bin"

def Action.isRead : Action → Bool
  | .readFlash .. => true
  | _ => false

/-- The file that goes with the operation that `expire` removes. -/
def Store.expiredFile (s : Store) : List String :=
  match s.operations.find? fun op => !op.isRunning with
  | none => []
  | some expired => (s.artifacts expired.id).toList.map (·.path)

/-- The files that the loop of `push_operation` removes. -/
def Store.evicted : ℕ → Store → List String
  | 0, _ => []
  | fuel + 1, s =>
      if 64 ≤ s.operations.countP (fun op => !op.isRunning) then
        s.expiredFile ++ s.expire.evicted fuel
      else []

namespace ReadArtifacts

abbrev Directory := String → Option (List UInt8)

/-- What a step meets on the disk: whether a new file can be opened, what the backend writes
to it before it returns, whether it can be read back, and which removals succeed. -/
structure Disk where
  create : Result Unit
  written : List UInt8
  inspect : Result Unit
  removes : String → Bool

/-- A client's download, with the artifact it found. What an open file holds stays when its
name is removed. -/
inductive Download
  | refused (message : String)
  | located (id : String) (record : ArtifactRecord)
  | streaming (id : String) (record : ArtifactRecord) (sent left : List UInt8)
  | ended (id : String) (record : ArtifactRecord) (sent : List UInt8)
  | broken (id : String) (record : ArtifactRecord) (sent : List UInt8)

/-- The daemon with its files. `artifactPath` is a worker's variable of this name. We also keep
what was written for each operation, and the files whose removal failed. -/
structure State where
  daemon : System
  files : Directory := fun _ => none
  artifactPath : DeviceId → Option String := fun _ => none
  downloads : List Download := []
  written : String → Option (List UInt8) := fun _ => none
  stuck : List String := []

inductive Step
  | daemon (step : IdfRemote.Step) (disk : Disk)
  | locate (id : String)
  | openFile (n : ℕ) (opened : Result Unit)
  | readFile (n size : ℕ)
  | failRead (n : ℕ)

/-- What `inspect_artifact` returns for a file with these bytes. -/
def inspectArtifact (digest : List UInt8 → Vector UInt8 32) (bytes : List UInt8) :
    ArtifactMetadata where
  size := bytes.length
  sha256 := sha256Hex digest bytes
  contentType := "application/octet-stream"

/-- A file that is there already is not opened by `create_new`. -/
def createNew (files : Directory) (path : String) (create : Result Unit) : Result Unit :=
  if (files path).isSome then .error (.msg "File exists (os error 17)") else create

/-- The job that the next turn of a worker takes from its queue. -/
def takenJob (s : System) (device : DeviceId) : Option Job :=
  if (s.runtimes.lookup device).isNone then none
  else
    match (s.workers device).todo, (s.workers device).place with
    | [], .receive => (s.queues device).head?
    | _, _ => none

/-- Whether a job gets as far as to create its file. -/
def createsFile (i : Inputs) (action : Action) : Bool :=
  action.isRead && i.ensureAvailable.2.isOk && i.openDevice.isOk && i.createArtifact.isOk

/-- The files that the next section of a submission removes. -/
def evictedFiles (host : Host) (s : System) : IdfRemote.Step → List String
  | .advance n _ =>
      match s.submissions[n]? with
      | none => []
      | some sub =>
          if s.admits host sub then
            (s.store.occupy host sub.request.deviceId sub.action).evicted
              s.store.operations.length
          else []
  | _ => []

/-- The failure of an action removes the file of its pass. -/
def failedFiles (s : State) (device : DeviceId) : List String :=
  match (s.daemon.workers device).todo with
  | .finishExclusive _ (.error _) _ _ :: _ => (s.artifactPath device).toList
  | _ => []

namespace State

/-- A removal that fails is ignored. -/
def removeFiles (s : State) (removes : String → Bool) (paths : List String) : State :=
  { s with
    files := fun path => if path ∈ paths ∧ removes path then none else s.files path
    stuck := s.stuck ++ paths.filter fun path => !removes path }

section
variable (s : State) (removes : String → Bool) (paths : List String)

@[simp] theorem removeFiles_daemon : (s.removeFiles removes paths).daemon = s.daemon := rfl

@[simp] theorem removeFiles_written : (s.removeFiles removes paths).written = s.written := rfl

@[simp] theorem removeFiles_downloads :
    (s.removeFiles removes paths).downloads = s.downloads := rfl

end

@[simp] theorem removeFiles_nil (s : State) (removes : String → Bool) :
    s.removeFiles removes [] = s := by
  simp [removeFiles]

section
variable (host : Host) (digest : List UInt8 → Vector UInt8 32)

/-- What a job is told of its file. -/
def inputs (s : State) (job : Job) (disk : Disk) (i : Inputs) : Inputs :=
  { i with
    createArtifact := createNew s.files (artifactFile host job.id) disk.create
    inspectArtifact := do
      disk.inspect
      return inspectArtifact digest disk.written }

/-- What a job that is not a stream action does to the files. -/
def create (s : State) (device : DeviceId) (job : Job) (disk : Disk) (i : Inputs) : State :=
  let path := artifactFile host job.id
  let s := { s with
    artifactPath := Function.update s.artifactPath device
      (if job.action.isRead then some path else none) }
  if createsFile i job.action then
    { s with
      files := Function.update s.files path (some disk.written)
      written := Function.update s.written job.id (some disk.written) }
  else s

section
variable (s : State) (device : DeviceId) (job : Job) (disk : Disk) (i : Inputs)

@[simp] theorem create_daemon : (s.create host device job disk i).daemon = s.daemon := by
  unfold create
  dsimp only
  split_ifs <;> rfl

@[simp] theorem create_files : (s.create host device job disk i).files =
    if createsFile i job.action then
      Function.update s.files (artifactFile host job.id) (some disk.written)
    else s.files := by
  unfold create
  dsimp only
  split_ifs <;> rfl

@[simp] theorem create_written : (s.create host device job disk i).written =
    if createsFile i job.action then Function.update s.written job.id (some disk.written)
    else s.written := by
  unfold create
  dsimp only
  split_ifs <;> rfl

@[simp] theorem create_artifactPath : (s.create host device job disk i).artifactPath =
    Function.update s.artifactPath device
      (if job.action.isRead then some (artifactFile host job.id) else none) := by
  unfold create
  dsimp only
  split_ifs <;> rfl

@[simp] theorem create_stuck : (s.create host device job disk i).stuck = s.stuck := by
  unfold create
  dsimp only
  split_ifs <;> rfl

@[simp] theorem create_downloads : (s.create host device job disk i).downloads = s.downloads := by
  unfold create
  dsimp only
  split_ifs <;> rfl

end

def work (s : State) (device : DeviceId) (i : Inputs) (disk : Disk) : State :=
  match takenJob s.daemon device with
  | some job =>
      let i := s.inputs host digest job disk i
      let s := { s with daemon := s.daemon.next host (.work device i) }
      if job.action.isStream then s else s.create host device job disk i
  | none =>
      let s' := { s with daemon := s.daemon.next host (.work device i) }
      if (s.daemon.runtimes.lookup device).isNone then s'
      else s'.removeFiles disk.removes (failedFiles s device)

def daemonStep (s : State) (disk : Disk) : IdfRemote.Step → State
  | .work device i => s.work host digest device i disk
  | step =>
      { s with daemon := s.daemon.next host step }.removeFiles disk.removes
        (evictedFiles host s.daemon step)

end

/-- The section of the lock in `operation_artifact`. -/
def locate (s : State) (id : String) : Download :=
  match s.daemon.store.artifacts id with
  | none => .refused "operation artifact not found"
  | some record => .located id record

def openFile (s : State) (opened : Result Unit) : Download → Download
  | .located id record =>
      match opened, s.files record.path with
      | .error e, _ => .refused ("operation artifact unavailable: " ++ e.display)
      | .ok (), none =>
          .refused "operation artifact unavailable: No such file or directory (os error 2)"
      | .ok (), some bytes => .streaming id record [] bytes
  | download => download

end State

/-- A read returns some bytes of the buffer's 64 KiB, and none at the end. -/
def Download.read (size : ℕ) : Download → Download
  | .streaming id record sent [] => .ended id record sent
  | .streaming id record sent (byte :: left) =>
      let count := min size (64 * 1024 - 1)
      .streaming id record (sent ++ byte :: left.take count) (left.drop count)
  | download => download

def Download.fail : Download → Download
  | .streaming id record sent _ => .broken id record sent
  | download => download

namespace State
variable (host : Host) (digest : List UInt8 → Vector UInt8 32)

def next (s : State) : Step → State
  | .daemon step disk => s.daemonStep host digest disk step
  | .locate id => { s with downloads := s.downloads ++ [s.locate id] }
  | .openFile n opened => { s with downloads := s.downloads.modify n (s.openFile opened) }
  | .readFile n size => { s with downloads := s.downloads.modify n (·.read size) }
  | .failRead n => { s with downloads := s.downloads.modify n (·.fail) }

def run (s : State) (steps : List Step) : State := steps.foldl (next host digest) s

end State

/-- A fresh daemon has an empty directory. -/
def init (epoch : String) (runtimes : List (DeviceId × DeviceDescriptor)) : State :=
  { daemon := .init epoch runtimes }

end ReadArtifacts
end IdfRemote
