import IdfRemote.ArtifactFiles
import IdfRemote.Monitoring

/-!
# From the device to the client's file

The client asks for the artifact of an operation it has seen succeed and writes what it
receives to a new file. It believes neither the daemon nor the connection: the file stays
if its size and digest are those of the operation. What the daemon sends is what the backend
wrote, even if the operation leaves the store while the download runs.
-/
namespace IdfRemote
namespace ReadArtifacts

/-- The client's side of the disk: what is at the output path, and which calls fail. A write
that fails may have written some of its bytes. -/
structure Output where
  path : String
  existing : Option (List UInt8)
  create : Result Unit
  write : ℕ → Option (Error × ℕ)
  flush : Result Unit
  removes : Bool

/-- What comes of the request: nothing, another status with its text, or a body in pieces
that ends properly or fails. -/
inductive Reply
  | failed (e : Error)
  | status (status : String) (text : Result String)
  | success (chunks : List (List UInt8)) (ended : Result Unit)

/-- The loop over the body, with what the file holds. -/
def writeChunks (output : Output) : ℕ → List (List UInt8) → List UInt8 →
    Result Unit × List UInt8
  | _, [], written => (.ok (), written)
  | n, chunk :: chunks, written =>
      match output.write n with
      | some (e, count) => (.error e, written ++ chunk.take count)
      | none => writeChunks output (n + 1) chunks (written ++ chunk)

section
variable (digest : List UInt8 → Vector UInt8 32)

def verifyDownload (metadata : ArtifactMetadata) (output : Output) (ended : Result Unit)
    (written : List UInt8) : Result Unit := do
  ended
  output.flush
  ensure (written.length = metadata.size) "downloaded artifact size mismatch"
  ensure (sha256Hex digest written = metadata.sha256) "downloaded artifact SHA256 mismatch"

def transfer (metadata : ArtifactMetadata) (output : Output) (chunks : List (List UInt8))
    (ended : Result Unit) : Result Unit × List UInt8 :=
  match writeChunks output 0 chunks [] with
  | (.error e, written) => (.error e, written)
  | (.ok (), written) => (verifyDownload digest metadata output ended written, written)

/-- The result, and what is at the output path afterwards. -/
def downloadArtifact (op : Operation) (reply : Reply) (output : Output) :
    Result Unit × Option (List UInt8) :=
  match op.artifact with
  | none => (.error (.msg "operation completed without an artifact"), output.existing)
  | some metadata =>
      match reply with
      | .failed e => (.error e, output.existing)
      | .status status (.ok text) =>
          (.error (.msg ("HTTP " ++ status ++ ": " ++ text)), output.existing)
      | .status _ (.error e) => (.error e, output.existing)
      | .success chunks ended =>
          match createNew (fun _ => output.existing) output.path output.create with
          | .error e => (.error (e.context ("create output " ++ output.path)), output.existing)
          | .ok () =>
              match transfer digest metadata output chunks ended with
              | (.ok (), written) => (.ok (), some written)
              | (.error e, written) => (.error e, if output.removes then none else some written)

end

section
variable {digest : List UInt8 → Vector UInt8 32} {output : Output} {op : Operation}
  {reply : Reply} {file : Option (List UInt8)}

theorem writeChunks_flatten (hwrite : ∀ n, output.write n = none) (n : ℕ)
    (chunks : List (List UInt8)) (written : List UInt8) :
    writeChunks output n chunks written = (.ok (), written ++ chunks.flatten) := by
  induction chunks generalizing n written with
  | nil => simp [writeChunks]
  | cons chunk chunks ih => simp [writeChunks, hwrite, ih]

theorem createNew_ok {files : Directory} {path : String} {create : Result Unit}
    (h : createNew files path create = .ok ()) : files path = none ∧ create = .ok () := by
  unfold createNew at h
  split_ifs at h with hsome
  exact ⟨by simpa using hsome, h⟩

/-- A file that the client reports is new, and has passed both checks. -/
theorem saved_of_ok (h : downloadArtifact digest op reply output = (.ok (), file)) :
    ∃ metadata saved, op.artifact = some metadata ∧ output.existing = none ∧
      file = some saved ∧ saved.length = metadata.size ∧
      sha256Hex digest saved = metadata.sha256 := by
  unfold downloadArtifact at h
  cases hartifact : op.artifact with
  | none =>
      rw [hartifact] at h
      cases h
  | some metadata =>
      rw [hartifact] at h
      cases reply with
      | failed e => cases h
      | status status text => cases text <;> cases h
      | success chunks ended =>
          dsimp only at h
          cases hcreate : createNew (fun _ => output.existing) output.path output.create with
          | error e =>
              rw [hcreate] at h
              cases h
          | ok u =>
              rw [hcreate] at h
              dsimp only at h
              unfold transfer at h
              cases hwritten : writeChunks output 0 chunks [] with
              | mk result written =>
                  rw [hwritten] at h
                  cases result with
                  | error e => cases h
                  | ok u =>
                      dsimp only at h
                      cases hverify : verifyDownload digest metadata output ended written with
                      | error e =>
                          rw [hverify] at h
                          cases h
                      | ok u =>
                          rw [hverify] at h
                          cases h
                          obtain ⟨-, -, hverify⟩ := result_bind hverify
                          obtain ⟨-, -, hverify⟩ := result_bind hverify
                          obtain ⟨hsize, hverify⟩ := ensure_bind hverify
                          exact ⟨metadata, written, rfl, (createNew_ok hcreate).1, rfl,
                            of_decide_eq_true hsize,
                            of_decide_eq_true (ensure_eq_ok.mp hverify)⟩

/-- A download that fails leaves the output path as it was. -/
theorem untouched_of_error {e : Error} (hremoves : output.removes = true)
    (h : downloadArtifact digest op reply output = (.error e, file)) :
    file = output.existing := by
  unfold downloadArtifact at h
  cases hartifact : op.artifact with
  | none =>
      rw [hartifact] at h
      cases h
      rfl
  | some metadata =>
      rw [hartifact] at h
      cases reply with
      | failed e =>
          cases h
          rfl
      | status status text => cases text <;> (cases h; rfl)
      | success chunks ended =>
          dsimp only at h
          cases hcreate : createNew (fun _ => output.existing) output.path output.create with
          | error e =>
              rw [hcreate] at h
              cases h
              rfl
          | ok u =>
              rw [hcreate, hremoves] at h
              dsimp only at h
              cases htransfer : transfer digest metadata output chunks ended with
              | mk result written =>
                  rw [htransfer] at h
                  cases result with
                  | ok u => cases h
                  | error e =>
                      cases h
                      exact (createNew_ok hcreate).1.symm

theorem saves {chunks : List (List UInt8)}
    (hartifact : op.artifact = some (inspectArtifact digest chunks.flatten))
    (hnew : output.existing = none) (hcreate : output.create = .ok ())
    (hwrite : ∀ n, output.write n = none) (hflush : output.flush = .ok ()) :
    downloadArtifact digest op (.success chunks (.ok ())) output =
      (.ok (), some chunks.flatten) := by
  have hverify : verifyDownload digest (inspectArtifact digest chunks.flatten) output (.ok ())
      chunks.flatten = .ok () := by
    simp [verifyDownload, hflush, inspectArtifact, bind, Except.bind]
  simp [downloadArtifact, hartifact, createNew, hnew, hcreate, transfer,
    writeChunks_flatten hwrite, hverify]

end

section
variable {host : Host} {digest : List UInt8 → Vector UInt8 32} {s : State}

theorem Kept.written_next (h : Kept host digest s) (step : Step) {id : String}
    {bytes : List UInt8} (hwritten : s.written id = some bytes) :
    (s.next host digest step).written id = some bytes := by
  cases step with
  | daemon step disk =>
      exact (h.final.daemonStep host digest h.booked disk step).2 id bytes hwritten
  | _ => exact hwritten

theorem Kept.written_run (h : Kept host digest s) (steps : List Step) {id : String}
    {bytes : List UInt8} (hwritten : s.written id = some bytes) :
    (s.run host digest steps).written id = some bytes := by
  induction steps generalizing s with
  | nil => exact hwritten
  | cons step steps ih => exact ih (h.next step) (h.written_next step hwritten)

theorem Kept.download_run (h : Kept host digest s) (steps : List Step) {id : String}
    {bytes : List UInt8} (hwritten : s.written id = some bytes) {r : ArtifactRecord}
    {sent left : List UInt8}
    (hmem : .streaming id r sent left ∈ (s.run host digest steps).downloads ∨
      left = [] ∧ .ended id r sent ∈ (s.run host digest steps).downloads) :
    sent ++ left = bytes := by
  have hkept := h.run steps
  have hsame : (s.run host digest steps).written id = some (sent ++ left) := by
    rcases hmem with hmem | ⟨rfl, hmem⟩
    · exact (hkept.downloads _ hmem).1
    · rw [List.append_nil]
      exact (hkept.downloads _ hmem).1
  rw [h.written_run steps hwritten] at hsame
  exact (Option.some.inj hsame).symm

end

def Download.reads (d : Download) (sizes : List ℕ) : Download :=
  sizes.foldl (fun (d : Download) size => d.read size) d

/-- Reads of any sizes come to the end of the file, and send all of it. -/
theorem Download.reads_end (id : String) (r : ArtifactRecord) {sizes : List ℕ}
    {sent left : List UInt8} (hlength : left.length < sizes.length) :
    (Download.streaming id r sent left).reads sizes = .ended id r (sent ++ left) := by
  induction sizes generalizing sent left with
  | nil => cases hlength
  | cons size sizes ih =>
      rw [reads, List.foldl_cons]
      cases left with
      | nil =>
          rw [List.append_nil, read]
          clear ih hlength
          induction sizes with
          | nil => rfl
          | cons size sizes ih => exact ih
      | cons byte left =>
          have hshort : (left.drop (min size (64 * 1024 - 1))).length < sizes.length := by
            rw [List.length_cons, List.length_cons] at hlength
            rw [List.length_drop]
            omega
          exact (ih hshort).trans (by simp)

/-- What the device returned for an operation is what its downloads send, whatever becomes of
the operation meanwhile; a client that reports success has a new file of the same length and
digest, and one that fails leaves its output as it was if it can remove a partial file. -/
structure Downloads (host : Host) (digest : List UInt8 → Vector UInt8 32) (s : State)
    (op : Operation) (bytes : List UInt8) : Prop where
  written : s.written op.id = some bytes
  sent : ∀ steps r sent left, .streaming op.id r sent left ∈ (s.run host digest steps).downloads →
    sent ++ left = bytes ∧ ∀ sizes : List ℕ, left.length < sizes.length →
      (Download.streaming op.id r sent left).reads sizes = .ended op.id r bytes
  ended : ∀ steps r sent, .ended op.id r sent ∈ (s.run host digest steps).downloads →
    sent = bytes
  ok : ∀ reply output file, downloadArtifact digest op reply output = (.ok (), file) →
    output.existing = none ∧ ∃ saved, file = some saved ∧ saved.length = bytes.length ∧
      sha256Hex digest saved = sha256Hex digest bytes
  failed : ∀ reply output e file, output.removes = true →
    downloadArtifact digest op reply output = (.error e, file) → file = output.existing
  saves : ∀ chunks output, chunks.flatten = bytes → output.existing = none →
    output.create = .ok () → (∀ n, output.write n = none) → output.flush = .ok () →
    downloadArtifact digest op (.success chunks (.ok ())) output = (.ok (), some bytes)

theorem artifact_reaches_client (host : Host) (digest : List UInt8 → Vector UInt8 32)
    (epoch : String) (runtimes : List (DeviceId × DeviceDescriptor)) (steps : List Step)
    (op : Operation) (metadata : ArtifactMetadata)
    (hop : op ∈ ((init epoch runtimes).run host digest steps).daemon.store.operations)
    (hartifact : op.artifact = some metadata) :
    ∃ bytes, Downloads host digest ((init epoch runtimes).run host digest steps) op bytes := by
  have h := (@Kept.init host digest epoch runtimes).run steps
  generalize (init epoch runtimes).run host digest steps = s at h hop
  have hlisted := (h.booked.kept.archived.artifacts op.id metadata).mpr ⟨op, hop, rfl, hartifact⟩
  obtain ⟨r, hr, rfl⟩ := Option.map_eq_some_iff.mp hlisted
  obtain ⟨hpath, bytes, hfile, hmetadata⟩ := h.filed.records op.id r hr
  rw [hpath] at hfile
  have hwritten := h.filed.contents op.id bytes hfile
  rw [hmetadata] at hartifact
  refine ⟨bytes, hwritten, fun later r sent left hmem => ?_, fun later r sent hmem => ?_,
    fun reply output file hok => ?_, fun reply output e file hremoves herror => ?_,
    fun chunks output hchunks hnew hcreate hwrite hflush => ?_⟩
  · have hbytes := h.download_run later hwritten (.inl hmem)
    refine ⟨hbytes, fun sizes hlength => ?_⟩
    rw [Download.reads_end op.id r hlength, hbytes]
  · have hbytes := h.download_run later hwritten (.inr ⟨rfl, hmem⟩)
    rwa [List.append_nil] at hbytes
  · obtain ⟨metadata, saved, hmetadata, hnew, rfl, hsize, hdigest⟩ := saved_of_ok hok
    rw [hartifact] at hmetadata
    obtain rfl := Option.some.inj hmetadata
    exact ⟨hnew, saved, rfl, hsize, hdigest⟩
  · exact untouched_of_error hremoves herror
  · subst hchunks
    exact ReadArtifacts.saves hartifact hnew hcreate hwrite hflush

def readable : DeviceDescriptor := { System.monitored with capabilities := [.readFlash] }

/-- A disk on which nothing fails, and a backend that reads three bytes. -/
def plainDisk : Disk where
  create := .ok ()
  written := [1, 2, 3]
  inspect := .ok ()
  removes _ := true

/-- A read is submitted and admitted, and its worker carries it out. -/
def readSteps : List Step :=
  ([.submit ⟨"dev-1", 115200, false⟩ (.readFlash 0 3 460800) ⟨"key-1", "f1"⟩] ++
    List.replicate 8 (.advance 0 (.answer (.ok readable))) ++
    List.replicate 6 (.work "dev-1" { System.stalled (fun _ => 0) with refresh := .ok readable }) :
      List IdfRemote.Step).map (.daemon · plainDisk)

def zeros : List UInt8 → Vector UInt8 32 := fun _ => .replicate 32 0

def readState : State :=
  (init "1-1" [("dev-1", readable)]).run System.bareHost zeros readSteps

def readOperation : Operation where
  id := "1-1-dev-1-1"
  deviceId := "dev-1"
  requestKey := "key-1"
  status := .succeeded
  startCursor := ⟨"1-1", 1⟩
  result := some .null
  artifact := some ⟨3, String.ofList (List.replicate 64 '0'), "application/octet-stream"⟩

theorem artifact_reaches_client_read :
    ∃ bytes, Downloads System.bareHost zeros readState readOperation bytes :=
  artifact_reaches_client System.bareHost zeros "1-1" [("dev-1", readable)] readSteps
    readOperation _ (List.mem_of_getElem? (i := 0) (by rfl)) rfl

end ReadArtifacts
end IdfRemote
