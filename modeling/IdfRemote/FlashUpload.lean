import IdfRemote.Daemon
import IdfRemote.FlashRoundTrip

/-!
# The upload of a flash plan

The handler reads a form: metadata first, then the artifacts in any order, each
staged in a file and measured while it arrives. It submits only after every part
has been verified. What comes from outside (the form, the file system, the JSON
library, the backend) is a parameter; a staged file is read back as it was
written, or not at all.
-/
namespace IdfRemote
open Checked

/-- One field of a form, as its chunks arrive. The body may break off after any of them. -/
structure FormField where
  name : Option String
  chunks : List (List UInt8)
  failure : Option String := none

structure Form where
  fields : List FormField
  failure : Option String := none

/-- The header with the request key: missing, not text, or a text. -/
inductive KeyHeader
  | missing
  | opaqueBytes
  | text (key : String)

/-- What a failed call says is a string; file operations are counted per part and chunk. -/
structure UploadHost where
  digest : List UInt8 → Vector UInt8 32
  fromSlice : List UInt8 → Except String FlashUploadManifest
  toWriter : FlashUploadManifest → Except String (List UInt8)
  createStaging : Except String Unit
  createFile : ℕ → Except String Unit
  write : ℕ → ℕ → Except String Unit
  flush : ℕ → Except String Unit
  read : ℕ → Result Unit
  validate : PreparedPlan → Result Unit
  join : Except String Unit

/-- A handler answers, or panics. -/
abbrev Handler (α : Type) := ExceptT ApiError Option α

/-- What `submit` is called with. -/
structure FlashSubmission where
  request : DeviceRequest
  plan : PreparedPlan
  baud : ℕ
  warnings : List FlashWarning
  identity : RequestIdentity

def maxFlashMetadataBytes : ℕ := 64 * 1024

def maxIdempotencyKeyBytes : ℕ := 128

def bad {α : Type} (context : String) (result : Except String α) : ApiResult α :=
  result.mapError fun e => .bad (context ++ e)

def okOrBad {α : Type} (message : String) : Option α → ApiResult α
  | some a => .ok a
  | none => .error (.bad message)

def ensureBad (condition : Bool) (message : String) : ApiResult Unit :=
  if condition then .ok () else .error (.bad message)

/-- The chain of the error is the answer. -/
def displayed {α : Type} (x : Checked α) : Handler α :=
  ExceptT.mk (x.run.map fun r => r.mapError fun e => .bad e.displayChain)

def validateIdempotencyKey (key : String) : Result Unit := do
  ensure (key ≠ "" ∧ key.utf8ByteSize ≤ maxIdempotencyKeyBytes)
    "idempotency key must be 1..128 bytes"
  ensure (key.toList.all fun c => c.isAlphanum || c = '-' || c = '_' || c = '.' || c = ':')
    "idempotency key contains unsupported characters"

def KeyHeader.key : KeyHeader → ApiResult String
  | missing => .error (.bad "missing Idempotency-Key header")
  | opaqueBytes => .error (.bad "Idempotency-Key must be ASCII")
  | text key =>
      match validateIdempotencyKey key with
      | .ok () => .ok key
      | .error e => .error (.bad e.displayChain)

/-- The bytes of the operation's name, a zero and the canonical request. -/
def requestIdentity (env : UploadHost) (header : KeyHeader) (operation : String)
    (request : FlashUploadManifest) : ApiResult RequestIdentity := do
  let key ← header.key
  let bytes ← bad "canonicalize request: " (env.toWriter request)
  return { key, fingerprint := sha256Hex env.digest (operation.toUTF8.toList ++ 0 :: bytes) }

def System.authorizeDevice (s : System) (device : DeviceId) : ApiResult Unit :=
  if (s.runtimes.lookup device).isSome then .ok ()
  else .error ⟨.forbidden, "device_not_allowed: device is not in the daemon inventory"⟩

/-- The end of a field or of the form: nothing more, or a broken body. -/
def endOfBody (failure : Option String) : ApiResult Unit :=
  match failure with
  | none => .ok ()
  | some e => .error (.bad ("invalid multipart body: " ++ e))

def readMultipartField (limit : ℕ) (failure : Option String) :
    List (List UInt8) → List UInt8 → Handler (List UInt8)
  | [], data => do
      endOfBody failure
      return data
  | chunk :: rest, data => do
      ensureBad (min (data.length + chunk.length) (2 ^ 64 - 1) ≤ limit)
        ("multipart field exceeds " ++ toString limit ++ " bytes")
      readMultipartField limit failure rest (data ++ chunk)

section Staging
variable (env : UploadHost)

/-- The loop over the chunks of an artifact, with its variable `size` and the bytes written
so far. -/
def stageChunks (index : ℕ) (name : String) (expected : UploadSegmentMetadata)
    (failure : Option String) :
    List (List UInt8) → ℕ → ℕ → List UInt8 → Handler (ℕ × List UInt8)
  | [], _, size, data => do
      endOfBody failure
      return (size, data)
  | chunk :: rest, n, size, data => do
      let size ← okOrBad "artifact size overflow" (add 64 size chunk.length)
      ensureBad (size ≤ expected.size.toNat) ("artifact size exceeds declaration for " ++ name)
      bad "stage artifact: " (env.write index n)
      stageChunks index name expected failure rest (n + 1) size (data ++ chunk)

/-- One artifact: its file is written, and its size and its digest are compared. -/
def stageArtifact (index : ℕ) (name : String) (expected : UploadSegmentMetadata)
    (field : FormField) : Handler (List UInt8) := do
  bad "create artifact staging: " (env.createFile index)
  let (size, data) ← stageChunks env index name expected field.failure field.chunks 0 0 []
  bad "flush artifact staging: " (env.flush index)
  ensureBad (size = expected.size.toNat)
    ("artifact size mismatch for " ++ name ++ ": expected " ++ toString expected.size.toNat ++
      ", received " ++ toString size)
  ensureBad (sha256Hex env.digest data = expected.sha256)
    ("artifact SHA256 mismatch for " ++ name)
  return data

/-- The loop over the artifacts with its variable `paths`: what has been staged of each
segment. -/
def stageArtifacts (segments : List UploadSegmentMetadata) (failure : Option String) :
    List FormField → List (Option (List UInt8)) → Handler (List (Option (List UInt8)))
  | [], paths => do
      endOfBody failure
      return paths
  | field :: rest, paths => do
      let name ← okOrBad "multipart artifact is missing a part name" field.name
      let (expected, index) ← okOrBad ("unknown artifact part: " ++ name)
        (segments.zipIdx.find? fun g => g.1.part = name)
      ensureBad (paths.getD index none).isNone ("duplicate artifact part: " ++ name)
      let data ← stageArtifact env index name expected field
      stageArtifacts segments failure rest (paths.set index (some data))

end Staging

def missingPart (segments : List UploadSegmentMetadata) (paths : List (Option (List UInt8))) :
    ApiResult Unit :=
  match (segments.zip paths).find? fun q => q.2.isNone with
  | none => .ok ()
  | some (segment, _) => .error (.bad ("missing artifact part: " ++ segment.part))

/-- The staged files are read back in the order of the segments. A path that is not there
would panic. -/
def readStaged (env : UploadHost) : ℕ → List (Option (List UInt8)) → Checked (List (List UInt8))
  | _, [] => return []
  | index, path :: rest => do
      let bytes ← path
      env.read index
      let rest ← readStaged env (index + 1) rest
      return bytes :: rest

/-- What runs on a blocking thread. -/
def buildPlan (env : UploadHost) (upload : FlashUploadManifest)
    (paths : List (Option (List UInt8))) : Checked PreparedPlan := do
  let data ← readStaged env 0 paths
  let plan ← upload.intoPlan env.digest data
  env.validate plan
  return plan

/-- The handler up to its call of `submit`. -/
def flash (env : UploadHost) (s : System) (header : KeyHeader) (form : Form) :
    Handler FlashSubmission := do
  match form.fields with
  | [] => do
      endOfBody form.failure
      throw (.bad "missing metadata part")
  | first :: parts => do
      ensureBad (first.name = some "metadata") "metadata must be the first multipart part"
      let metadata ← readMultipartField maxFlashMetadataBytes first.failure first.chunks []
      let upload ← bad "invalid flash metadata: " (env.fromSlice metadata)
      displayed upload.validate
      s.authorizeDevice upload.deviceId
      let identity ← requestIdentity env header "flash" upload
      bad "create upload staging: " env.createStaging
      let paths ← stageArtifacts env upload.segments form.failure parts
        (upload.segments.map fun _ => none)
      missingPart upload.segments paths
      bad "" env.join
      let plan ← displayed (buildPlan env upload paths)
      return { request := { deviceId := upload.deviceId, monitorBaud := upload.monitorBaud.toNat
                            noResetBefore := upload.noResetBefore }
               plan, baud := upload.flashBaud.toNat, warnings := upload.warnings, identity }

def FlashWarning.toValue : FlashWarning → Value
  | emptyIdfImageSkipped image offset =>
      .object ([("code", .string "empty_idf_image_skipped")] ++
        image.toList.map (fun image => ("image", .string image)) ++
        [("offset", natValue offset.toNat)])

/-- The daemon when the handler is done; other steps were taken while the form arrived. -/
def System.flash (host : Host) (env : UploadHost) (s : System) (meanwhile : List Step)
    (header : KeyHeader) (form : Form) : Option System :=
  (IdfRemote.flash env s header form).run.map fun
    | .error _ => s.run host meanwhile
    | .ok sub => (s.run host meanwhile).next host
        (.submit sub.request (.flash sub.baud (sub.warnings.map FlashWarning.toValue))
          sub.identity)

theorem ensures_okOrBad {α : Type} (message : String) (x : Option α) :
    Ensures (liftM (okOrBad message x) : Handler α) fun a => x = some a :=
  ensures_result fun a h => by
    cases x with
    | none => exact nomatch h
    | some b => rw [Except.ok.inj h]

theorem ensures_ensureBad (condition : Bool) (message : String) :
    Ensures (liftM (ensureBad condition message) : Handler Unit) fun _ => condition = true :=
  ensures_result fun _ h => by
    cases condition with
    | false => exact nomatch h
    | true => rfl

theorem ensures_endOfBody (failure : Option String) :
    Ensures (liftM (endOfBody failure) : Handler Unit) fun _ => failure = none :=
  ensures_result fun _ h => by
    cases failure with
    | none => rfl
    | some e => exact nomatch h

theorem ensures_bad {α : Type} (context : String) (x : Except String α) :
    Ensures (liftM (bad context x) : Handler α) fun a => x = .ok a :=
  ensures_result fun a h => by
    cases x with
    | error e => exact nomatch h
    | ok b => rw [Except.ok.inj h]

theorem ensures_displayed {α : Type} {x : Checked α} {post : α → Prop} (h : Ensures x post) :
    Ensures (displayed x) post := by
  obtain ⟨r, hr, hpost⟩ := h
  refine ⟨r.mapError fun e => .bad e.displayChain, ?_, ?_⟩
  · rw [displayed, ExceptT.run_mk, hr]
    rfl
  · intro a ha
    cases r with
    | error e => exact nomatch ha
    | ok b => exact Except.ok.inj ha ▸ hpost b rfl

theorem ensures_readMultipartField (limit : ℕ) (failure : Option String)
    (chunks : List (List UInt8)) (data : List UInt8) :
    Ensures (readMultipartField limit failure chunks data) fun out =>
      failure = none ∧ out = data ++ chunks.flatten := by
  induction chunks generalizing data with
  | nil =>
      exact Ensures.bind (ensures_endOfBody failure) fun _ h => ensures_pure ⟨h, by simp⟩
  | cons chunk chunks ih =>
      refine Ensures.bind (ensures_ensureBad _ _) fun _ _ => ?_
      have hrest := ih (data ++ chunk)
      rwa [List.append_assoc] at hrest

section Staging
variable (env : UploadHost)

theorem ensures_stageChunks (index : ℕ) (name : String) (expected : UploadSegmentMetadata)
    (failure : Option String) (chunks : List (List UInt8)) (n size : ℕ) (data : List UInt8) :
    Ensures (stageChunks env index name expected failure chunks n size data) fun out =>
      failure = none ∧ out = (size + chunks.flatten.length, data ++ chunks.flatten) := by
  induction chunks generalizing n size data with
  | nil =>
      exact Ensures.bind (ensures_endOfBody failure) fun _ h => ensures_pure ⟨h, by simp⟩
  | cons chunk chunks ih =>
      refine Ensures.bind (ensures_okOrBad _ _) fun total htotal =>
        Ensures.bind (ensures_ensureBad _ _) fun _ _ =>
        Ensures.bind (ensures_bad _ _) fun _ _ => ?_
      have hsum : total = size + chunk.length := by
        unfold add at htotal
        split at htotal
        · exact (Option.some.inj htotal).symm
        · exact absurd htotal (by simp)
      have hrest := ih (n + 1) total (data ++ chunk)
      rwa [hsum, List.append_assoc, Nat.add_assoc, ← List.length_append, ← List.flatten_cons,
        ← hsum] at hrest

/-- The field with this name carried these bytes, which are what the segment declares. -/
structure Staged (digest : List UInt8 → Vector UInt8 32) (g : UploadSegmentMetadata)
    (f : FormField) (bytes : List UInt8) : Prop where
  name : f.name = some g.part
  whole : f.failure = none
  received : f.chunks.flatten = bytes
  size : bytes.length = g.size.toNat
  sha256 : sha256Hex digest bytes = g.sha256

theorem ensures_stageArtifact (index : ℕ) (name : String) (expected : UploadSegmentMetadata)
    (field : FormField) (hname : field.name = some expected.part) :
    Ensures (stageArtifact env index name expected field) (Staged env.digest expected field) := by
  refine Ensures.bind (ensures_bad _ _) fun _ _ =>
    Ensures.bind (ensures_stageChunks env index name expected field.failure field.chunks 0 0 [])
      fun out hout => ?_
  obtain ⟨hwhole, rfl⟩ := hout
  refine Ensures.bind (ensures_bad _ _) fun _ _ =>
    Ensures.bind (ensures_ensureBad _ _) fun _ hsize =>
    Ensures.bind (ensures_ensureBad _ _) fun _ hdigest => ensures_pure ?_
  have hsize := of_decide_eq_true hsize
  rw [Nat.zero_add] at hsize
  exact ⟨hname, hwhole, rfl, hsize, of_decide_eq_true hdigest⟩

/-- After these fields each of them has its own segment, and each staged segment its field. -/
structure Progress (digest : List UInt8 → Vector UInt8 32) (segments : List UploadSegmentMetadata)
    (seen : List FormField) (paths : List (Option (List UInt8))) : Prop where
  length : paths.length = segments.length
  staged : ∀ (i : ℕ) bytes, paths[i]? = some (some bytes) →
    ∃ g, segments[i]? = some g ∧ ∃ f ∈ seen, Staged digest g f bytes
  used : ∀ f ∈ seen, ∃ (i : ℕ) (g : _) (bytes : _),
    segments[i]? = some g ∧ paths[i]? = some (some bytes) ∧ f.name = some g.part
  nodup : (seen.map FormField.name).Nodup

theorem progress_nil (digest : List UInt8 → Vector UInt8 32)
    (segments : List UploadSegmentMetadata) :
    Progress digest segments [] (segments.map fun _ => none) where
  length := List.length_map _
  staged := by
    intro i bytes h
    rw [List.getElem?_map] at h
    cases hg : segments[i]? <;> simp [hg] at h
  used := by simp
  nodup := List.nodup_nil

/-- No two segments have one part name. -/
def DistinctParts (segments : List UploadSegmentMetadata) : Prop :=
  ∀ (i j : ℕ) (g h : UploadSegmentMetadata), segments[i]? = some g → segments[j]? = some h →
    g.part = h.part → i = j

theorem Progress.stage {digest : List UInt8 → Vector UInt8 32}
    {segments : List UploadSegmentMetadata} {seen : List FormField}
    {paths : List (Option (List UInt8))} (h : Progress digest segments seen paths)
    (hparts : DistinctParts segments) {index : ℕ} {g : UploadSegmentMetadata} {f : FormField}
    {bytes : List UInt8} (hg : segments[index]? = some g) (hfree : paths[index]? = some none)
    (hf : Staged digest g f bytes) :
    Progress digest segments (seen ++ [f]) (paths.set index (some bytes)) where
  length := by rw [List.length_set, h.length]
  staged := by
    intro i data hi
    by_cases hne : index = i
    · subst hne
      rw [List.getElem?_set_self (List.getElem?_eq_some_iff.mp hfree).1] at hi
      cases hi
      exact ⟨g, hg, f, by simp, hf⟩
    · rw [List.getElem?_set_ne hne] at hi
      obtain ⟨g', hg', f', hf', hstaged⟩ := h.staged i data hi
      exact ⟨g', hg', f', List.mem_append_left _ hf', hstaged⟩
  used := by
    intro f' hf'
    rcases List.mem_append.mp hf' with hf' | hf'
    · obtain ⟨i, g', data, hg', hi, hname⟩ := h.used f' hf'
      refine ⟨i, g', data, hg', ?_, hname⟩
      rw [List.getElem?_set_ne]
      · exact hi
      · rintro rfl
        rw [hfree] at hi
        exact absurd hi (by simp)
    · rw [List.mem_singleton.mp hf']
      exact ⟨index, g, bytes, hg,
        List.getElem?_set_self (List.getElem?_eq_some_iff.mp hfree).1, hf.name⟩
  nodup := by
    rw [List.map_append, List.nodup_append]
    refine ⟨h.nodup, by simp, ?_⟩
    intro name hname name' hname' heq
    obtain ⟨f', hf', rfl⟩ := List.mem_map.mp hname
    obtain ⟨i, g', data, hg', hi, hpart⟩ := h.used f' hf'
    -- a field of this name would already have staged the segment
    have hsame : g'.part = g.part := by
      have : name' = f.name := by simpa using hname'
      rw [← heq, hpart] at this
      exact Option.some.inj (this.trans hf.name)
    rw [hparts i index g' g hg' hg hsame, hfree] at hi
    exact absurd hi (by simp)

theorem ensures_stageArtifacts {segments : List UploadSegmentMetadata}
    (hparts : DistinctParts segments) (failure : Option String) (fields : List FormField)
    (seen : List FormField) (paths : List (Option (List UInt8)))
    (h : Progress env.digest segments seen paths) :
    Ensures (stageArtifacts env segments failure fields paths) fun out =>
      failure = none ∧ Progress env.digest segments (seen ++ fields) out := by
  induction fields generalizing seen paths with
  | nil =>
      refine Ensures.bind (ensures_endOfBody failure) fun _ hf => ensures_pure ⟨hf, ?_⟩
      rwa [List.append_nil]
  | cons field fields ih =>
      refine Ensures.bind (ensures_okOrBad _ _) fun name hname =>
        Ensures.bind (ensures_okOrBad _ _) fun found hfound =>
        Ensures.bind (ensures_ensureBad _ _) fun _ hfree => ?_
      obtain ⟨expected, index⟩ := found
      have hpart : expected.part = name := by simpa using List.find?_some hfound
      have hg : segments[index]? = some expected :=
        List.mem_zipIdx_iff_getElem?.mp (List.mem_of_find?_eq_some hfound)
      have hlt : index < paths.length := by
        rw [h.length]
        exact (List.getElem?_eq_some_iff.mp hg).1
      have hfree : paths[index]? = some none := by
        rw [List.getD, List.getElem?_eq_getElem hlt, Option.getD_some] at hfree
        rw [List.getElem?_eq_getElem hlt, Option.isNone_iff_eq_none.mp hfree]
      refine Ensures.bind (ensures_stageArtifact env index name expected field
        (by rw [hname, hpart])) fun bytes hbytes => ?_
      have hrest := ih (seen ++ [field]) _ (h.stage hparts hg hfree hbytes)
      rwa [List.append_assoc, List.singleton_append] at hrest

theorem ensures_missingPart (segments : List UploadSegmentMetadata)
    (paths : List (Option (List UInt8))) :
    Ensures (liftM (missingPart segments paths) : Handler Unit) fun _ =>
      ∀ q ∈ segments.zip paths, q.2.isSome = true :=
  ensures_result fun _ h q hq => by
    unfold missingPart at h
    split at h
    · rename_i hnone
      simpa [Option.isSome_iff_ne_none] using List.find?_eq_none.mp hnone q hq
    · exact nomatch h

theorem ensures_readStaged (data : List (List UInt8)) (index : ℕ) :
    Ensures (readStaged env index (data.map some)) fun out => out = data := by
  induction data generalizing index with
  | nil => exact ensures_pure rfl
  | cons bytes data ih =>
      refine Ensures.bind (ensures_some rfl) fun out hout =>
        Ensures.bind (ensures_any _) fun _ _ =>
        Ensures.bind (ih (index + 1)) fun rest hrest => ensures_pure ?_
      rw [hout, hrest]

theorem ensures_buildPlan (upload : FlashUploadManifest) (data : List (List UInt8)) :
    Ensures (buildPlan env upload (data.map some)) fun plan =>
      (upload.intoPlan env.digest data).run = some (.ok plan) := by
  refine Ensures.bind (ensures_readStaged env data 0) fun out hout => ?_
  subst hout
  have hplan : Decides (upload.intoPlan env.digest out) _ _ :=
    FlashUploadManifest.decides_intoPlan upload out
  refine Ensures.bind hplan.ensures fun plan hspec =>
    Ensures.bind (ensures_any _) fun _ _ =>
    ensures_pure ?_
  rw [hplan.accepts hspec.1, hspec.2]
  rfl

end Staging

theorem partName_inj {i j : ℕ}
    (h : FlashUploadManifest.partName i = FlashUploadManifest.partName j) : i = j := by
  have hlist := congrArg String.toList h
  simp only [FlashUploadManifest.partName, String.toList_append, List.append_cancel_left_eq,
    Nat.toString_eq_repr, Nat.toList_repr] at hlist
  have hnumber := congrArg (Nat.ofDigitChars 10 · 0) hlist
  simpa only [Nat.ofDigitChars_ten_toDigits] using hnumber

theorem distinctParts_of_canonical {segments : List UploadSegmentMetadata}
    (h : FlashUploadManifest.Canonical segments 0) : DistinctParts segments := by
  intro i j g g' hi hj heq
  have hij := (h i g hi).symm.trans (heq.trans (h j g' hj))
  rw [Nat.zero_add, Nat.zero_add] at hij
  exact partName_inj hij

theorem DistinctParts.nodup {segments : List UploadSegmentMetadata} (h : DistinctParts segments) :
    (segments.map fun g => some g.part).Nodup := by
  rw [List.nodup_iff_injective_getElem]
  intro i j hij
  have hi : (i : ℕ) < segments.length := by simpa using i.isLt
  have hj : (j : ℕ) < segments.length := by simpa using j.isLt
  simp only [List.getElem_map, Option.some.injEq] at hij
  exact Fin.ext (h i j _ _ (List.getElem?_eq_getElem hi) (List.getElem?_eq_getElem hj) hij)

/-- When nothing is missing, the fields carried the segments, each once and nothing else. -/
theorem Progress.complete {digest : List UInt8 → Vector UInt8 32}
    {segments : List UploadSegmentMetadata} {seen : List FormField}
    {paths : List (Option (List UInt8))} (h : Progress digest segments seen paths)
    (hparts : DistinctParts segments) (hall : ∀ q ∈ segments.zip paths, q.2.isSome = true) :
    (seen.map FormField.name).Perm (segments.map fun g => some g.part) ∧
      ∃ data : List (List UInt8), paths = data.map some ∧
        List.Forall₂ (fun g bytes => ∃ f ∈ seen, Staged digest g f bytes) segments data := by
  have hsome : ∀ (i : ℕ) g, segments[i]? = some g → ∃ bytes, paths[i]? = some (some bytes) := by
    intro i g hg
    have hlt : i < paths.length := by
      rw [h.length]
      exact (List.getElem?_eq_some_iff.mp hg).1
    have hmem : (g, paths[i]) ∈ segments.zip paths := by
      apply List.mem_of_getElem? (i := i)
      rw [List.getElem?_zip_eq_some]
      exact ⟨hg, List.getElem?_eq_getElem hlt⟩
    obtain ⟨bytes, hbytes⟩ := Option.isSome_iff_exists.mp (hall _ hmem)
    exact ⟨bytes, (List.getElem?_eq_getElem hlt).trans (congrArg some hbytes)⟩
  constructor
  · rw [List.perm_ext_iff_of_nodup h.nodup hparts.nodup]
    intro name
    constructor
    · intro hname
      obtain ⟨f, hf, rfl⟩ := List.mem_map.mp hname
      obtain ⟨i, g, bytes, hg, -, hpart⟩ := h.used f hf
      exact List.mem_map.mpr ⟨g, List.mem_of_getElem? hg, hpart.symm⟩
    · intro hname
      obtain ⟨g, hg, rfl⟩ := List.mem_map.mp hname
      obtain ⟨i, hi⟩ := List.mem_iff_getElem?.mp hg
      obtain ⟨bytes, hbytes⟩ := hsome i g hi
      obtain ⟨g', hg', f, hf, hstaged⟩ := h.staged i bytes hbytes
      rw [hi] at hg'
      cases hg'
      exact List.mem_map.mpr ⟨f, hf, hstaged.name⟩
  · refine ⟨paths.map fun p => p.getD [], ?_, ?_⟩
    · rw [List.map_map]
      apply List.ext_getElem? fun i => ?_
      rw [List.getElem?_map]
      cases hi : paths[i]? with
      | none => rfl
      | some p =>
          have hlt : i < segments.length := by
            rw [← h.length]
            exact (List.getElem?_eq_some_iff.mp hi).1
          obtain ⟨bytes, hbytes⟩ := hsome i _ (List.getElem?_eq_getElem hlt)
          rw [hi] at hbytes
          rw [Option.some.inj hbytes]
          rfl
    · rw [List.forall₂_iff_get]
      refine ⟨by rw [List.length_map, h.length], fun i hi _ => ?_⟩
      obtain ⟨bytes, hbytes⟩ := hsome i _ (List.getElem?_eq_getElem hi)
      obtain ⟨g, hg, hfield⟩ := h.staged i bytes hbytes
      have hget : segments.get ⟨i, hi⟩ = g := by
        rw [List.getElem?_eq_getElem hi] at hg
        exact Option.some.inj hg
      have hdata : (paths.map fun p => p.getD [])[i]? = some bytes := by
        rw [List.getElem?_map, hbytes]
        rfl
      obtain ⟨_, hlast⟩ := List.getElem?_eq_some_iff.mp hdata
      rw [hget, List.get_eq_getElem, hlast]
      exact hfield

/-- What a call of `submit` rests on. -/
structure Admitted (env : UploadHost) (s : System) (form : Form) (sub : FlashSubmission)
    (first : FormField) (parts : List FormField) (m : FlashUploadManifest)
    (data : List (List UInt8)) : Prop where
  fields : form.fields = first :: parts
  whole : form.failure = none
  leading : first.name = some "metadata" ∧ first.failure = none
  metadata : env.fromSlice first.chunks.flatten = .ok m
  valid : m.validate.run = some (.ok ())
  exposed : (s.runtimes.lookup m.deviceId).isSome = true
  names : (parts.map FormField.name).Perm (m.segments.map fun g => some g.part)
  verified : List.Forall₂ (fun g bytes => ∃ f ∈ parts, Staged env.digest g f bytes) m.segments data
  plan : ∃ order, order.Perm (m.segments.zip data) ∧
    List.Forall₂ (FlashUploadManifest.Received env.digest) order sub.plan.segments
  settings : sub.plan.chip = m.chip ∧ sub.plan.flashSettings = m.flashSettings
  request : sub.request = { deviceId := m.deviceId, monitorBaud := m.monitorBaud.toNat
                            noResetBefore := m.noResetBefore }
  action : sub.baud = m.flashBaud.toNat ∧ sub.warnings = m.warnings

theorem ensures_flash (env : UploadHost) (s : System) (header : KeyHeader) (form : Form) :
    Ensures (flash env s header form) fun sub =>
      ∃ first parts m data, Admitted env s form sub first parts m data := by
  unfold flash
  split
  · refine Ensures.bind (ensures_any _) fun _ _ => ?_
    exact ⟨.error _, rfl, fun _ h => nomatch h⟩
  · rename_i first parts hfields
    refine Ensures.bind (ensures_ensureBad _ _) fun _ hname =>
      Ensures.bind (ensures_readMultipartField _ _ _ _) fun metadata hmetadata =>
      Ensures.bind (ensures_bad _ _) fun m hm =>
      Ensures.bind (ensures_displayed (FlashUploadManifest.decides_validate m).ensures)
        fun _ hvalid =>
      Ensures.bind (ensures_any _) fun _ hexposed =>
      Ensures.bind (ensures_any _) fun identity _ =>
      Ensures.bind (ensures_any _) fun _ _ => ?_
    have hvalid := hvalid.1
    have hparts := distinctParts_of_canonical hvalid.canonical
    refine Ensures.bind (ensures_stageArtifacts env hparts form.failure parts [] _
        (progress_nil _ _)) fun paths hpaths =>
      Ensures.bind (ensures_missingPart _ _) fun _ hall =>
      Ensures.bind (ensures_any _) fun _ _ => ?_
    obtain ⟨hnames, data, rfl, hdata⟩ := hpaths.2.complete hparts hall
    refine Ensures.bind (ensures_displayed (ensures_buildPlan env m data)) fun plan hplan =>
      ensures_pure ⟨first, parts, m, data, ?_⟩
    obtain ⟨hchip, hsettings, -, horder, -⟩ := FlashUploadManifest.received_of_intoPlan hplan
    rw [List.nil_append] at hmetadata hnames hdata
    exact
      { fields := hfields
        whole := hpaths.1
        leading := ⟨of_decide_eq_true hname, hmetadata.1⟩
        metadata := hmetadata.2 ▸ hm
        valid := by
          rw [(FlashUploadManifest.decides_validate m).accepts hvalid]
          rfl
        exposed := by
          unfold System.authorizeDevice at hexposed
          split at hexposed
          · assumption
          · exact nomatch hexposed
        names := hnames
        verified := hdata
        plan := horder
        settings := ⟨hchip, hsettings⟩
        request := rfl
        action := ⟨rfl, rfl⟩ }

/-- For every form: `submit` is called only with a plan made of verified parts, and a form
that fails leaves no trace in the daemon. -/
theorem only_verified_uploads (host : Host) (env : UploadHost) (s : System)
    (meanwhile : List Step) (header : KeyHeader) (form : Form) :
    (∃ e, (flash env s header form).run = some (.error e) ∧
      System.flash host env s meanwhile header form = some (s.run host meanwhile)) ∨
    ∃ sub, (flash env s header form).run = some (.ok sub) ∧
      System.flash host env s meanwhile header form = some ((s.run host meanwhile).next host
        (.submit sub.request (.flash sub.baud (sub.warnings.map FlashWarning.toValue))
          sub.identity)) ∧
      ∃ first parts m data, Admitted env s form sub first parts m data := by
  obtain ⟨r, hr, hpost⟩ := ensures_flash env s header form
  cases r with
  | error e => exact .inl ⟨e, hr, by rw [System.flash, hr]; rfl⟩
  | ok sub => exact .inr ⟨sub, hr, by rw [System.flash, hr]; rfl, hpost sub rfl⟩

def oneByteHost : UploadHost where
  digest _ := .replicate 32 0
  fromSlice _ := .ok FlashUploadManifest.oneByte
  toWriter _ := .ok []
  createStaging := .ok ()
  createFile _ := .ok ()
  write _ _ := .ok ()
  flush _ := .ok ()
  read _ := .ok ()
  validate _ := .ok ()
  join := .ok ()

def oneDevice : System :=
  .init "epoch" [("dev_test",
    { id := "dev_test", displayName := "", status := .availableIdle, capabilities := []
      transport := { kind := "serial", address := none, metadata := [] } })]

def acceptsParts (parts : List FormField) : Bool :=
  ((flash oneByteHost oneDevice (.text "key")
    { fields := { name := some "metadata", chunks := [[123], [125]] } :: parts }).run.map
      (·.isOk)).getD false

example : acceptsParts [{ name := some "segment-0", chunks := [[], [4]] }] = true ∧
    acceptsParts [{ name := some "segment-0", chunks := [[4]] },
      { name := some "segment-0", chunks := [[4]] }] = false := by
  decide +kernel

end IdfRemote
