import IdfRemote.FlashUpload

/-!
# From a plan to the flash job

The client prepares a plan, describes it in a manifest, and sends the manifest with the
files, which it opens a second time; the handler verifies what arrives and submits a plan
of its own. What it submits is the client's plan, whatever has become of the files in
between, unless two contents have one digest; and when nothing has changed and nothing
fails, it does submit.
-/
namespace IdfRemote.FlashDelivery
open Checked SectorLayout FlashLayout FlashPlan FlashUploadManifest

/-- A file as it is found when the form is made: its size, and then its contents. -/
structure ClientFiles (Path : Type) where
  display : Path → String
  size : Path → Result ℕ
  contents : Path → Result (List UInt8)

variable {Path : Type}

/-- The files of a plan by their canonical paths, as `load` leaves them. -/
def locate (join : Path → Path → Path) (canonicalize : Path → Result Path) (base : Path)
    (plan : FlashPlan Path) : Result (FlashPlan Path) := do
  let segments ← plan.segments.mapM fun segment => do
    return { segment with file := ← canonicalize (join base segment.file) }
  return { plan with segments }

def withWarnings (m : FlashUploadManifest) (warnings : List FlashWarning) : FlashUploadManifest :=
  { m with warnings }

/-- The part for a segment of the manifest. -/
def artifactPart (files : ClientFiles Path) (plan : FlashPlan Path)
    (metadata : UploadSegmentMetadata) : Result FormField := do
  let source ← orContext ("missing client artifact for offset " ++ hex metadata.offset)
    (plan.segments.find? fun segment => segment.offset = metadata.offset)
  let actualSize ← withContext ("inspect artifact " ++ files.display source.file)
    (files.size source.file)
  ensure (actualSize = metadata.size.toNat)
    ("artifact changed after preflight: " ++ files.display source.file)
  let file ← withContext ("open artifact " ++ files.display source.file)
    (files.contents source.file)
  return { name := some metadata.part, chunks := [file] }

/-- `flash_form`, with the text of the manifest. -/
def flashForm (files : ClientFiles Path) (text : FlashUploadManifest → Result (List UInt8))
    (manifest : FlashUploadManifest) (plan : FlashPlan Path) : Result Form := do
  let metadata ← text manifest
  let parts ← manifest.segments.mapM (artifactPart files plan)
  return { fields := { name := some "metadata", chunks := [metadata] } :: parts }

theorem prepared_of_prepare {files : Files Path} {base : Path} {plan : FlashPlan Path}
    {p : PreparedPlan} (h : (FlashPlan.prepare files plan base).run = some (.ok p)) :
    Prepared p := by
  have hensures : Ensures (FlashPlan.prepare files plan base) Prepared :=
    FlashPlan.ensures_prepare plan
  obtain ⟨r, hr, hpost⟩ := hensures
  exact hpost p (Option.some.inj (hr.symm.trans h))

theorem mem_of_prepare {files : Files Path} {base : Path} {contents : Path → List UInt8}
    {plan : FlashPlan Path} {p : PreparedPlan} (hfull : ReadsInFull files base contents plan)
    (h : (FlashPlan.prepare files plan base).run = some (.ok p)) (s : PreparedSegment) :
    s ∈ p.segments ↔ ∃ t ∈ plan.segments, prepared contents t = s := by
  obtain ⟨r, hr, -, heq⟩ := (decides_prepare hfull).result
  rw [heq p (Option.some.inj (hr.symm.trans h))]
  exact (perm_sortSegments _).mem_iff.trans List.mem_map

variable {env : UploadHost}

/-- The plan is built from the manifest that has arrived and from the verified contents of the
fields. -/
structure Built (env : UploadHost) (form : Form) (sub : FlashSubmission) (m : FlashUploadManifest)
    (data : List (List UInt8)) : Prop where
  metadata : ∃ first parts, form.fields = first :: parts ∧
    env.fromSlice first.chunks.flatten = .ok m
  verified : List.Forall₂ (fun g bytes => ∃ f ∈ form.fields, Staged env.digest g f bytes)
    m.segments data
  plan : (m.intoPlan env.digest data).run = some (.ok sub.plan)
  request : sub.request = { deviceId := m.deviceId, monitorBaud := m.monitorBaud.toNat
                            noResetBefore := m.noResetBefore }
  action : sub.baud = m.flashBaud.toNat ∧ sub.warnings = m.warnings

theorem ensures_built (env : UploadHost) (s : System) (header : KeyHeader) (form : Form) :
    Ensures (flash env s header form) fun sub => ∃ m data, Built env form sub m data := by
  unfold flash
  split
  · refine Ensures.bind (ensures_any _) fun _ _ => ?_
    exact ⟨.error _, rfl, fun _ h => by cases h⟩
  · next first parts hfields =>
    refine Ensures.bind (ensures_any _) fun _ _ =>
      Ensures.bind (ensures_readMultipartField _ _ _ _) fun metadata hmetadata =>
      Ensures.bind (ensures_bad _ _) fun m hm =>
      Ensures.bind (ensures_displayed (FlashUploadManifest.decides_validate m).ensures)
        fun _ hvalid =>
      Ensures.bind (ensures_any _) fun _ _ =>
      Ensures.bind (ensures_any _) fun identity _ =>
      Ensures.bind (ensures_any _) fun _ _ => ?_
    have hparts := distinctParts_of_canonical hvalid.1.canonical
    refine Ensures.bind (ensures_stageArtifacts env hparts form.failure parts [] _
        (progress_nil _ _)) fun paths hpaths =>
      Ensures.bind (ensures_missingPart _ _) fun _ hall =>
      Ensures.bind (ensures_any _) fun _ _ => ?_
    obtain ⟨-, data, rfl, hdata⟩ := hpaths.2.complete hparts hall
    refine Ensures.bind (ensures_displayed (ensures_buildPlan env m data)) fun plan hplan =>
      ensures_pure ⟨m, data, ⟨first, parts, hfields, ?_⟩, ?_, hplan, rfl, rfl, rfl⟩
    · rw [← hm, hmetadata.2, List.nil_append]
    · refine hdata.imp fun g bytes ⟨f, hf, hstaged⟩ => ⟨f, ?_, hstaged⟩
      rw [hfields]
      exact List.mem_cons_of_mem _ hf

/-- Two contents with one digest. -/
def Collision (digest : List UInt8 → Vector UInt8 32) (form : Form) (p : PreparedPlan) : Prop :=
  ∃ f ∈ form.fields, ∃ s ∈ p.segments, f.chunks.flatten ≠ unpadded s ∧
    sha256Hex digest f.chunks.flatten = sha256Hex digest (unpadded s)

theorem data_of_verified {digest : List UInt8 → Vector UInt8 32} {form : Form}
    {segments : List PreparedSegment} {index : ℕ} {data : List (List UInt8)}
    (h : List.Forall₂ (fun g bytes => ∃ f ∈ form.fields, Staged digest g f bytes)
      (describedFrom digest index segments) data)
    (hunique : ∀ f ∈ form.fields, ∀ s ∈ segments,
      sha256Hex digest f.chunks.flatten = sha256Hex digest (unpadded s) →
        f.chunks.flatten = unpadded s) : data = segments.map unpadded := by
  induction segments generalizing index data with
  | nil => exact List.forall₂_nil_left_iff.mp h
  | cons s segments ih =>
      obtain ⟨bytes, rest, ⟨f, hf, hstaged⟩, hrest, rfl⟩ := List.forall₂_cons_left_iff.mp h
      have hbytes : bytes = unpadded s := by
        have hdigest := hstaged.sha256
        rw [← hstaged.received] at hdigest ⊢
        exact hunique f hf s List.mem_cons_self hdigest
      rw [hbytes, ih hrest fun f hf s hs => hunique f hf s (List.mem_cons_of_mem _ hs),
        List.map_cons]

theorem intoPlan_unpadded {digest : List UInt8 → Vector UInt8 32} {p : PreparedPlan}
    (h : Prepared p) {m : FlashUploadManifest} (hvalid : m.Valid) (hchip : m.chip = p.chip)
    (hsettings : m.flashSettings = p.flashSettings)
    (hsegments : m.segments = describedFrom digest 0 p.segments) :
    (intoPlan digest m (p.segments.map unpadded)).run = some (.ok p) := by
  obtain ⟨hmap, hall⟩ := @zip_describedFrom digest p.segments 0 h.padded
  have hlen : (p.segments.map unpadded).length = m.segments.length := by
    rw [List.length_map, hsegments, length_describedFrom]
  have hplan := (decides_intoPlan m (p.segments.map unpadded)).accepts
    ⟨hvalid, hlen, hsegments ▸ hall⟩
  rw [hplan, hsegments, hmap, sortSegments, List.Pairwise.insertionSort_eq (h.sorted.imp id),
    hchip, hsettings]
  rfl

def twoManifest : FlashUploadManifest :=
  manifestOf (fun bytes => .replicate 32 (bytes.headD 0)) "dev_test" twoPrepared 460800 115200 false

/-- The host reads the manifest of the two images out of one text. -/
def twoHost : UploadHost :=
  { oneByteHost with
    digest := fun bytes => .replicate 32 (bytes.headD 0)
    fromSlice := fun bytes =>
      if bytes = [123, 125] then .ok (withWarnings twoManifest []) else .error "no manifest" }

/-- The parts, cut into chunks. -/
def twoForm : Form :=
  { fields := [{ name := some "metadata", chunks := [[123], [125]] },
      { name := some "segment-0", chunks := [[4]] },
      { name := some "segment-1", chunks := [[1, 2], [], [3]] }] }

def twoClient : ClientFiles (List UInt8) where
  display _ := "literal"
  size path := .ok path.length
  contents path := .ok path

def twoIdentity : RequestIdentity :=
  { key := "key", fingerprint := sha256Hex twoHost.digest ("flash".toUTF8.toList ++ [0]) }

def twoSubmission : FlashSubmission :=
  { request := { deviceId := "dev_test", monitorBaud := 115200, noResetBefore := false }
    plan := twoPrepared, baud := 460800, warnings := [], identity := twoIdentity }

section Submitted
variable {files : Files Path} {base : Path} {plan : FlashPlan Path} {p : PreparedPlan}
  {deviceId : DeviceId} {flashBaud monitorBaud : UInt32} {noResetBefore : Bool}
  {m : FlashUploadManifest} {env : UploadHost}

/-- Where contents are told apart by their digests, the handler submits the client's plan. -/
theorem submitted_as_prepared (hprepared : Prepared p)
    (hm : (fromPlan env.digest deviceId p flashBaud monitorBaud noResetBefore).run = some (.ok m))
    {warnings : List FlashWarning} {s : System} {header : KeyHeader} {form : Form}
    (hmetadata : ∀ first parts, form.fields = first :: parts →
      env.fromSlice first.chunks.flatten = .ok (withWarnings m warnings))
    {sub : FlashSubmission} (hsub : (flash env s header form).run = some (.ok sub))
    (hcollision : ¬ Collision env.digest form p) :
    sub.plan = p ∧ sub.baud = flashBaud.toNat ∧ sub.warnings = warnings ∧
      sub.request = { deviceId, monitorBaud := monitorBaud.toNat, noResetBefore } := by
  obtain rfl : m = manifestOf env.digest deviceId p flashBaud monitorBaud noResetBefore := by
    have hdecides : Decides (fromPlan env.digest deviceId p flashBaud monitorBaud noResetBefore)
        _ _ := decides_fromPlan hprepared deviceId flashBaud monitorBaud noResetBefore
    obtain ⟨r, hr, -, heq⟩ := hdecides.result
    exact heq m (Option.some.inj (hr.symm.trans hm))
  obtain ⟨r, hr, hbuilt⟩ := ensures_built env s header form
  obtain ⟨m, data, hbuilt⟩ := hbuilt sub (Option.some.inj (hr.symm.trans hsub))
  obtain ⟨first, parts, hfields, hread⟩ := hbuilt.metadata
  obtain rfl := Except.ok.inj (hread.symm.trans (hmetadata first parts hfields))
  have hdata : data = p.segments.map unpadded := by
    refine data_of_verified hbuilt.verified fun f hf s hs hdigest => ?_
    by_contra hne
    exact hcollision ⟨f, hf, s, hs, hne, hdigest⟩
  have hplan := hbuilt.plan
  obtain ⟨hvalid, -⟩ : _ ∧ _ := by
    have hdecides : Decides (intoPlan env.digest (withWarnings (manifestOf env.digest deviceId p
        flashBaud monitorBaud noResetBefore) warnings) data) _ _ := decides_intoPlan _ data
    obtain ⟨r, hr, hiff, -⟩ := hdecides.result
    exact hiff.mp ⟨sub.plan, Option.some.inj (hr.symm.trans hplan)⟩
  rw [hdata, intoPlan_unpadded hprepared hvalid rfl rfl rfl] at hplan
  exact ⟨(Except.ok.inj (Option.some.inj hplan)).symm, hbuilt.action.1, hbuilt.action.2,
    hbuilt.request⟩

end Submitted

/-- Whatever happens to the files after the preparation and to the form on its way: when the
handler submits, then the plan of the client with its settings, unless two contents have one
digest. -/
theorem flashed_as_prepared (files : Files Path) (base : Path) (plan : FlashPlan Path)
    (p : PreparedPlan) (hprepare : (FlashPlan.prepare files plan base).run = some (.ok p))
    (deviceId : DeviceId) (flashBaud monitorBaud : UInt32) (noResetBefore : Bool)
    (m : FlashUploadManifest) (env : UploadHost)
    (hm : (fromPlan env.digest deviceId p flashBaud monitorBaud noResetBefore).run = some (.ok m))
    (warnings : List FlashWarning) (s : System) (header : KeyHeader) (form : Form)
    (hmetadata : ∀ first parts, form.fields = first :: parts →
      env.fromSlice first.chunks.flatten = .ok (withWarnings m warnings))
    (sub : FlashSubmission) (hsub : (flash env s header form).run = some (.ok sub)) :
    (sub.plan = p ∧ sub.baud = flashBaud.toNat ∧ sub.warnings = warnings ∧
      sub.request = { deviceId, monitorBaud := monitorBaud.toNat, noResetBefore }) ∨
    Collision env.digest form p := by
  by_cases hcollision : Collision env.digest form p
  · exact .inr hcollision
  · exact .inl (submitted_as_prepared (prepared_of_prepare hprepare) hm hmetadata hsub hcollision)

theorem flashed_as_prepared_two :
    (twoSubmission.plan = twoPrepared ∧ twoSubmission.baud = 460800 ∧
      twoSubmission.warnings = [] ∧ twoSubmission.request =
        { deviceId := "dev_test", monitorBaud := 115200, noResetBefore := false }) ∨
    Collision twoHost.digest twoForm twoPrepared :=
  flashed_as_prepared literalFiles [] twoImages twoPrepared (by decide) "dev_test" 460800 115200
    false twoManifest twoHost (by decide +kernel) [] oneDevice (.text "key") twoForm
    (fun first parts hfields => by
      obtain ⟨rfl, -⟩ := List.cons.inj hfields
      rfl)
    twoSubmission rfl

/-- Staging on the server works, and so does the thread that builds the plan. -/
structure Works (env : UploadHost) : Prop where
  createStaging : env.createStaging = .ok ()
  createFile : ∀ index, env.createFile index = .ok ()
  write : ∀ index n, env.write index n = .ok ()
  flush : ∀ index, env.flush index = .ok ()
  read : ∀ index, env.read index = .ok ()
  join : env.join = .ok ()

theorem ensureBad_ok {condition : Bool} (h : condition = true) (message : String) :
    ensureBad condition message = .ok () := by rw [ensureBad, if_pos h]

theorem decides_readMultipartField (limit : ℕ) (hlimit : limit < 2 ^ 64 - 1)
    (chunks : List (List UInt8)) (data : List UInt8)
    (hsize : data.length + chunks.flatten.length ≤ limit) :
    Decides (readMultipartField limit none chunks data) True (data ++ chunks.flatten) := by
  induction chunks generalizing data with
  | nil =>
      rw [List.flatten_nil, List.append_nil]
      exact decides_pure data
  | cons chunk chunks ih =>
      rw [List.flatten_cons, List.length_append] at hsize
      have hrest := ih (data ++ chunk) (by rw [List.length_append]; omega)
      rw [List.append_assoc, ← List.flatten_cons] at hrest
      exact (Decides.bind (decides_ok (ensureBad_ok (decide_eq_true (by omega)) _))
        fun _ => hrest).congr (by simp)

theorem decides_stageChunks (h : Works env) (index : ℕ) (name : String)
    (expected : UploadSegmentMetadata) (chunks : List (List UInt8)) (n size : ℕ)
    (data : List UInt8) (hsize : size + chunks.flatten.length ≤ expected.size.toNat) :
    Decides (stageChunks env index name expected none chunks n size data) True
      (size + chunks.flatten.length, data ++ chunks.flatten) := by
  induction chunks generalizing n size data with
  | nil =>
      rw [List.flatten_nil, List.append_nil]
      exact decides_pure (size, data)
  | cons chunk chunks ih =>
      rw [List.flatten_cons, List.length_append, ← Nat.add_assoc] at hsize
      have hword := expected.size.toNat_lt
      have hadd : okOrBad "artifact size overflow" (add 64 size chunk.length) =
          .ok (size + chunk.length) := by
        rw [add_eq_some (by omega)]
        rfl
      have hwrite : bad "stage artifact: " (env.write index n) = .ok () := by
        rw [h.write]
        rfl
      have hrest := ih (n + 1) (size + chunk.length) (data ++ chunk) hsize
      rw [List.append_assoc, Nat.add_assoc, ← List.length_append, ← List.flatten_cons] at hrest
      exact (Decides.bind (decides_ok hadd) fun _ =>
        Decides.bind (decides_ok (ensureBad_ok (decide_eq_true (by omega)) _)) fun _ =>
        Decides.bind (decides_ok hwrite) fun _ => hrest).congr (by simp)

/-- The field carries what the segment declares. -/
theorem decides_stageArtifact (h : Works env) (index : ℕ) {expected : UploadSegmentMetadata}
    {field : FormField} {bytes : List UInt8} (hstaged : Staged env.digest expected field bytes) :
    Decides (stageArtifact env index expected.part expected field) True bytes := by
  have hcreate : bad "create artifact staging: " (env.createFile index) = .ok () := by
    rw [h.createFile]
    rfl
  have hflush : bad "flush artifact staging: " (env.flush index) = .ok () := by
    rw [h.flush]
    rfl
  have hsize : field.chunks.flatten.length = expected.size.toNat := by
    rw [hstaged.received, hstaged.size]
  have hchunks := decides_stageChunks h index expected.part expected field.chunks 0 0 []
    (by omega)
  rw [Nat.zero_add, List.nil_append, hstaged.received] at hchunks
  unfold stageArtifact
  rw [hstaged.whole]
  exact (Decides.bind (decides_ok hcreate) fun _ =>
    Decides.bind hchunks fun _ =>
    Decides.bind (decides_ok hflush) fun _ =>
    Decides.bind (decides_ok (ensureBad_ok (decide_eq_true hstaged.size) _)) fun _ =>
    Decides.bind (decides_ok (ensureBad_ok (decide_eq_true hstaged.sha256) _)) fun _ =>
    decides_pure bytes).congr (by simp)

theorem find_part {segments : List UploadSegmentMetadata} (hparts : DistinctParts segments)
    {index : ℕ} {g : UploadSegmentMetadata} (hg : segments[index]? = some g) :
    segments.zipIdx.find? (fun q => q.1.part = g.part) = some (g, index) := by
  have hmem : (g, index) ∈ segments.zipIdx := List.mem_zipIdx_iff_getElem?.mpr hg
  obtain ⟨⟨found, i⟩, hfound⟩ : ∃ q, segments.zipIdx.find? (fun q => q.1.part = g.part) = some q :=
    Option.isSome_iff_exists.mp (List.find?_isSome.mpr ⟨_, hmem, by simp⟩)
  have hpart : found.part = g.part := by simpa using List.find?_some hfound
  have hi : segments[i]? = some found :=
    List.mem_zipIdx_iff_getElem?.mp (List.mem_of_find?_eq_some hfound)
  obtain rfl := hparts i index found g hi hg hpart
  rw [hfound, Option.some.inj (hi.symm.trans hg)]

/-- The parts come in the order of the segments; those in front of them have been staged. -/
theorem decides_stageArtifacts (h : Works env) {segments : List UploadSegmentMetadata}
    (hparts : DistinctParts segments) {done : List (List UInt8)}
    {rest : List UploadSegmentMetadata} {fields : List FormField} {data : List (List UInt8)}
    (hrest : segments.drop done.length = rest)
    (hfields : List.Forall₂ (fun g q => Staged env.digest g q.1 q.2) rest (fields.zip data))
    (hlength : fields.length = data.length) :
    Decides (stageArtifacts env segments none fields
      (done.map some ++ rest.map fun _ => none)) True ((done ++ data).map some) := by
  induction fields generalizing done rest data with
  | nil =>
      obtain rfl : data = [] := List.eq_nil_of_length_eq_zero (by simpa using hlength.symm)
      obtain rfl : rest = [] := List.forall₂_nil_right_iff.mp hfields
      rw [List.map_nil, List.append_nil, List.append_nil]
      exact decides_pure _
  | cons field fields ih =>
      cases data with
      | nil => cases hlength
      | cons bytes data =>
          rw [List.zip_cons_cons] at hfields
          obtain ⟨g, rest', hstaged, htail, rfl⟩ := List.forall₂_cons_right_iff.mp hfields
          have hg : segments[done.length]? = some g := by
            have hdrop := congrArg (·[0]?) hrest
            simpa using hdrop
          have hnext : segments.drop (done ++ [bytes]).length = rest' := by
            rw [List.length_append, List.length_singleton, ← List.drop_drop, hrest]
            rfl
          have hname : okOrBad "multipart artifact is missing a part name" field.name =
              .ok g.part := by
            rw [hstaged.name]
            rfl
          have hfound : okOrBad ("unknown artifact part: " ++ g.part)
              (segments.zipIdx.find? fun q => q.1.part = g.part) = .ok (g, done.length) := by
            rw [find_part hparts hg]
            rfl
          have hfree : ((done.map some ++ (g :: rest').map fun _ => none).getD done.length
              none).isNone = true := by
            simp
          have hset : (done.map some ++ (g :: rest').map fun _ => none).set done.length
              (some bytes) = (done ++ [bytes]).map some ++ rest'.map fun _ => none := by
            simp
          have hstep := ih hnext htail (by simpa using hlength)
          rw [List.append_assoc, List.singleton_append] at hstep
          unfold stageArtifacts
          refine (Decides.bind (decides_ok hname) fun _ =>
            Decides.bind (decides_ok hfound) fun _ =>
            Decides.bind (decides_ok (ensureBad_ok hfree _)) fun _ =>
            Decides.bind (decides_stageArtifact h done.length hstaged) fun _ => ?_).congr
              (by simp : True ∧ True ∧ True ∧ True ∧ True ↔ True)
          rw [hset]
          exact hstep

theorem decides_readStaged (h : Works env) (data : List (List UInt8)) (index : ℕ) :
    Decides (readStaged env index (data.map some)) True data := by
  induction data generalizing index with
  | nil => exact decides_pure []
  | cons bytes data ih =>
      exact (Decides.bind (decides_some rfl) fun _ =>
        Decides.bind (decides_ok (h.read index)) fun _ =>
        Decides.bind (ih (index + 1)) fun _ => decides_pure (bytes :: data)).congr (by simp)

theorem decides_displayed {α : Type} {x : Checked α} {a : α} (h : Decides x True a) :
    Decides (displayed x) True a := by
  rw [h.accepts trivial]
  exact decides_pure a

/-- A form in which every part is what the manifest declares. -/
structure Sends (env : UploadHost) (m : FlashUploadManifest) (form : Form)
    (data : List (List UInt8)) : Prop where
  whole : form.failure = none
  fields : ∃ first parts, form.fields = first :: parts ∧ first.name = some "metadata" ∧
    first.failure = none ∧ first.chunks.flatten.length ≤ maxFlashMetadataBytes ∧
    env.fromSlice first.chunks.flatten = .ok m ∧ parts.length = data.length ∧
    List.Forall₂ (fun g q => Staged env.digest g q.1 q.2) m.segments (parts.zip data)

theorem decides_flash (h : Works env) {s : System} {header : KeyHeader} {form : Form}
    {m : FlashUploadManifest} {data : List (List UInt8)} (hform : Sends env m form data)
    (hvalid : m.Valid) (hexposed : (s.runtimes.lookup m.deviceId).isSome = true)
    {identity : RequestIdentity} (hidentity : requestIdentity env header "flash" m = .ok identity)
    {p : PreparedPlan} (hplan : (m.intoPlan env.digest data).run = some (.ok p))
    (haccepts : env.validate p = .ok ()) :
    Decides (flash env s header form) True
      { request := { deviceId := m.deviceId, monitorBaud := m.monitorBaud.toNat
                     noResetBefore := m.noResetBefore }
        plan := p, baud := m.flashBaud.toNat, warnings := m.warnings, identity } := by
  obtain ⟨first, parts, hfields, hname, hwhole, hsize, hread, hlength, hparts⟩ := hform.fields
  have hmetadata := decides_readMultipartField maxFlashMetadataBytes (by decide)
    first.chunks [] (by rwa [List.length_nil, Nat.zero_add])
  rw [List.nil_append, ← hwhole] at hmetadata
  have hmanifest : bad "invalid flash metadata: " (env.fromSlice first.chunks.flatten) = .ok m := by
    rw [hread]
    rfl
  have hchecked : Decides m.validate True () :=
    (decides_validate m).congr (iff_true_intro hvalid)
  have hdevice : s.authorizeDevice m.deviceId = .ok () := if_pos hexposed
  have hstaging : bad "create upload staging: " env.createStaging = .ok () := by
    rw [h.createStaging]
    rfl
  have hjoin : bad "" env.join = .ok () := by
    rw [h.join]
    rfl
  have hstage := @decides_stageArtifacts env h m.segments
    (distinctParts_of_canonical hvalid.canonical) [] m.segments parts data rfl hparts hlength
  rw [List.map_nil, List.nil_append, List.nil_append, ← hform.whole] at hstage
  have hcount : m.segments.length = data.length := by
    have hforall := hparts.length_eq
    rw [List.length_zip] at hforall
    omega
  have hall : missingPart m.segments (data.map some) = .ok () := by
    have hnone : (m.segments.zip (data.map some)).find? (fun q => q.2.isNone) = none := by
      refine List.find?_eq_none.mpr fun q hq => ?_
      obtain ⟨bytes, -, hbytes⟩ := List.mem_map.mp (List.of_mem_zip hq).2
      rw [← hbytes]
      simp
    rw [missingPart, hnone]
  have hbuild : Decides (buildPlan env m (data.map some)) True p := by
    have hinto : Decides (m.intoPlan env.digest data) True p := by
      refine ⟨fun _ => hplan, fun hfalse => absurd trivial hfalse⟩
    exact (Decides.bind (decides_readStaged h data 0) fun _ =>
      Decides.bind hinto fun _ =>
      Decides.bind (decides_ok haccepts) fun _ => decides_pure p).congr (by simp)
  unfold flash
  rw [hfields]
  exact (Decides.bind (decides_ok (ensureBad_ok (decide_eq_true hname) _)) fun _ =>
    Decides.bind hmetadata fun _ =>
    Decides.bind (decides_ok hmanifest) fun _ =>
    Decides.bind (decides_displayed hchecked) fun _ =>
    Decides.bind (decides_ok hdevice) fun _ =>
    Decides.bind (decides_ok hidentity) fun _ =>
    Decides.bind (decides_ok hstaging) fun _ =>
    Decides.bind hstage fun _ =>
    Decides.bind (decides_ok hall) fun _ =>
    Decides.bind (decides_ok hjoin) fun _ =>
    Decides.bind (decides_displayed hbuild) fun _ =>
    decides_pure (FlashSubmission.mk _ _ _ _ _)).congr (by simp)

theorem mapM_ok {α β : Type} {f : α → Result β} {l : List α} (h : ∀ a ∈ l, ∃ b, f a = .ok b) :
    ∃ bs, l.mapM f = .ok bs ∧ List.Forall₂ (fun a b => f a = .ok b) l bs := by
  induction l with
  | nil => exact ⟨[], rfl, .nil⟩
  | cons a l ih =>
      obtain ⟨b, hb⟩ := h a List.mem_cons_self
      obtain ⟨bs, hbs, hall⟩ := ih fun a ha => h a (List.mem_cons_of_mem _ ha)
      refine ⟨b :: bs, ?_, .cons hb hall⟩
      rw [List.mapM_cons, hb, hbs]
      rfl

/-- The files are read in full for the plan, and at their canonical paths they are the same
when the form is made. -/
structure Unchanged (files : Files Path) (canonicalize : Path → Result Path)
    (client : ClientFiles Path) (base : Path) (contents : Path → List UInt8)
    (plan : FlashPlan Path) : Prop where
  prepared : ReadsInFull files base contents plan
  found : ∀ s ∈ plan.segments, ∃ path, canonicalize (files.join base s.file) = .ok path ∧
    client.size path = .ok (contents s.file).length ∧
    client.contents path = .ok (contents s.file)

/-- The form as it arrives: its parts are cut otherwise, but they are whole. -/
structure Delivered (sent arrived : Form) : Prop where
  whole : arrived.failure = none
  fields : List.Forall₂ (fun f g => g.name = f.name ∧ g.failure = none ∧
    g.chunks.flatten = f.chunks.flatten) sent.fields arrived.fields

theorem eq_of_offset {p : PreparedPlan} (h : Prepared p) {s t : PreparedSegment}
    (hs : s ∈ p.segments) (ht : t ∈ p.segments) (heq : s.offset = t.offset) : s = t := by
  have hascending : (p.segments.map PreparedSegment.extent).Pairwise
      fun a b => a.offset < b.offset :=
    h.disjointed.ascending (by decide) h.sorted_extents h.extents_pos
  have hpair : p.segments.Pairwise fun a b => a.offset = b.offset → a = b := by
    rw [List.pairwise_map] at hascending
    refine hascending.imp fun {a b} hab heq => ?_
    simp only [PreparedSegment.extent, heq, lt_irrefl] at hab
  exact List.Pairwise.forall_of_forall_of_flip (fun _ _ _ => rfl) hpair
    (hpair.imp fun hab hba => (hab hba.symm).symm) hs ht heq

/-- What the plan says of a file, at its canonical path. -/
def FoundAt (canonicalize : Path → Result Path) (join : Path → Path → Path) (base : Path)
    (s t : FileSegment Path) : Prop :=
  t.offset = s.offset ∧ canonicalize (join base s.file) = .ok t.file

theorem locate_ok {canonicalize : Path → Result Path} {join : Path → Path → Path} {base : Path}
    {plan : FlashPlan Path}
    (h : ∀ s ∈ plan.segments, ∃ path, canonicalize (join base s.file) = .ok path) :
    ∃ located, locate join canonicalize base plan = .ok located ∧
      List.Forall₂ (FoundAt canonicalize join base) plan.segments located.segments := by
  obtain ⟨segments, hsegments, hall⟩ := @mapM_ok _ _ (fun segment : FileSegment Path => do
      return { segment with file := ← canonicalize (join base segment.file) }) plan.segments
    fun s hs => by
      obtain ⟨path, hpath⟩ := h s hs
      exact ⟨{ s with file := path }, by rw [hpath]; rfl⟩
  refine ⟨{ plan with segments }, by rw [locate, hsegments]; rfl, hall.imp fun s t hst => ?_⟩
  cases hpath : canonicalize (join base s.file) with
  | error e =>
      rw [hpath] at hst
      cases hst
  | ok path =>
      rw [hpath] at hst
      cases hst
      exact ⟨rfl, hpath⟩

theorem exists_of_mem_right {α β : Type} {R : α → β → Prop} {l : List α} {m : List β}
    (h : List.Forall₂ R l m) {b : β} (hb : b ∈ m) : ∃ a ∈ l, R a b := by
  induction h with
  | nil => cases hb
  | cons hab hrest ih =>
      rcases List.mem_cons.mp hb with rfl | hb
      · exact ⟨_, List.mem_cons_self, hab⟩
      · obtain ⟨a, ha, hab⟩ := ih hb
        exact ⟨a, List.mem_cons_of_mem _ ha, hab⟩

section Unchanged
variable {files : Files Path} {canonicalize : Path → Result Path} {client : ClientFiles Path}
  {base : Path} {contents : Path → List UInt8} {plan located : FlashPlan Path} {p : PreparedPlan}

theorem artifactPart_ok (hfiles : Unchanged files canonicalize client base contents plan)
    (hprepare : (FlashPlan.prepare files plan base).run = some (.ok p))
    (hlocated : List.Forall₂ (FoundAt canonicalize files.join base) plan.segments
      located.segments)
    (digest : List UInt8 → Vector UInt8 32) {t : PreparedSegment} (ht : t ∈ p.segments)
    (index : ℕ) :
    artifactPart client located (described digest index t) =
      .ok { name := some (partName index), chunks := [unpadded t] } := by
  have hprepared : Prepared p := prepared_of_prepare hprepare
  have hsegments := @mem_of_prepare _ _ _ _ _ _ hfiles.prepared hprepare
  obtain ⟨s, hs, rfl⟩ := (hsegments t).mp ht
  obtain ⟨u, hu, huoffset, -⟩ := exists_of_mem_right hlocated.flip hs
  obtain ⟨source, hsource⟩ : ∃ source, located.segments.find? (fun segment =>
      segment.offset = (described digest index (prepared contents s)).offset) = some source :=
    Option.isSome_iff_exists.mp (List.find?_isSome.mpr ⟨u, hu, decide_eq_true huoffset⟩)
  have hoffset : source.offset = s.offset := of_decide_eq_true (List.find?_some hsource :)
  -- the segment that is found has the contents of this one
  obtain ⟨s', hs', hsame, hpath⟩ :=
    exists_of_mem_right hlocated (List.mem_of_find?_eq_some hsource)
  obtain ⟨path, hpath', hsize, hread⟩ := hfiles.found s' hs'
  obtain rfl := Except.ok.inj (hpath'.symm.trans hpath)
  have heq : prepared contents s' = prepared contents s :=
    eq_of_offset hprepared ((hsegments _).mpr ⟨s', hs', rfl⟩) ht (hsame.symm.trans hoffset)
  have hunpadded : ∀ s : FileSegment Path, unpadded (prepared contents s) = contents s.file :=
    fun s => take_resize (le_roundUp (by decide) _)
  have hcontents : contents s'.file = contents s.file := by
    rw [← hunpadded s', heq, hunpadded s]
  have hword : (described digest index (prepared contents s)).size.toNat =
      (contents s.file).length :=
    Nat.mod_eq_of_lt (originalSize_lt (hprepared.padded _ ht))
  rw [hcontents] at hsize hread
  have hinspect : withContext ("inspect artifact " ++ client.display source.file)
      (client.size source.file) = .ok (contents s.file).length := by
    rw [hsize]
    rfl
  have hopen : withContext ("open artifact " ++ client.display source.file)
      (client.contents source.file) = .ok (contents s.file) := by
    rw [hread]
    rfl
  simp only [artifactPart, hsource, orContext, bind, Except.bind, hinspect, hopen, hword, ensure,
    decide_true, if_true, hunpadded]
  rfl

/-- The parts, and what the segments say of them when they arrive. -/
theorem mapM_artifactPart {digest : List UInt8 → Vector UInt8 32} (segments : List PreparedSegment)
    (index : ℕ) (hpadded : ∀ t ∈ segments, Padded t)
    (hpart : ∀ t ∈ segments, ∀ i, artifactPart client located (described digest i t) =
      .ok { name := some (partName i), chunks := [unpadded t] }) :
    ∃ parts, (describedFrom digest index segments).mapM (artifactPart client located) = .ok parts ∧
      ∀ arrived, List.Forall₂ (fun f g : FormField => g.name = f.name ∧ g.failure = none ∧
          g.chunks.flatten = f.chunks.flatten) parts arrived →
        arrived.length = (segments.map unpadded).length ∧
        List.Forall₂ (fun g q => Staged digest g q.1 q.2) (describedFrom digest index segments)
          (arrived.zip (segments.map unpadded)) := by
  induction segments generalizing index with
  | nil =>
      refine ⟨[], rfl, fun arrived harrived => ?_⟩
      obtain rfl := List.forall₂_nil_left_iff.mp harrived
      exact ⟨rfl, .nil⟩
  | cons t segments ih =>
      obtain ⟨parts, hparts, hall⟩ := ih (index + 1)
        (fun t ht => hpadded t (List.mem_cons_of_mem _ ht))
        (fun t ht => hpart t (List.mem_cons_of_mem _ ht))
      have ht := hpart t List.mem_cons_self index
      refine ⟨{ name := some (partName index), chunks := [unpadded t] } :: parts, ?_,
        fun arrived harrived => ?_⟩
      · rw [describedFrom, List.mapM_cons, ht, hparts]
        rfl
      · obtain ⟨g, rest, ⟨hname, hwhole, hchunks⟩, hrest, rfl⟩ :=
          List.forall₂_cons_left_iff.mp harrived
        obtain ⟨hlength, hstaged⟩ := hall rest hrest
        have hpad := hpadded t List.mem_cons_self
        have hword : (UInt64.ofNat t.originalSize).toNat = t.originalSize :=
          Nat.mod_eq_of_lt (originalSize_lt hpad)
        rw [List.map_cons, List.zip_cons_cons, describedFrom]
        refine ⟨by rw [List.length_cons, List.length_cons, hlength], .cons ?_ hstaged⟩
        exact
          { name := hname
            whole := hwhole
            received := by rw [hchunks, List.flatten_singleton]
            size := (length_unpadded hpad).trans hword.symm
            sha256 := rfl }

end Unchanged

/-- A plan whose files do not change is what the handler submits, if nothing fails. -/
theorem unchanged_plan_admitted (files : Files Path) (canonicalize : Path → Result Path)
    (client : ClientFiles Path) (base : Path) (contents : Path → List UInt8)
    (plan : FlashPlan Path) (hfiles : Unchanged files canonicalize client base contents plan)
    (p : PreparedPlan) (hprepare : (FlashPlan.prepare files plan base).run = some (.ok p))
    (deviceId : DeviceId) (flashBaud monitorBaud : UInt32) (hflash : 115200 ≤ flashBaud)
    (hmonitor : 0 < monitorBaud) (noResetBefore : Bool) (env : UploadHost)
    (m : FlashUploadManifest)
    (hm : (fromPlan env.digest deviceId p flashBaud monitorBaud noResetBefore).run = some (.ok m))
    (warnings : List FlashWarning) (hcount : warnings.length ≤ 64)
    (hnamed : ∀ w ∈ warnings, w.namesImage = true)
    (text : FlashUploadManifest → Result (List UInt8)) (bytes : List UInt8)
    (htext : text (withWarnings m warnings) = .ok bytes)
    (hread : env.fromSlice bytes = .ok (withWarnings m warnings))
    (hshort : bytes.length ≤ maxFlashMetadataBytes) (hworks : Works env)
    (hvalidate : env.validate p = .ok ()) (s : System)
    (hexposed : (s.runtimes.lookup deviceId).isSome = true) (header : KeyHeader)
    (identity : RequestIdentity)
    (hidentity : requestIdentity env header "flash" (withWarnings m warnings) = .ok identity) :
    ∃ located form, locate files.join canonicalize base plan = .ok located ∧
      flashForm client text (withWarnings m warnings) located = .ok form ∧
      ∀ arrived, Delivered form arrived →
        (flash env s header arrived).run = some (.ok
          { request := { deviceId, monitorBaud := monitorBaud.toNat, noResetBefore }
            plan := p, baud := flashBaud.toNat, warnings, identity }) := by
  have hprepared : Prepared p := prepared_of_prepare hprepare
  have hdecides : Decides (fromPlan env.digest deviceId p flashBaud monitorBaud noResetBefore)
      _ _ := decides_fromPlan hprepared deviceId flashBaud monitorBaud noResetBefore
  obtain ⟨r, hr, hiff, heq⟩ := hdecides.result
  have hok : r = .ok m := Option.some.inj (hr.symm.trans hm)
  have hsize := hiff.mp ⟨m, hok⟩
  obtain rfl := heq m hok
  have hmanifest : Valid (manifestOf env.digest deviceId p flashBaud monitorBaud noResetBefore) :=
    valid_manifestOf hprepared hsize deviceId hflash hmonitor noResetBefore
  have hvalid : Valid (withWarnings (manifestOf env.digest deviceId p flashBaud monitorBaud
      noResetBefore) warnings) :=
    ⟨{ hmanifest.declared with warnings := hcount, images := hnamed }, hmanifest.canonical,
      hmanifest.digested, hmanifest.safe⟩
  obtain ⟨located, hlocate, hlocated⟩ := locate_ok fun s hs => by
    obtain ⟨path, hpath, -⟩ := hfiles.found s hs
    exact ⟨path, hpath⟩
  obtain ⟨parts, hparts, harrived⟩ := mapM_artifactPart p.segments 0 hprepared.padded
    fun t ht i => artifactPart_ok hfiles hprepare hlocated env.digest ht i
  refine ⟨located, { fields := { name := some "metadata", chunks := [bytes] } :: parts }, hlocate,
    ?_, fun arrived hdelivered => ?_⟩
  · simp only [flashForm, htext, bind, Except.bind]
    rw [show (withWarnings (manifestOf env.digest deviceId p flashBaud monitorBaud noResetBefore)
      warnings).segments = describedFrom env.digest 0 p.segments from rfl, hparts]
    rfl
  · obtain ⟨first, rest, ⟨hname, hwhole, hchunks⟩, hrest, hfields⟩ :=
      List.forall₂_cons_left_iff.mp hdelivered.fields
    obtain ⟨hlength, hstaged⟩ := harrived rest hrest
    rw [List.flatten_singleton] at hchunks
    have hsends : Sends env (withWarnings (manifestOf env.digest deviceId p flashBaud monitorBaud
        noResetBefore) warnings) arrived (p.segments.map unpadded) :=
      { whole := hdelivered.whole
        fields := ⟨first, rest, hfields, hname, hwhole, hchunks ▸ hshort, hchunks ▸ hread,
          hlength, hstaged⟩ }
    rw [(decides_flash hworks hsends hvalid hexposed hidentity
      (intoPlan_unpadded hprepared hvalid rfl rfl rfl) hvalidate).accepts trivial]
    rfl

theorem unchanged_plan_admitted_two :
    ∃ located form, locate literalFiles.join .ok [] twoImages = .ok located ∧
      flashForm twoClient (fun _ => .ok [123, 125]) (withWarnings twoManifest []) located =
        .ok form ∧
      ∀ arrived, Delivered form arrived →
        (flash twoHost oneDevice (.text "key") arrived).run = some (.ok twoSubmission) :=
  unchanged_plan_admitted literalFiles .ok twoClient [] id twoImages
    ⟨fun _ _ => ⟨_, rfl, fun _ => rfl⟩, fun _ _ => ⟨_, rfl, rfl, rfl⟩⟩ twoPrepared (by decide)
    "dev_test" 460800 115200 (by decide) (by decide) false twoHost twoManifest
    (by decide +kernel) [] (by decide) (by simp) (fun _ => .ok [123, 125]) [123, 125] rfl
    (by decide +kernel) (by decide)
    ⟨rfl, fun _ => rfl, fun _ _ => rfl, fun _ => rfl, fun _ => rfl, rfl⟩ rfl oneDevice rfl
    (.text "key") twoIdentity rfl

end IdfRemote.FlashDelivery
