import IdfRemote.ArtifactSteps
import IdfRemote.Shutdown

/-!
# The directory holds what the store lists

The files of the directory are those of the artifacts that the store lists and of reads
that are under way, and each of them holds what was written for its operation. So
nothing is left behind, and their number is bounded with that of the operations.
-/
namespace IdfRemote
namespace ReadArtifacts

/-- The file of an artifact is there, and the metadata is that of the file. -/
structure Stored (host : Host) (digest : List UInt8 → Vector UInt8 32) (files : Directory)
    (id : String) (r : ArtifactRecord) : Prop where
  path : r.path = artifactFile host id
  bytes : ∃ bytes, files r.path = some bytes ∧ r.metadata = inspectArtifact digest bytes

/-- A completion that is due will list this file or remove it. -/
inductive Settles (daemon : System) (artifactPath : DeviceId → Option String) (path : String) :
    Prop
  | lists (device : DeviceId) (id : String) (value : Value) (r : ArtifactRecord)
      (hdue : Due (daemon.workers device).todo id (.ok value) (some r)) (hpath : r.path = path)
  | removes (device : DeviceId) (id : String) (e : Error) (artifact : Option ArtifactRecord)
      (hdue : Due (daemon.workers device).todo id (.error e) artifact)
      (hpath : artifactPath device = some path)

structure Filed (host : Host) (digest : List UInt8 → Vector UInt8 32) (s : State) : Prop where
  records : ∀ id r, s.daemon.store.artifacts id = some r → Stored host digest s.files id r
  due : ∀ device id result r, Due (s.daemon.workers device).todo id result (some r) →
    Stored host digest s.files id r
  paths : ∀ device id result artifact path, Due (s.daemon.workers device).todo id result artifact →
    s.artifactPath device = some path → path = artifactFile host id
  contents : ∀ id bytes, s.files (artifactFile host id) = some bytes → s.written id = some bytes
  owners : ∀ path, (s.files path).isSome → path ∈ s.stuck ∨
    (∃ id r, s.daemon.store.artifacts id = some r ∧ r.path = path) ∨
    Settles s.daemon s.artifactPath path

namespace Filed
variable {host : Host} {digest : List UInt8 → Vector UInt8 32} {s : State}

theorem step (h : Filed host digest s) {daemon : System} {gone : List String}
    (removes : String → Bool)
    (hrecords : ∀ id r, daemon.store.artifacts id = some r →
      Stored host digest s.files id r ∧ r.path ∉ gone)
    (hdue : ∀ device id result artifact, Due (daemon.workers device).todo id result artifact →
      Due (s.daemon.workers device).todo id result artifact ∧ artifactFile host id ∉ gone)
    (howners : ∀ path, (∃ id r, s.daemon.store.artifacts id = some r ∧ r.path = path) ∨
      Settles s.daemon s.artifactPath path → path ∈ gone ∨
      (∃ id r, daemon.store.artifacts id = some r ∧ r.path = path) ∨
        Settles daemon s.artifactPath path) :
    Filed host digest ({ s with daemon := daemon }.removeFiles removes gone) := by
  have hstays : ∀ id r, Stored host digest s.files id r → r.path ∉ gone →
      Stored host digest ({ s with daemon := daemon }.removeFiles removes gone).files id r := by
    rintro id r ⟨hpath, bytes, hfile, hmetadata⟩ hnot
    exact ⟨hpath, bytes, (if_neg fun hgone => hnot hgone.1).trans hfile, hmetadata⟩
  constructor
  · intro id r hr
    obtain ⟨hstored, hnot⟩ := hrecords id r hr
    exact hstays id r hstored hnot
  · intro device id result r hr
    obtain ⟨hold, hnot⟩ := hdue device id result (some r) hr
    have hstored := h.due device id result r hold
    exact hstays id r hstored (hstored.path ▸ hnot)
  · intro device id result artifact path hd
    exact h.paths device id result artifact path (hdue device id result artifact hd).1
  · intro id bytes hfile
    dsimp only [State.removeFiles] at hfile
    split_ifs at hfile
    exact h.contents id bytes hfile
  · intro path hsome
    dsimp only [State.removeFiles] at hsome ⊢
    split_ifs at hsome with hgone
    · cases hsome
    · rcases h.owners path hsome with hstuck | howned
      · exact .inl (List.mem_append_left _ hstuck)
      · rcases howners path howned with hmem | hkept
        · refine .inl (List.mem_append_right _ (List.mem_filter.mpr ⟨hmem, ?_⟩))
          simpa using fun hremoves => hgone ⟨hmem, hremoves⟩
        · exact .inr hkept

theorem notMem_of_due (h : Filed host digest s) (hbooked : s.daemon.Booked) {paths : List String}
    (hpaths : ∀ p ∈ paths, ∃ id r, s.daemon.store.artifacts id = some r ∧ r.path = p)
    {device : DeviceId} {id : String} {result : Result Value} {artifact : Option ArtifactRecord}
    (hdue : Due (s.daemon.workers device).todo id result artifact) :
    artifactFile host id ∉ paths := by
  intro hmem
  obtain ⟨id', r, hr, hpath⟩ := hpaths _ hmem
  obtain rfl := artifactFile_inj ((h.records id' r hr).path.symm.trans hpath)
  rw [hbooked.unlisted hdue] at hr
  cases hr

/-- A step of a submission removes the files of what leaves the store. -/
theorem evict (h : Filed host digest s) (hbooked : s.daemon.Booked) {step : IdfRemote.Step}
    (hstep : ∀ device i, step ≠ .work device i) (removes : String → Bool) :
    Filed host digest ({ s with daemon := s.daemon.next host step }.removeFiles removes
      (evictedFiles host s.daemon step)) := by
  obtain ⟨hlisted, hremoved⟩ :=
    s.daemon.artifacts_next (fun id r hr => (h.records id r hr).path) hstep
  have hdues := s.daemon.due_next host hbooked.consistent hbooked.balanced hstep
  refine h.step removes ?_ ?_ ?_
  · intro id r hr
    obtain ⟨hr, hnot⟩ := (hlisted id r).mp hr
    exact ⟨h.records id r hr, hnot⟩
  · intro device id result artifact hdue
    have hdue := (hdues device id result artifact).mp hdue
    exact ⟨hdue, h.notMem_of_due hbooked hremoved hdue⟩
  · rintro path (⟨id, r, hr, hpath⟩ | hsettles)
    · by_cases hmem : path ∈ evictedFiles host s.daemon step
      · exact .inl hmem
      · exact .inr (.inl ⟨id, r, (hlisted id r).mpr ⟨hr, hpath ▸ hmem⟩, hpath⟩)
    · refine .inr (.inr ?_)
      cases hsettles with
      | lists device id value r hdue hpath =>
          exact .lists device id value r ((hdues _ _ _ _).mpr hdue) hpath
      | removes device id e artifact hdue hpath =>
          exact .removes device id e artifact ((hdues _ _ _ _).mpr hdue) hpath

section
variable {device : DeviceId} {instr : Instr} {rest : List Instr} {daemon : System}
  (htodo : (s.daemon.workers device).todo = instr :: rest)
  (hrest : ∀ d, (daemon.workers d).todo =
    if d = device then rest else (s.daemon.workers d).todo)
include htodo hrest

theorem due_before {d : DeviceId} {id : String} {result : Result Value}
    {artifact : Option ArtifactRecord} (hdue : Due (daemon.workers d).todo id result artifact) :
    Due (s.daemon.workers d).todo id result artifact :=
  (System.due_cases htodo).mpr (.inr (hrest d ▸ hdue))

/-- A file is settled by this instruction, or is still to be settled. -/
theorem settles_cases {path : String} (h : Settles s.daemon s.artifactPath path) :
    (∃ id value r hasReader, instr = .finishExclusive id (.ok value) (some r) hasReader ∧
        r.path = path) ∨
      (∃ id e artifact hasReader, instr = .finishExclusive id (.error e) artifact hasReader ∧
        s.artifactPath device = some path) ∨ Settles daemon s.artifactPath path := by
  cases h with
  | lists d id value r hdue hpath =>
      rcases (System.due_cases htodo).mp hdue with ⟨-, hasReader, hinstr⟩ | hdue
      · exact .inl ⟨id, value, r, hasReader, hinstr, hpath⟩
      · exact .inr (.inr (.lists d id value r (hrest d ▸ hdue) hpath))
  | removes d id e artifact hdue hpath =>
      rcases (System.due_cases htodo).mp hdue with ⟨rfl, hasReader, hinstr⟩ | hdue
      · exact .inr (.inl ⟨id, e, artifact, hasReader, hinstr, hpath⟩)
      · exact .inr (.inr (.removes d id e artifact (hrest d ▸ hdue) hpath))

theorem carry (h : Filed host digest s) (hartifacts : daemon.store.artifacts =
      s.daemon.store.artifacts)
    (hinstr : ∀ id result artifact hasReader,
      instr = .finishExclusive id result artifact hasReader →
        (∃ value, result = .ok value) ∧ artifact = none) (removes : String → Bool) :
    Filed host digest ({ s with daemon := daemon }.removeFiles removes []) := by
  refine h.step removes ?_ ?_ ?_
  · intro id r hr
    rw [hartifacts] at hr
    exact ⟨h.records id r hr, List.not_mem_nil⟩
  · exact fun d id result artifact hdue => ⟨due_before htodo hrest hdue, List.not_mem_nil⟩
  · rintro path (hlisted | hsettles)
    · exact .inr (.inl (hartifacts ▸ hlisted))
    · rcases settles_cases htodo hrest hsettles with
          ⟨id, value, r, hasReader, heq, -⟩ | ⟨id, e, artifact, hasReader, heq, -⟩ | hsettles
      · cases (hinstr _ _ _ _ heq).2
      · obtain ⟨⟨value, hvalue⟩, -⟩ := hinstr _ _ _ _ heq
        cases hvalue
      · exact .inr (.inr hsettles)

theorem list (h : Filed host digest s) (hbooked : s.daemon.Booked) {id : String} {value : Value}
    {r : ArtifactRecord} {hasReader : Bool}
    (hinstr : instr = .finishExclusive id (.ok value) (some r) hasReader)
    (hartifacts : daemon.store.artifacts =
      Function.update s.daemon.store.artifacts id (some r)) (removes : String → Bool) :
    Filed host digest ({ s with daemon := daemon }.removeFiles removes []) := by
  have hdue : Due (s.daemon.workers device).todo id (.ok value) (some r) :=
    ⟨hasReader, by rw [htodo, hinstr]; exact List.mem_cons_self⟩
  have hnone := hbooked.unlisted hdue
  refine h.step removes ?_ ?_ ?_
  · intro id' r' hr
    refine ⟨?_, List.not_mem_nil⟩
    rw [hartifacts] at hr
    by_cases hid : id' = id
    · subst hid
      rw [Function.update_self] at hr
      cases hr
      exact h.due device id' _ r hdue
    · rw [Function.update_of_ne hid] at hr
      exact h.records id' r' hr
  · exact fun d id result artifact hdue => ⟨due_before htodo hrest hdue, List.not_mem_nil⟩
  · rintro path (⟨id', r', hr, hpath⟩ | hsettles)
    · refine .inr (.inl ⟨id', r', ?_, hpath⟩)
      have hid : id' ≠ id := by
        rintro rfl
        rw [hnone] at hr
        cases hr
      rw [hartifacts, Function.update_of_ne hid, hr]
    · rcases settles_cases htodo hrest hsettles with
          ⟨id', value', r', hasReader', heq, hpath⟩ | ⟨id', e, artifact, hasReader', heq, -⟩ |
            hsettles
      · rw [hinstr] at heq
        cases heq
        exact .inr (.inl ⟨id, r, by rw [hartifacts, Function.update_self], hpath⟩)
      · rw [hinstr] at heq
        cases heq
      · exact .inr (.inr hsettles)

theorem fail (h : Filed host digest s) (hbooked : s.daemon.Booked) {id : String} {e : Error}
    {artifact : Option ArtifactRecord} {hasReader : Bool}
    (hinstr : instr = .finishExclusive id (.error e) artifact hasReader)
    (hartifacts : daemon.store.artifacts = s.daemon.store.artifacts) (removes : String → Bool) :
    Filed host digest
      ({ s with daemon := daemon }.removeFiles removes (s.artifactPath device).toList) := by
  subst hinstr
  have hdue : Due (s.daemon.workers device).todo id (.error e) artifact :=
    ⟨hasReader, htodo ▸ List.mem_cons_self⟩
  have hfile : ∀ path ∈ (s.artifactPath device).toList, path = artifactFile host id :=
    fun path hpath => h.paths device id _ _ path hdue (Option.mem_toList.mp hpath)
  refine h.step removes ?_ ?_ ?_
  · intro id' r hr
    rw [hartifacts] at hr
    refine ⟨h.records id' r hr, fun hmem => ?_⟩
    obtain rfl := artifactFile_inj ((h.records id' r hr).path.symm.trans (hfile _ hmem))
    rw [hbooked.unlisted hdue] at hr
    cases hr
  · intro d id' result artifact' hdue'
    refine ⟨due_before htodo hrest hdue', fun hmem => ?_⟩
    exact hbooked.balanced.due_once hbooked.consistent.retained.enqueued_ids htodo
      (hrest d ▸ hdue') (artifactFile_inj (hfile _ hmem))
  · rintro path (hlisted | hsettles)
    · exact .inr (.inl (hartifacts ▸ hlisted))
    · rcases settles_cases htodo hrest hsettles with
          ⟨id', value, r, hasReader', heq, -⟩ | ⟨id', e', artifact', hasReader', -, hpath⟩ |
            hsettles
      · cases heq
      · exact .inl (Option.mem_toList.mpr hpath)
      · exact .inr (.inr hsettles)

end

/-- A completion lists its file or removes it; other instructions concern no file. -/
theorem execute (h : Filed host digest s) (hbooked : s.daemon.Booked) {device : DeviceId}
    {instr : Instr} {rest : List Instr} (htodo : (s.daemon.workers device).todo = instr :: rest)
    (i : Inputs) (removes : String → Bool) :
    Filed host digest ({ s with daemon := s.daemon.execute host device i instr rest }.removeFiles
      removes (failedFiles s device)) := by
  have hartifacts := Worker.artifacts_exec host device i s.daemon.store
    { s.daemon.workers device with todo := rest } instr
  rw [← System.store_execute] at hartifacts
  have hrest := s.daemon.todo_execute host device i instr rest
  unfold failedFiles
  rw [htodo]
  cases instr with
  | finishExclusive id result artifact hasReader =>
      cases result with
      | error e => exact h.fail htodo hrest hbooked rfl hartifacts removes
      | ok value =>
          cases artifact with
          | some r => exact h.list htodo hrest hbooked rfl hartifacts removes
          | none =>
              refine h.carry htodo hrest hartifacts (fun id' result' artifact' reader' heq => ?_)
                removes
              cases heq
              exact ⟨⟨value, rfl⟩, rfl⟩
  | _ => exact h.carry htodo hrest hartifacts (fun _ _ _ _ heq => by cases heq) removes

/-- A pass that leaves no completion of an exclusive action settles no file. -/
theorem pause (h : Filed host digest s) {device : DeviceId} {daemon : System}
    (hartifacts : daemon.store.artifacts = s.daemon.store.artifacts)
    (htodo : (s.daemon.workers device).todo = [])
    (hnew : Lacks Instr.isExclusive (daemon.workers device).todo)
    (hothers : ∀ d, d ≠ device → daemon.workers d = s.daemon.workers d)
    (removes : String → Bool) :
    Filed host digest ({ s with daemon := daemon }.removeFiles removes []) := by
  have hdues : ∀ d id result artifact, Due (daemon.workers d).todo id result artifact ↔
      Due (s.daemon.workers d).todo id result artifact := by
    intro d id result artifact
    by_cases hd : d = device
    · subst hd
      exact iff_of_false (not_due hnew) (not_due (htodo ▸ .nil))
    · rw [hothers d hd]
  refine h.step removes ?_ ?_ ?_
  · intro id r hr
    rw [hartifacts] at hr
    exact ⟨h.records id r hr, List.not_mem_nil⟩
  · exact fun d id result artifact hdue => ⟨(hdues ..).mp hdue, List.not_mem_nil⟩
  · rintro path (hlisted | hsettles)
    · exact .inr (.inl (hartifacts ▸ hlisted))
    · refine .inr (.inr ?_)
      cases hsettles with
      | lists d id value r hdue hpath => exact .lists d id value r ((hdues ..).mpr hdue) hpath
      | removes d id e artifact hdue hpath =>
          exact .removes d id e artifact ((hdues ..).mpr hdue) hpath

theorem free_of_creates {job : Job} {disk : Disk} {i : Inputs} {action : Action}
    (h : createsFile (s.inputs host digest job disk i) action = true) :
    action.isRead = true ∧ s.files (artifactFile host job.id) = none := by
  simp only [createsFile, Bool.and_eq_true] at h
  obtain ⟨⟨⟨hread, -⟩, -⟩, hcreate⟩ := h
  refine ⟨hread, ?_⟩
  dsimp only [State.inputs, createNew] at hcreate
  split_ifs at hcreate with hsome
  · cases hcreate
  · simpa using hsome

/-- A read that is under way has its file, which its completion will settle. -/
theorem create (h : Filed host digest s) {device : DeviceId} {job : Job} {jobs : List Job}
    {disk : Disk} {i : Inputs}
    (htakes : s.daemon.Takes host device job jobs (s.inputs host digest job disk i))
    (hstream : job.action.isStream = false) :
    Filed host digest ({ s with
      daemon := s.daemon.next host (.work device (s.inputs host digest job disk i)) }.create
        host device job disk (s.inputs host digest job disk i)) := by
  have hfree := @free_of_creates host digest s job disk i job.action
  have hinspect : ∀ metadata,
      (s.inputs host digest job disk i).inspectArtifact = .ok metadata →
      metadata = inspectArtifact digest disk.written := by
    intro metadata hmetadata
    obtain ⟨u, -, hmetadata⟩ := result_bind hmetadata
    exact (Except.ok.inj hmetadata).symm
  generalize s.inputs host digest job disk i = i' at *
  obtain ⟨result, artifact, hdue, honly, hresult⟩ := Worker.exclusive_due host
    (s.daemon.workers device) job i'
  have hself : ((s.daemon.next host (.work device i')).workers device).todo =
      ((s.daemon.workers device).exclusive host job i').todo := by
    rw [htakes.next]
    dsimp only
    rw [System.setWorker_self, Worker.serve, if_neg (by simp [hstream])]
  have hother : ∀ d, d ≠ device →
      (s.daemon.next host (.work device i')).workers d = s.daemon.workers d := by
    intro d hd
    rw [htakes.next]
    exact System.setWorker_of_ne _ _ hd
  have hstore : (s.daemon.next host (.work device i')).store = s.daemon.store := by
    rw [htakes.next]
    rfl
  generalize s.daemon.next host (.work device i') = daemon at *
  have hkeep : ∀ id r, Stored host digest s.files id r → Stored host digest
      ({ s with daemon := daemon }.create host device job disk i').files id r := by
    rintro id r ⟨hpath, bytes, hfile, hmetadata⟩
    refine ⟨hpath, bytes, ?_, hmetadata⟩
    rw [State.create_files]
    split_ifs with hcreates
    · rw [Function.update_of_ne, hfile]
      intro hsame
      rw [hsame, (hfree hcreates).2] at hfile
      cases hfile
    · exact hfile
  constructor
  · intro id r hr
    rw [State.create_daemon, hstore] at hr
    exact hkeep id r (h.records id r hr)
  · intro d id result' r hr
    rw [State.create_daemon] at hr
    by_cases hd : d = device
    · subst hd
      obtain ⟨rfl, rfl, rfl⟩ := honly id result' _ (hself ▸ hr)
      rcases hresult with ⟨e, -, hnone⟩ | ⟨value, -, hread⟩
      · cases hnone
      · split_ifs at hread
        obtain ⟨hcreates, metadata, hmetadata, hr⟩ := hread
        cases hr
        refine ⟨rfl, disk.written, ?_, hinspect metadata hmetadata⟩
        rw [State.create_files, if_pos hcreates, Function.update_self]
    · exact hkeep id r (h.due d id result' r (hother d hd ▸ hr))
  · intro d id result' artifact' path hr hpath
    rw [State.create_daemon] at hr
    rw [State.create_artifactPath] at hpath
    by_cases hd : d = device
    · subst hd
      rw [Function.update_self] at hpath
      split_ifs at hpath
      cases hpath
      rw [(honly id result' artifact' (hself ▸ hr)).1]
    · rw [Function.update_of_ne hd] at hpath
      exact h.paths d id result' artifact' path (hother d hd ▸ hr) hpath
  · intro id bytes hfile
    rw [State.create_files] at hfile
    rw [State.create_written]
    split_ifs at hfile ⊢
    · by_cases hid : id = job.id
      · rw [hid, Function.update_self] at hfile ⊢
        exact hfile
      · rw [Function.update_of_ne fun hsame => hid (artifactFile_inj hsame)] at hfile
        rw [Function.update_of_ne hid]
        exact h.contents id bytes hfile
    · exact h.contents id bytes hfile
  · intro path hsome
    rw [State.create_files] at hsome
    rw [State.create_daemon, State.create_stuck, State.create_artifactPath, hstore]
    by_cases hnew : createsFile i' job.action = true ∧ path = artifactFile host job.id
    · obtain ⟨hcreates, rfl⟩ := hnew
      rw [← hself] at hdue
      refine .inr (.inr ?_)
      rcases hresult with ⟨e, rfl, -⟩ | ⟨value, rfl, hread⟩
      · refine .removes device job.id e artifact hdue ?_
        rw [Function.update_self, if_pos (hfree hcreates).1]
      · rw [if_pos (hfree hcreates).1] at hread
        obtain ⟨-, metadata, -, rfl⟩ := hread
        exact .lists device job.id value _ hdue rfl
    · have hold : (s.files path).isSome := by
        split_ifs at hsome with hcreates
        · rwa [Function.update_of_ne fun hsame => hnew ⟨hcreates, hsame⟩] at hsome
        · exact hsome
      rcases h.owners path hold with hstuck | hlisted | hsettles
      · exact .inl hstuck
      · exact .inr (.inl hlisted)
      · refine .inr (.inr ?_)
        have hne : ∀ {d id result artifact},
            Due (s.daemon.workers d).todo id result artifact → d ≠ device := by
          rintro d id result artifact hbefore rfl
          exact not_due (by rw [htakes.todo]; exact .nil) hbefore
        cases hsettles with
        | lists d id value r hdue hpath =>
            exact .lists d id value r ((hother d (hne hdue)).symm ▸ hdue) hpath
        | removes d id e artifact hdue hpath =>
            refine .removes d id e artifact ((hother d (hne hdue)).symm ▸ hdue) ?_
            rw [Function.update_of_ne (hne hdue), hpath]

theorem work (h : Filed host digest s) (hbooked : s.daemon.Booked) (device : DeviceId)
    (i : Inputs) (disk : Disk) : Filed host digest (s.work host digest device i disk) := by
  unfold State.work
  cases htaken : takenJob s.daemon device with
  | some job =>
      obtain ⟨jobs, htakes⟩ :=
        System.takes host htaken (s.inputs host digest job disk i)
      dsimp only
      split_ifs with hstream
      · rw [← State.removeFiles_nil { s with daemon := _ } disk.removes]
        refine h.pause ?_ htakes.todo ?_ (fun d hd => ?_) disk.removes
        · rw [htakes.next]
          rfl
        · rw [htakes.next]
          dsimp only
          rw [System.setWorker_self, Worker.serve, if_pos hstream]
          exact leftByReads_exclusive.toLeftByWorkers.stream host.serde _ job _
        · rw [htakes.next]
          exact System.setWorker_of_ne _ _ hd
      · exact h.create htakes (by simpa using hstream)
  | none =>
      dsimp only
      cases hknown : (s.daemon.runtimes.lookup device).isNone with
      | true =>
          rw [if_pos rfl, System.next, System.work, if_pos hknown]
          exact h
      | false =>
          rw [if_neg (by decide), System.next, System.work, if_neg (by simp [hknown])]
          cases htodo : (s.daemon.workers device).todo with
          | cons instr rest => exact h.execute hbooked htodo i disk.removes
          | nil =>
              have hgone : failedFiles s device = [] := by
                unfold failedFiles
                rw [htodo]
              rw [hgone]
              exact h.pause (by rw [System.pass_store]) htodo
                (s.daemon.pass_lacks host i hknown htodo htaken)
                (fun d hd => s.daemon.pass_workers_of_ne host i hd) disk.removes

theorem daemonStep (h : Filed host digest s) (hbooked : s.daemon.Booked) (disk : Disk)
    (step : IdfRemote.Step) : Filed host digest (s.daemonStep host digest disk step) := by
  cases step with
  | work device i => exact h.work hbooked device i disk
  | _ => exact h.evict hbooked (fun _ _ heq => by cases heq) disk.removes

theorem congr (h : Filed host digest s) (downloads : List Download) :
    Filed host digest { s with downloads := downloads } :=
  ⟨h.records, h.due, h.paths, h.contents, h.owners⟩

end Filed

/-- What was written for an operation stays, since its job is in no queue any more. -/
def Final (s : State) : Prop :=
  ∀ id, (s.written id).isSome → (∃ e ∈ s.daemon.enqueued, e.job.id = id) ∧
    ∀ device, ∀ job ∈ s.daemon.queues device, job.id ≠ id

section
variable {host : Host} {digest : List UInt8 → Vector UInt8 32} {s : State}

theorem Final.step (h : Final s) (hbooked : s.daemon.Booked) (step : IdfRemote.Step) :
    Final { s with daemon := s.daemon.next host step } := by
  intro id hsome
  obtain ⟨⟨e, he, hid⟩, hqueues⟩ := h id hsome
  have hids := (hbooked.next host step).consistent.retained.enqueued_ids
  cases s.daemon.next_queueStep host step with
  | same henqueued hqueues' =>
      exact ⟨⟨e, henqueued ▸ he, hid⟩, fun device job hjob =>
        hqueues device job ((hqueues' device).mem hjob)⟩
  | added new henqueued hqueues' =>
      refine ⟨⟨e, henqueued ▸ List.mem_append_left _ he, hid⟩, ?_⟩
      have hfresh : new.job.id ≠ id := by
        intro hsame
        rw [henqueued, List.map_append, List.map_singleton, List.nodup_append] at hids
        exact hids.2.2 _ (List.mem_map_of_mem he) _ (List.mem_singleton_self _)
          (hid.trans hsame.symm)
      intro device job hjob
      dsimp only at hjob
      rw [hqueues'] at hjob
      by_cases hd : device = new.device
      · subst hd
        rw [Function.update_self] at hjob
        rcases List.mem_append.mp hjob with hjob | hjob
        · exact hqueues _ job hjob
        · rwa [List.mem_singleton.mp hjob]
      · rw [Function.update_of_ne hd] at hjob
        exact hqueues device job hjob

theorem Final.unwritten (h : Final s) {device : DeviceId} {job : Job} {jobs : List Job}
    (hqueue : s.daemon.queues device = job :: jobs) : s.written job.id = none := by
  by_contra hne
  exact (h job.id (Option.isSome_iff_ne_none.mpr hne)).2 device job
    (hqueue ▸ List.mem_cons_self) rfl

theorem Final.create (h : Final s) (hbooked : s.daemon.Booked) {device : DeviceId} {job : Job}
    {jobs : List Job} {disk : Disk} {i i' : Inputs}
    (htakes : s.daemon.Takes host device job jobs i) :
    Final ({ s with daemon := s.daemon.next host (.work device i) }.create host device job disk
      i') := by
  intro id hsome
  rw [State.create_written] at hsome
  rw [State.create_daemon]
  by_cases hid : id = job.id
  · subst hid
    have hids := hbooked.consistent.retained.enqueued_ids
    obtain ⟨e, he, -, hjob⟩ := hbooked.queued.entry (htakes.queue ▸ List.mem_cons_self)
    obtain ⟨hrest, hothers⟩ := hbooked.queued.head_only hids htakes.queue
    dsimp only
    rw [htakes.next]
    refine ⟨⟨e, he, by rw [hjob]⟩, fun d other hother => ?_⟩
    dsimp only at hother
    by_cases hd : d = device
    · subst hd
      rw [Function.update_self] at hother
      exact hrest other hother
    · rw [Function.update_of_ne hd] at hother
      exact hothers d hd other hother
  · refine h.step hbooked (.work device i) id ?_
    split_ifs at hsome
    · rwa [Function.update_of_ne hid] at hsome
    · exact hsome

theorem Final.work (h : Final s) (hbooked : s.daemon.Booked) (device : DeviceId) (i : Inputs)
    (disk : Disk) : Final (s.work host digest device i disk) ∧ ∀ id bytes,
      s.written id = some bytes → (s.work host digest device i disk).written id = some bytes := by
  unfold State.work
  cases htaken : takenJob s.daemon device with
  | some job =>
      obtain ⟨jobs, htakes⟩ := System.takes host htaken (s.inputs host digest job disk i)
      dsimp only
      split_ifs
      · exact ⟨h.step hbooked _, fun _ _ hwritten => hwritten⟩
      · refine ⟨h.create hbooked htakes, fun id bytes hwritten => ?_⟩
        rw [State.create_written]
        split_ifs
        · rw [Function.update_of_ne]
          · exact hwritten
          · rintro rfl
            rw [h.unwritten htakes.queue] at hwritten
            cases hwritten
        · exact hwritten
  | none =>
      dsimp only
      split_ifs
      · exact ⟨h.step hbooked _, fun _ _ hwritten => hwritten⟩
      · exact ⟨h.step hbooked (.work device i), fun _ _ hwritten => hwritten⟩

theorem Final.daemonStep (host : Host) (digest : List UInt8 → Vector UInt8 32) (h : Final s)
    (hbooked : s.daemon.Booked) (disk : Disk) (step : IdfRemote.Step) :
    Final (s.daemonStep host digest disk step) ∧ ∀ id bytes, s.written id = some bytes →
      (s.daemonStep host digest disk step).written id = some bytes := by
  cases step with
  | work device i => exact h.work hbooked device i disk
  | _ => exact ⟨h.step hbooked _, fun _ _ hwritten => hwritten⟩

/-- The daemon takes a step of its own, told what is on the disk. -/
theorem daemonStep_daemon (host : Host) (digest : List UInt8 → Vector UInt8 32) (s : State)
    (disk : Disk) (step : IdfRemote.Step) : ∃ step',
      (s.daemonStep host digest disk step).daemon = s.daemon.next host step' ∧
        (s.daemonStep host digest disk step).downloads = s.downloads := by
  cases step with
  | work device i =>
      dsimp only [State.daemonStep]
      unfold State.work
      cases takenJob s.daemon device with
      | some job =>
          refine ⟨.work device (s.inputs host digest job disk i), ?_⟩
          dsimp only
          split_ifs
          · exact ⟨rfl, rfl⟩
          · rw [State.create_daemon, State.create_downloads]
            exact ⟨rfl, rfl⟩
      | none =>
          refine ⟨.work device i, ?_⟩
          dsimp only
          split_ifs <;> exact ⟨rfl, rfl⟩
  | submit request action identity => exact ⟨.submit request action identity, rfl, rfl⟩
  | advance n refresh => exact ⟨.advance n refresh, rfl, rfl⟩
  | shutdown => exact ⟨.shutdown, rfl, rfl⟩
  | discover descriptor => exact ⟨.discover descriptor, rfl, rfl⟩
  | describe device descriptor => exact ⟨.describe device descriptor, rfl, rfl⟩
  | setAvailability device availability => exact ⟨.setAvailability device availability, rfl, rfl⟩

/-- A download has the metadata of what was written for its operation, and sends that. -/
def Download.Sound (host : Host) (digest : List UInt8 → Vector UInt8 32)
    (written : String → Option (List UInt8)) : Download → Prop
  | .refused _ => True
  | .located id r => r.path = artifactFile host id ∧ ∃ bytes, written id = some bytes ∧
      r.metadata = inspectArtifact digest bytes
  | .streaming id r sent left => written id = some (sent ++ left) ∧
      r.metadata = inspectArtifact digest (sent ++ left)
  | .ended id r sent => written id = some sent ∧ r.metadata = inspectArtifact digest sent
  | .broken id r sent => ∃ left, written id = some (sent ++ left) ∧
      r.metadata = inspectArtifact digest (sent ++ left)

namespace Download
variable {written written' : String → Option (List UInt8)} {d : Download}

theorem Sound.mono (h : d.Sound host digest written)
    (hwritten : ∀ id bytes, written id = some bytes → written' id = some bytes) :
    d.Sound host digest written' := by
  cases d with
  | refused message => trivial
  | located id r =>
      obtain ⟨hpath, bytes, hbytes, hmetadata⟩ := h
      exact ⟨hpath, bytes, hwritten id bytes hbytes, hmetadata⟩
  | streaming id r sent left => exact ⟨hwritten id _ h.1, h.2⟩
  | ended id r sent => exact ⟨hwritten id _ h.1, h.2⟩
  | broken id r sent =>
      obtain ⟨left, hbytes, hmetadata⟩ := h
      exact ⟨left, hwritten id _ hbytes, hmetadata⟩

theorem Sound.read (h : d.Sound host digest written) (size : ℕ) :
    (d.read size).Sound host digest written := by
  cases d with
  | streaming id r sent left =>
      cases left with
      | nil => simpa [Sound, Download.read] using h
      | cons byte left => simpa [Sound, Download.read] using h
  | _ => exact h

theorem Sound.fail (h : d.Sound host digest written) : d.fail.Sound host digest written := by
  cases d with
  | streaming id r sent left => exact ⟨left, h⟩
  | _ => exact h

end Download

theorem Filed.locate (h : Filed host digest s) (id : String) :
    (s.locate id).Sound host digest s.written := by
  unfold State.locate
  cases hr : s.daemon.store.artifacts id with
  | none => trivial
  | some r =>
      obtain ⟨hpath, bytes, hfile, hmetadata⟩ := h.records id r hr
      exact ⟨hpath, bytes, h.contents id bytes (hpath ▸ hfile), hmetadata⟩

/-- A file that is opened has not changed since it was looked up. -/
theorem Filed.openFile (h : Filed host digest s) {d : Download}
    (hd : d.Sound host digest s.written) (opened : Result Unit) :
    (s.openFile opened d).Sound host digest s.written := by
  cases d with
  | located id r =>
      obtain ⟨hpath, bytes, hbytes, hmetadata⟩ := hd
      dsimp only [State.openFile]
      cases opened with
      | error e => trivial
      | ok u =>
          cases hfile : s.files r.path with
          | none => trivial
          | some bytes' =>
              rw [hpath] at hfile
              have hsame := h.contents id bytes' hfile
              rw [hbytes] at hsame
              obtain rfl := Option.some.inj hsame
              exact ⟨hbytes, hmetadata⟩
  | _ => exact hd

end

structure Kept (host : Host) (digest : List UInt8 → Vector UInt8 32) (s : State) : Prop where
  booked : s.daemon.Booked
  filed : Filed host digest s
  final : Final s
  downloads : ∀ d ∈ s.downloads, d.Sound host digest s.written

namespace Kept
variable {host : Host} {digest : List UInt8 → Vector UInt8 32} {s : State}

theorem init (epoch : String) (runtimes : List (DeviceId × DeviceDescriptor)) :
    Kept host digest (ReadArtifacts.init epoch runtimes) where
  booked := .init epoch runtimes
  filed :=
    { records := fun _ _ h => by cases h
      due := fun _ _ _ _ h => absurd h (not_due .nil)
      paths := fun _ _ _ _ _ h => absurd h (not_due .nil)
      contents := fun _ _ h => by cases h
      owners := fun _ h => by cases h }
  final _ h := by cases h
  downloads _ h := by cases h

theorem modify (h : Kept host digest s) (n : ℕ) {f : Download → Download}
    (hf : ∀ d, d.Sound host digest s.written → (f d).Sound host digest s.written) :
    Kept host digest { s with downloads := s.downloads.modify n f } where
  booked := h.booked
  filed := h.filed.congr _
  final := h.final
  downloads d hd := by
    obtain ⟨m, hm⟩ := List.getElem?_of_mem hd
    rw [List.getElem?_modify] at hm
    obtain ⟨before, hbefore, rfl⟩ := Option.map_eq_some_iff.mp hm
    have hsound := h.downloads before (List.mem_of_getElem? hbefore)
    split_ifs
    · exact hf before hsound
    · exact hsound

theorem next (h : Kept host digest s) (step : Step) :
    Kept host digest (s.next host digest step) := by
  cases step with
  | daemon step disk =>
      obtain ⟨step', hdaemon, hdownloads⟩ := daemonStep_daemon host digest s disk step
      obtain ⟨hfinal, hwritten⟩ := h.final.daemonStep host digest h.booked disk step
      refine ⟨?_, h.filed.daemonStep h.booked disk step, hfinal, fun d hd => ?_⟩
      · exact hdaemon.symm ▸ h.booked.next host step'
      · exact (h.downloads d (hdownloads ▸ hd)).mono hwritten
  | locate id =>
      refine ⟨h.booked, h.filed.congr _, h.final, fun d hd => ?_⟩
      rcases List.mem_append.mp hd with hd | hd
      · exact h.downloads d hd
      · rw [List.mem_singleton.mp hd]
        exact h.filed.locate id
  | openFile n opened => exact h.modify n fun d hd => h.filed.openFile hd opened
  | readFile n size => exact h.modify n fun d hd => hd.read size
  | failRead n => exact h.modify n fun d hd => hd.fail

theorem run (h : Kept host digest s) (steps : List Step) :
    Kept host digest (s.run host digest steps) := by
  induction steps generalizing s with
  | nil => exact h
  | cons step steps ih => exact ih (h.next step)

theorem owner (h : Kept host digest s) {path : String} (hsome : (s.files path).isSome)
    (hfree : path ∉ s.stuck) : ∃ op ∈ s.daemon.store.operations,
      path = artifactFile host op.id ∧ (op.isRunning = true ∨ op.artifact.isSome) := by
  have hdue : ∀ device id result artifact, path = artifactFile host id →
      Due (s.daemon.workers device).todo id result artifact →
      ∃ op ∈ s.daemon.store.operations, path = artifactFile host op.id ∧
        (op.isRunning = true ∨ op.artifact.isSome) := by
    intro device id result artifact hpath hdue
    obtain ⟨-, -, -, -, hrunning⟩ := h.booked.balanced.entry_of_due hdue
    obtain ⟨op, hop, hid, hstatus⟩ := operation_of_isRunning hrunning
    exact ⟨op, hop, by rw [hid, hpath], .inl (by simp [Operation.isRunning, hstatus])⟩
  rcases h.filed.owners path hsome with hstuck | ⟨id, r, hr, hpath⟩ | hsettles
  · exact absurd hstuck hfree
  · have hmetadata : (s.daemon.store.artifacts id).map (·.metadata) = some r.metadata := by
      rw [hr]
      rfl
    obtain ⟨op, hop, hid, hartifact⟩ :=
      (h.booked.kept.archived.artifacts id r.metadata).mp hmetadata
    refine ⟨op, hop, ?_, .inr (by rw [hartifact]; rfl)⟩
    rw [hid, ← hpath, (h.filed.records id r hr).path]
  · cases hsettles with
    | lists device id value r hd hpath =>
        exact hdue device id _ _ (hpath ▸ (h.filed.due device id _ r hd).path) hd
    | removes device id e artifact hd hpath =>
        exact hdue device id _ _ (h.filed.paths device id _ _ path hd hpath) hd

end Kept

/-- An artifact's file holds what was written for the operation, every file belongs to an
operation that lists it or may still do so, and there are not many. -/
structure DirectoryInvariant (host : Host) (digest : List UInt8 → Vector UInt8 32) (s : State) :
    Prop where
  listed : ∀ op ∈ s.daemon.store.operations, ∀ metadata, op.artifact = some metadata →
    ∃ bytes, s.files (artifactFile host op.id) = some bytes ∧ s.written op.id = some bytes ∧
      metadata = inspectArtifact digest bytes
  owned : ∀ path, (s.files path).isSome → path ∉ s.stuck →
    ∃ op ∈ s.daemon.store.operations, path = artifactFile host op.id ∧
      (op.isRunning = true ∨ op.artifact.isSome)
  bounded : ∀ paths : List String, paths.Nodup →
    (∀ path ∈ paths, (s.files path).isSome ∧ path ∉ s.stuck) →
    paths.length ≤ 63 + 2 * s.daemon.devices.length

/-- The daemon with its files makes no steps that the daemon without them does not make. -/
theorem run_daemon (host : Host) (digest : List UInt8 → Vector UInt8 32) (s : State)
    (steps : List Step) :
    ∃ steps', (s.run host digest steps).daemon = s.daemon.run host steps' := by
  induction steps generalizing s with
  | nil => exact ⟨[], rfl⟩
  | cons step steps ih =>
      obtain ⟨steps', hrun⟩ := ih (s.next host digest step)
      rw [State.run, List.foldl_cons]
      cases step with
      | daemon step disk =>
          obtain ⟨step', hdaemon, -⟩ := daemonStep_daemon host digest s disk step
          refine ⟨step' :: steps', hrun.trans ?_⟩
          rw [State.next, hdaemon]
          rfl
      | _ => exact ⟨steps', hrun⟩

/-- In any order of the daemon's steps and of downloads, and whatever fails on the disk; a file
whose removal failed is the only one that nothing owns. -/
theorem directory_matches_store (host : Host) (digest : List UInt8 → Vector UInt8 32)
    (epoch : String) (runtimes : List (DeviceId × DeviceDescriptor)) (steps : List Step) :
    DirectoryInvariant host digest ((init epoch runtimes).run host digest steps) ∧
      ∃ steps', ((init epoch runtimes).run host digest steps).daemon =
        (System.init epoch runtimes).run host steps' := by
  refine ⟨?_, run_daemon host digest (init epoch runtimes) steps⟩
  have h := (@Kept.init host digest epoch runtimes).run steps
  generalize (init epoch runtimes).run host digest steps = s at h
  constructor
  · intro op hop metadata hartifact
    have hlisted := (h.booked.kept.archived.artifacts op.id metadata).mpr ⟨op, hop, rfl, hartifact⟩
    obtain ⟨r, hr, rfl⟩ := Option.map_eq_some_iff.mp hlisted
    obtain ⟨hpath, bytes, hfile, hmetadata⟩ := h.filed.records op.id r hr
    rw [hpath] at hfile
    exact ⟨bytes, hfile, h.filed.contents op.id bytes hfile, hmetadata⟩
  · exact fun path hsome hfree => h.owner hsome hfree
  · intro paths hnodup hpaths
    have hsubset : paths ⊆ s.daemon.store.operations.map (artifactFile host ·.id) := by
      intro path hpath
      obtain ⟨op, hop, hfile, -⟩ := h.owner (hpaths path hpath).1 (hpaths path hpath).2
      exact hfile ▸ List.mem_map_of_mem hop
    have hlength := (List.subperm_of_subset hnodup hsubset).length_le
    rw [List.length_map] at hlength
    exact hlength.trans h.booked.kept.bounded

end ReadArtifacts
end IdfRemote
