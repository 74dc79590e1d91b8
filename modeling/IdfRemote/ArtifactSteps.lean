import IdfRemote.ReadArtifacts
import IdfRemote.StoreInvariant
import IdfRemote.Discarding

/-!
# Steps of the daemon and the files they concern

An artifact leaves the store together with its file, and is added by the completion of a
read that created one. A completion that is due is the only one of its operation, and a job
stands in one place of one queue.
-/
namespace IdfRemote

theorem artifactFile_inj {host : Host} {id id' : String}
    (h : artifactFile host id = artifactFile host id') : id = id' := by
  have hlist := congrArg String.toList h
  simp only [artifactFile, String.toList_append, List.append_assoc, List.append_cancel_left_eq,
    List.append_cancel_right_eq] at hlist
  exact String.toList_injective hlist

/-- Each artifact has a file of its own. -/
def Store.Filed (host : Host) (s : Store) : Prop :=
  ∀ id r, s.artifacts id = some r → r.path = artifactFile host id

section
variable {host : Host} {s : Store}

theorem Store.Filed.artifacts_expire (h : s.Filed host) :
    (∀ id r, s.expire.artifacts id = some r ↔ s.artifacts id = some r ∧ r.path ∉ s.expiredFile) ∧
      ∀ p ∈ s.expiredFile, ∃ id r, s.artifacts id = some r ∧ r.path = p := by
  unfold Store.expire Store.expiredFile
  cases s.operations.find? fun op => !op.isRunning with
  | none => simp
  | some expired =>
      constructor
      · intro id r
        dsimp only
        by_cases hid : id = expired.id
        · subst hid
          rw [Function.update_self]
          constructor
          · intro hnone
            cases hnone
          · rintro ⟨hr, hpath⟩
            simp [hr] at hpath
        · rw [Function.update_of_ne hid]
          refine ⟨fun hr => ⟨hr, fun hpath => hid ?_⟩, And.left⟩
          simp only [List.mem_map, Option.mem_toList] at hpath
          obtain ⟨r', hr', hsame⟩ := hpath
          rw [h _ _ hr, h _ _ hr'] at hsame
          exact (artifactFile_inj hsame).symm
      · intro p hp
        simp only [List.mem_map, Option.mem_toList] at hp
        obtain ⟨r, hr, rfl⟩ := hp
        exact ⟨_, r, hr, rfl⟩

/-- The artifacts whose files stay are the ones that are listed afterwards. -/
theorem Store.Filed.artifacts_makeRoom (fuel : ℕ) (h : s.Filed host) :
    (∀ id r, (s.makeRoom fuel).artifacts id = some r ↔
      s.artifacts id = some r ∧ r.path ∉ s.evicted fuel) ∧
      ∀ p ∈ s.evicted fuel, ∃ id r, s.artifacts id = some r ∧ r.path = p := by
  induction fuel generalizing s with
  | zero => simp [Store.makeRoom, Store.evicted]
  | succ fuel ih =>
      obtain ⟨hkept, hremoved⟩ := h.artifacts_expire
      have hnext : s.expire.Filed host := fun id r hr => h id r ((hkept id r).mp hr).1
      obtain ⟨hkept', hremoved'⟩ := ih hnext
      unfold Store.makeRoom Store.evicted
      split_ifs
      · constructor
        · intro id r
          rw [hkept', hkept, List.mem_append, not_or, and_assoc]
        · intro p hp
          rcases List.mem_append.mp hp with hp | hp
          · exact hremoved p hp
          · obtain ⟨id, r, hr, hpath⟩ := hremoved' p hp
            exact ⟨id, r, ((hkept id r).mp hr).1, hpath⟩
      · simp

end

theorem Store.artifacts_conclude (host : Host) (s : Store) (device : DeviceId) (id : String)
    (finish : Operation → Operation) (complete : DeviceState → DeviceState) :
    (s.conclude host device id finish complete).artifacts = s.artifacts := by
  unfold Store.conclude
  split <;> rfl

theorem Store.artifacts_finishStream (host : Host) (s : Store) (device : DeviceId)
    (done : List Completion) (hasReader : Bool) :
    (s.finishStream host device done hasReader).artifacts = s.artifacts := by
  induction done generalizing s with
  | nil => rfl
  | cons c done ih =>
      rw [Store.finishStream, List.foldl_cons]
      exact (ih _).trans (s.artifacts_conclude host device _ _ _)

theorem Store.Touches.artifacts {s s' : Store} (h : s.Touches s') :
    s'.artifacts = s.artifacts := by
  rw [Store.Touches] at h
  rw [h]

/-- Only a read that has succeeded adds an artifact. -/
theorem Worker.artifacts_exec (host : Host) (device : DeviceId) (i : Inputs) (s : Store)
    (w : Worker) (instr : Instr) :
    (Worker.exec host device i s w instr).1.artifacts =
      match instr with
      | .finishExclusive id (.ok _) (some r) _ => Function.update s.artifacts id (some r)
      | _ => s.artifacts := by
  cases instr with
  | finishStream done hasReader => exact s.artifacts_finishStream host device done hasReader
  | finishExclusive id result artifact hasReader =>
      refine (Store.artifacts_conclude ..).trans ?_
      unfold Store.keepArtifact
      split <;> simp_all
  | _ => exact (Worker.exec_touches host device i s w rfl).1.artifacts

namespace System

/-- A queue holds jobs that were handed to its worker, in their order. -/
def Queued (s : System) : Prop :=
  ∀ device, (s.queues device).Sublist
    ((s.enqueued.filter fun e => e.device = device).map (·.job))

/-- A job is added behind the others, or taken from the front, or the queue is dropped. -/
inductive QueueStep (s s' : System) : Prop
  | same (henqueued : s'.enqueued = s.enqueued)
      (hqueues : ∀ device, (s'.queues device).Sublist (s.queues device))
  | added (e : Enqueued) (henqueued : s'.enqueued = s.enqueued ++ [e])
      (hqueues : s'.queues = Function.update s.queues e.device (s.queues e.device ++ [e.job]))

variable {s : System}

theorem advance_queueStep (host : Host) (s : System) (n : ℕ) (refresh : Refresh) :
    s.QueueStep (s.advance host n refresh) := by
  rcases s.advance_cases host n refresh with hsame | ⟨sub, -, hadvance⟩
  · rw [hsame]
    exact .same rfl fun _ => .refl _
  · rw [hadvance]
    rcases s.proceed_cases host sub refresh with
        ⟨-, hp | ⟨descriptor, hp⟩ | ⟨availability, hp⟩⟩ | ⟨descriptor, -, -, hp⟩
    · exact .same (by rw [hp]) fun _ => by rw [hp]
    · exact .same (by rw [hp]; rfl) fun _ => by rw [hp]; exact .refl _
    · exact .same (by rw [hp]; rfl) fun _ => by rw [hp]; exact .refl _
    · rcases s.tryStart_cases host sub with
          ⟨result, hr⟩ | ⟨accepted, op, -, -, ⟨-, hr⟩ | ⟨-, hr⟩⟩
      · exact .same (by rw [hp, hr]) fun _ => by rw [hp, hr]
      · exact .added ⟨⟨op.id, sub.request, sub.action⟩, sub.identity⟩ (by rw [hp, hr])
          (by rw [hp, hr]; rfl)
      · exact .same (by rw [hp, hr]) fun _ => by rw [hp, hr]

theorem sublist_update {queues : DeviceId → List Job} {device : DeviceId} {queue : List Job}
    (h : queue.Sublist (queues device)) (d : DeviceId) :
    (Function.update queues device queue d).Sublist (queues d) := by
  by_cases hd : d = device
  · subst hd
    rwa [Function.update_self]
  · rw [Function.update_of_ne hd]

theorem pass_queueStep (host : Host) (s : System) (device : DeviceId) (i : Inputs) :
    s.QueueStep (s.pass host device i) := by
  unfold pass
  dsimp only
  split
  · exact .same rfl fun _ => .refl _
  · split_ifs <;> exact .same rfl fun _ => .refl _
  · split
    · next job jobs hqueue =>
      exact .same rfl (sublist_update (by rw [hqueue]; exact List.sublist_cons_self _ _))
    · exact .same rfl fun _ => .refl _
  · exact .same rfl (sublist_update (List.nil_sublist _))
  · exact .same rfl fun _ => .refl _

theorem next_queueStep (host : Host) (s : System) (step : Step) :
    s.QueueStep (s.next host step) := by
  cases step with
  | advance n refresh => exact s.advance_queueStep host n refresh
  | work device i =>
      rw [System.next]
      rcases s.work_cases host device i with hw | ⟨instr, rest, htodo, hw⟩ | ⟨htodo, hw⟩
      · rw [hw]
        exact .same rfl fun _ => .refl _
      · obtain ⟨decoder, bootReopenAt, runtimes, -, hexecute⟩ :=
          s.execute_eq host device i instr rest
        rw [hw, hexecute]
        exact .same rfl fun _ => .refl _
      · rw [hw]
        exact s.pass_queueStep host device i
  | discover descriptor =>
      rw [System.next]
      rcases s.discover_cases descriptor with hold | ⟨-, hd⟩
      · rw [hold]
        exact .same rfl fun _ => .refl _
      · rw [hd]
        exact .same rfl (sublist_update (List.nil_sublist _))
  | setAvailability device availability =>
      simp only [System.next]
      split_ifs <;> exact .same rfl fun _ => .refl _
  | _ => exact .same rfl fun _ => .refl _

theorem Queued.next (h : s.Queued) (host : Host) (step : Step) : (s.next host step).Queued := by
  intro device
  cases s.next_queueStep host step with
  | same henqueued hqueues =>
      rw [henqueued]
      exact (hqueues device).trans (h device)
  | added e henqueued hqueues =>
      rw [henqueued, hqueues, List.filter_append, List.map_append]
      by_cases hd : device = e.device
      · subst hd
        rw [Function.update_self]
        simpa using (h e.device).append (.refl [e.job])
      · rw [Function.update_of_ne hd]
        exact (h device).trans (List.sublist_append_left _ _)

theorem Queued.entry (h : s.Queued) {device : DeviceId} {job : Job}
    (hjob : job ∈ s.queues device) : ∃ e ∈ s.enqueued, e.device = device ∧ e.job = job := by
  obtain ⟨e, he, rfl⟩ := List.mem_map.mp ((h device).mem hjob)
  obtain ⟨hmem, hdevice⟩ := List.mem_filter.mp he
  exact ⟨e, hmem, of_decide_eq_true hdevice, rfl⟩

theorem Queued.nodup (h : s.Queued) (hids : (s.enqueued.map fun e => e.job.id).Nodup)
    (device : DeviceId) : ((s.queues device).map (·.id)).Nodup := by
  refine ((h device).map _).nodup ?_
  rw [List.map_map]
  exact (List.filter_sublist.map _).nodup hids

theorem Queued.head_only (h : s.Queued) (hids : (s.enqueued.map fun e => e.job.id).Nodup)
    {device : DeviceId} {job : Job} {jobs : List Job} (hqueue : s.queues device = job :: jobs) :
    (∀ other ∈ jobs, other.id ≠ job.id) ∧
      ∀ d, d ≠ device → ∀ other ∈ s.queues d, other.id ≠ job.id := by
  constructor
  · have hnodup := h.nodup hids device
    rw [hqueue, List.map_cons] at hnodup
    exact fun other hother hsame => (List.nodup_cons.mp hnodup).1
      (hsame ▸ List.mem_map_of_mem hother)
  · intro d hd other hother hsame
    obtain ⟨e, he, hdevice, rfl⟩ := h.entry hother
    obtain ⟨e', he', hdevice', rfl⟩ := h.entry (hqueue ▸ List.mem_cons_self : job ∈ s.queues device)
    obtain rfl := List.inj_on_of_nodup_map hids he he' hsame
    exact hd (hdevice.symm.trans hdevice')

end System

/-- The completion of an exclusive action is among the instructions. -/
def Due (todo : List Instr) (id : String) (result : Result Value)
    (artifact : Option ArtifactRecord) : Prop :=
  ∃ hasReader, Instr.finishExclusive id result artifact hasReader ∈ todo

theorem not_due {todo : List Instr} (h : Lacks Instr.isExclusive todo) {id : String}
    {result : Result Value} {artifact : Option ArtifactRecord} : ¬ Due todo id result artifact :=
  fun ⟨_, hmem⟩ => by cases h _ hmem

namespace System
variable {s : System} {device : DeviceId} {id : String} {result : Result Value}
  {artifact : Option ArtifactRecord}

theorem Balanced.entry_of_due (h : s.Balanced)
    (hdue : Due (s.workers device).todo id result artifact) :
    ∃ e ∈ s.enqueued, e.device = device ∧ e.job.id = id ∧ s.store.isRunning id = true := by
  obtain ⟨hasReader, hmem⟩ := hdue
  have hplace : (s.workers device).place ≠ .exited := by
    intro hgone
    rw [h.gone device hgone] at hmem
    cases hmem
  have hduty : (id, none) ∈ (s.queues device).map Job.duty ++ (s.workers device).duties :=
    List.mem_append_right _ (List.mem_append_left _
      (List.mem_flatMap.mpr ⟨_, hmem, List.mem_singleton_self _⟩))
  obtain ⟨e, he, hdevice, hrunning, heq⟩ := (h.fits device hplace).entry hduty
  have hid : e.job.id = id := congrArg Prod.fst heq
  exact ⟨e, he, hdevice, hid, hid ▸ hrunning⟩

theorem Balanced.due_once (h : s.Balanced) (hids : (s.enqueued.map fun e => e.job.id).Nodup)
    {hasReader : Bool} {rest : List Instr}
    (htodo : (s.workers device).todo = .finishExclusive id result artifact hasReader :: rest)
    {d : DeviceId} {id' : String} {result' : Result Value} {artifact' : Option ArtifactRecord}
    (hdue : Due (if d = device then rest else (s.workers d).todo) id' result' artifact') :
    id' ≠ id := by
  split_ifs at hdue with hd
  · obtain ⟨-, hfits⟩ := h.fits_todo htodo
    obtain ⟨hasReader', hmem⟩ := hdue
    have hperm := hfits.perm.map Prod.fst
    rw [List.map_map] at hperm
    have hnodup : ((live s.store s.enqueued device).map (·.id)).Nodup := by
      rw [live, List.map_map]
      exact (List.filter_sublist.map _).nodup hids
    have hnext := (List.nodup_cons.mp (hperm.nodup_iff.mp hnodup)).1
    rintro rfl
    have hduty : (id', none) ∈ ({ s.workers device with todo := rest } : Worker).duties :=
      List.mem_append_left _ (List.mem_flatMap.mpr ⟨_, hmem, List.mem_singleton_self _⟩)
    exact hnext (List.mem_map_of_mem (f := Prod.fst)
      (List.mem_append_right _ (List.mem_append_right _ hduty)))
  · rintro rfl
    obtain ⟨e, he, hdevice, hid, -⟩ := h.entry_of_due ⟨hasReader, htodo ▸ List.mem_cons_self⟩
    obtain ⟨e', he', hdevice', hid', -⟩ := h.entry_of_due hdue
    obtain rfl := List.inj_on_of_nodup_map hids he he' (hid.trans hid'.symm)
    exact hd (hdevice'.symm.trans hdevice)

end System

namespace Worker
open ReadArtifacts
variable {host : Host} {w : Worker} {job : Job} {i : Inputs}
  {outcome : Value × Option ArtifactRecord}

theorem hardware_ok (hmonitor : job.action.isMonitor = false)
    (h : (w.hardware host job i).2.2 = .ok outcome) :
    i.ensureAvailable.2 = .ok () ∧ (w.operate host job i).2.2 = .ok outcome := by
  unfold hardware ready at h
  simp only [hmonitor, Bool.false_and, Bool.false_eq_true, false_and, if_false] at h
  cases hfound : i.ensureAvailable with
  | mk found available =>
      rw [hfound] at h
      cases available with
      | error e => cases h
      | ok u => exact ⟨rfl, h⟩

theorem operate_ok (h : (w.operate host job i).2.2 = .ok outcome) :
    i.openDevice = .ok () ∧ (perform host job i).2 = .ok outcome := by
  unfold operate at h
  cases hopen : i.openDevice with
  | error e =>
      rw [hopen] at h
      cases h
  | ok u =>
      refine ⟨rfl, ?_⟩
      rw [hopen] at h
      dsimp only at h
      cases hperform : perform host job i with
      | mk events result =>
          rw [hperform] at h
          cases result with
          | error e => cases h
          | ok outcome' =>
              dsimp only at h
              split_ifs at h
              · cases hmonitor : i.intoMonitor with
                | error e =>
                    rw [hmonitor] at h
                    cases h
                | ok u =>
                    rw [hmonitor] at h
                    exact h
              · exact h

theorem perform_read (hread : job.action.isRead = true)
    (h : (perform host job i).2 = .ok outcome) :
    i.createArtifact = .ok () ∧ ∃ metadata, i.inspectArtifact = .ok metadata ∧
      outcome.2 = some ⟨metadata, artifactFile host job.id⟩ := by
  obtain ⟨id, request, action⟩ := job
  cases action with
  | readFlash offset size baud =>
      obtain ⟨u, hcreate, h⟩ := result_bind h
      obtain ⟨info, -, h⟩ := result_bind h
      obtain ⟨metadata, hinspect, h⟩ := result_bind h
      obtain ⟨-, h⟩ := ensure_bind h
      obtain rfl := Except.ok.inj h
      exact ⟨hcreate, metadata, hinspect, rfl⟩
  | _ => cases hread

theorem perform_other (hread : job.action.isRead = false)
    (h : (perform host job i).2 = .ok outcome) : outcome.2 = none := by
  obtain ⟨id, request, action⟩ := job
  unfold perform at h
  cases action with
  | readFlash offset size baud => cases hread
  | probe =>
      obtain ⟨info, -, h⟩ := result_bind h
      obtain rfl := Except.ok.inj h
      rfl
  | eraseFlash baud =>
      obtain ⟨info, -, h⟩ := result_bind h
      obtain rfl := Except.ok.inj h
      rfl
  | flash baud warnings =>
      obtain ⟨info, -, h⟩ := result_bind h
      split_ifs at h
      · obtain rfl := Except.ok.inj h
        rfl
      · cases info with
        | object fields =>
            obtain rfl := Except.ok.inj h
            rfl
        | _ => cases h
  | _ =>
      obtain rfl := Except.ok.inj h
      rfl

/-- A read that succeeds has created its file and looked at it. -/
theorem hardware_read (hread : job.action.isRead = true)
    (h : (w.hardware host job i).2.2 = .ok outcome) :
    createsFile i job.action = true ∧ ∃ metadata, i.inspectArtifact = .ok metadata ∧
      outcome.2 = some ⟨metadata, artifactFile host job.id⟩ := by
  have hmonitor : job.action.isMonitor = false := by
    cases haction : job.action <;> simp_all [Action.isRead, Action.isMonitor]
  obtain ⟨havailable, h⟩ := hardware_ok hmonitor h
  obtain ⟨hopen, h⟩ := operate_ok h
  obtain ⟨hcreate, hartifact⟩ := perform_read hread h
  refine ⟨?_, hartifact⟩
  rw [createsFile, hread, havailable, hopen, hcreate]
  rfl

theorem hardware_other (hread : job.action.isRead = false)
    (h : (w.hardware host job i).2.2 = .ok outcome) : outcome.2 = none := by
  cases hmonitor : job.action.isMonitor with
  | false => exact perform_other hread (operate_ok (hardware_ok hmonitor h).2).2
  | true =>
      unfold hardware at h
      dsimp only at h
      split at h
      · cases h
      · split_ifs at h
        · obtain rfl := Except.ok.inj h
          rfl
        · exact perform_other hread (operate_ok h).2

theorem exclusive_todo (host : Host) (w : Worker) (job : Job) (i : Inputs) :
    ∃ (w' : Worker) (events : List Instr) (hasReader : Bool), Lacks Instr.isExclusive events ∧
      (w.exclusive host job i).todo = events ++
        [.finishExclusive job.id ((w'.hardware host job i).2.2.map Prod.fst)
          ((w'.hardware host job i).2.2.toOption.bind Prod.snd) hasReader] := by
  have hevents := leftByReads_exclusive.toLeftByWorkers
  unfold exclusive
  dsimp only
  exact ⟨_, _, _, List.forall_mem_append.mpr
    ⟨forall_mem_ite (hevents.disconnected _), hevents.hardware host _ job i⟩, rfl⟩

/-- What an exclusive action leaves to be recorded of itself and of its file. -/
theorem exclusive_due (host : Host) (w : Worker) (job : Job) (i : Inputs) :
    ∃ result artifact, Due (w.exclusive host job i).todo job.id result artifact ∧
      (∀ id result' artifact', Due (w.exclusive host job i).todo id result' artifact' →
        id = job.id ∧ result' = result ∧ artifact' = artifact) ∧
      ((∃ e, result = .error e ∧ artifact = none) ∨
        ∃ value, result = .ok value ∧
          if job.action.isRead then
            createsFile i job.action = true ∧ ∃ metadata, i.inspectArtifact = .ok metadata ∧
              artifact = some ⟨metadata, artifactFile host job.id⟩
          else artifact = none) := by
  obtain ⟨w', events, hasReader, hlacks, htodo⟩ := exclusive_todo host w job i
  refine ⟨(w'.hardware host job i).2.2.map Prod.fst,
    (w'.hardware host job i).2.2.toOption.bind Prod.snd, ⟨hasReader, ?_⟩, ?_, ?_⟩
  · rw [htodo]
    exact List.mem_append_right _ (List.mem_singleton_self _)
  · rintro id result' artifact' ⟨hasReader', hmem⟩
    rw [htodo] at hmem
    rcases List.mem_append.mp hmem with hmem | hmem
    · cases hlacks _ hmem
    · cases List.mem_singleton.mp hmem
      exact ⟨rfl, rfl, rfl⟩
  · cases hresult : (w'.hardware host job i).2.2 with
    | error e => exact .inl ⟨e, rfl, rfl⟩
    | ok outcome =>
        refine .inr ⟨outcome.1, rfl, ?_⟩
        split_ifs with hread
        · exact hardware_read hread hresult
        · exact hardware_other (by simpa using hread) hresult

end Worker

namespace System
variable {host : Host} {s : System}

/-- Only a worker's turn changes what completions are due. -/
theorem due_next (host : Host) (hconsistent : s.Consistent) (hbalanced : s.Balanced) {step : Step}
    (hstep : ∀ device i, step ≠ .work device i) (d : DeviceId) (id : String)
    (result : Result Value) (artifact : Option ArtifactRecord) :
    Due ((s.next host step).workers d).todo id result artifact ↔
      Due (s.workers d).todo id result artifact := by
  by_cases hknown : d ∈ s.devices
  · rcases s.next_worker_cases host hknown step with
        hsame | ⟨i, instr, rest, decoder, bootReopenAt, hwork, -⟩ | ⟨i, hwork, -⟩
    · rw [hsame]
    · exact absurd hwork (hstep d i)
    · exact absurd hwork (hstep d i)
  · rcases s.next_worker_of_unknown host hknown step with hsame | hnew
    · rw [hsame]
    · rw [hnew]
      refine ⟨fun hdue => absurd hdue (not_due .nil), fun hdue => ?_⟩
      obtain ⟨e, he, rfl, -⟩ := hbalanced.entry_of_due hdue
      exact absurd (hconsistent.retained.known e he) hknown

theorem artifacts_advance (host : Host) (s : System) (n : ℕ) (refresh : Refresh) :
    (s.advance host n refresh).store.artifacts =
      match s.submissions[n]? with
      | none => s.store.artifacts
      | some sub =>
          if s.admits host sub then
            (s.store.cleared host sub.request.deviceId sub.action).artifacts
          else s.store.artifacts := by
  unfold advance
  cases s.submissions[n]? with
  | none => rfl
  | some sub =>
      dsimp only
      rcases s.proceed_cases host sub refresh with
          ⟨hadmits, hp | ⟨descriptor, hp⟩ | ⟨availability, hp⟩⟩ | ⟨descriptor, hphase, hcheck, hp⟩
      · rw [hp, hadmits]
        rfl
      · rw [hp, hadmits]
        rfl
      · rw [hp, hadmits]
        rfl
      · have hadmits : s.admits host sub = s.starts host sub := by
          rw [admits, hphase]
          dsimp only
          rw [hcheck]
          rfl
        rw [hp, hadmits]
        unfold tryStart starts
        cases s.store.replay sub.identity with
        | error e => rfl
        | ok found =>
            cases found with
            | some op => rfl
            | none =>
                dsimp only
                cases haccept : s.store.accept host sub.request.deviceId sub.action
                    sub.identity with
                | error e => rfl
                | ok r =>
                    obtain ⟨accepted, op⟩ := r
                    obtain ⟨-, rfl, rfl⟩ := Store.accept_cases haccept
                    refine Eq.trans ?_ (if_pos rfl).symm
                    dsimp only
                    split_ifs <;> rfl

open ReadArtifacts in
/-- An artifact stays listed if its file is not removed, and only files of artifacts are. -/
theorem artifacts_next (h : s.store.Filed host) {step : Step}
    (hstep : ∀ device i, step ≠ .work device i) :
    (∀ id r, (s.next host step).store.artifacts id = some r ↔
      s.store.artifacts id = some r ∧ r.path ∉ evictedFiles host s step) ∧
      ∀ p ∈ evictedFiles host s step, ∃ id r, s.store.artifacts id = some r ∧ r.path = p := by
  cases step with
  | work device i => exact absurd rfl (hstep device i)
  | advance n refresh =>
      rw [System.next, artifacts_advance]
      dsimp only [evictedFiles]
      cases s.submissions[n]? with
      | none => simp
      | some sub =>
          dsimp only
          split_ifs
          · have hoccupied :
                (s.store.occupy host sub.request.deviceId sub.action).Filed host := h
            exact hoccupied.artifacts_makeRoom s.store.operations.length
          · simp
  | discover descriptor =>
      rw [System.next]
      rcases s.discover_cases descriptor with hold | ⟨-, hd⟩
      · rw [hold]
        simp [evictedFiles]
      · rw [hd]
        simp [evictedFiles, Store.modifyDevice]
  | setAvailability device availability =>
      simp only [System.next]
      split_ifs <;> simp [evictedFiles, setAvailability, Store.modifyDevice]
  | _ => simp [evictedFiles, System.next, describe]

theorem todo_execute (host : Host) (s : System) (device : DeviceId) (i : Inputs) (instr : Instr)
    (rest : List Instr) (d : DeviceId) :
    ((s.execute host device i instr rest).workers d).todo =
      if d = device then rest else (s.workers d).todo := by
  obtain ⟨decoder, bootReopenAt, runtimes, -, hexecute⟩ := s.execute_eq host device i instr rest
  rw [hexecute]
  dsimp only
  split_ifs with hd
  · subst hd
    rw [setWorker_self]
  · rw [setWorker_of_ne _ _ hd]

theorem store_execute (host : Host) (s : System) (device : DeviceId) (i : Inputs) (instr : Instr)
    (rest : List Instr) : (s.execute host device i instr rest).store =
      (Worker.exec host device i s.store { s.workers device with todo := rest } instr).1 := by
  obtain ⟨decoder, bootReopenAt, runtimes, -, hexecute⟩ := s.execute_eq host device i instr rest
  rw [hexecute]

theorem due_cases {device : DeviceId} {instr : Instr} {rest : List Instr}
    (htodo : (s.workers device).todo = instr :: rest) {d : DeviceId} {id : String}
    {result : Result Value} {artifact : Option ArtifactRecord} :
    Due (s.workers d).todo id result artifact ↔
      (d = device ∧ ∃ hasReader, instr = .finishExclusive id result artifact hasReader) ∨
        Due (if d = device then rest else (s.workers d).todo) id result artifact := by
  split_ifs with hd
  · subst hd
    unfold Due
    simp only [htodo, List.mem_cons, exists_or, true_and, eq_comm]
  · simp [hd]

theorem pass_workers_of_ne (host : Host) (s : System) {device d : DeviceId} (i : Inputs)
    (hd : d ≠ device) : (s.pass host device i).workers d = s.workers d := by
  unfold pass
  dsimp only
  split
  · exact setWorker_of_ne _ _ hd
  · split_ifs <;> exact setWorker_of_ne _ _ hd
  · split
    · exact setWorker_of_ne _ _ hd
    · exact setWorker_of_ne _ _ hd
  · exact setWorker_of_ne _ _ hd
  · rfl

open ReadArtifacts in
theorem pass_lacks (host : Host) {device : DeviceId} (i : Inputs)
    (hknown : (s.runtimes.lookup device).isNone = false) (htodo : (s.workers device).todo = [])
    (hnone : takenJob s device = none) :
    Lacks Instr.isExclusive ((s.pass host device i).workers device).todo := by
  have hold : Lacks Instr.isExclusive (s.workers device).todo := htodo ▸ .nil
  unfold takenJob at hnone
  unfold pass
  dsimp only
  cases hplace : (s.workers device).place with
  | head =>
      dsimp only
      rw [setWorker_self]
      exact leftByReads_exclusive.toLeftByWorkers.abandon htodo
  | test =>
      dsimp only
      split_ifs <;> rw [setWorker_self] <;> exact hold
  | receive =>
      rw [hknown, htodo, hplace] at hnone
      rw [List.head?_eq_none_iff.mp hnone]
      dsimp only
      rw [setWorker_self]
      exact leftByReads_exclusive.idle host _ i htodo
  | leaving =>
      dsimp only
      rw [setWorker_self]
      exact hold
  | exited => exact hold

/-- What is known of a pass that takes a job. -/
structure Takes (host : Host) (s : System) (device : DeviceId) (job : Job) (jobs : List Job)
    (i : Inputs) : Prop where
  todo : (s.workers device).todo = []
  queue : s.queues device = job :: jobs
  next : s.next host (.work device i) =
    { s.setWorker device { (s.workers device).serve host job i with place := .head } with
      queues := Function.update s.queues device jobs }

open ReadArtifacts in
theorem takes (host : Host) {device : DeviceId} {job : Job} (h : takenJob s device = some job)
    (i : Inputs) : ∃ jobs, s.Takes host device job jobs i := by
  unfold takenJob at h
  split_ifs at h with hknown
  split at h
  · next htodo hplace =>
    cases hqueue : s.queues device with
    | nil =>
        rw [hqueue] at h
        cases h
    | cons job' jobs =>
        rw [hqueue] at h
        cases h
        refine ⟨jobs, htodo, hqueue, ?_⟩
        rw [System.next, work, if_neg hknown, htodo]
        dsimp only
        rw [pass, hplace]
        dsimp only
        rw [hqueue]
  · cases h

/-- The daemon's books, with its queues. -/
structure Booked (s : System) : Prop where
  consistent : s.Consistent
  balanced : s.Balanced
  kept : s.Kept
  queued : s.Queued

namespace Booked

theorem init (epoch : String) (runtimes : List (DeviceId × DeviceDescriptor)) :
    (System.init epoch runtimes).Booked where
  consistent := .init epoch runtimes
  balanced := .init epoch runtimes
  kept := .init epoch runtimes
  queued _ := .refl _

theorem next (h : s.Booked) (host : Host) (step : Step) : (s.next host step).Booked where
  consistent := h.consistent.next step
  balanced := h.balanced.next h.consistent.retained step
  kept := h.kept.next h.consistent h.balanced host step
  queued := h.queued.next host step

theorem unlisted (h : s.Booked) {device : DeviceId} {id : String} {result : Result Value}
    {artifact : Option ArtifactRecord} (hdue : Due (s.workers device).todo id result artifact) :
    s.store.artifacts id = none := by
  obtain ⟨-, -, -, -, hrunning⟩ := h.balanced.entry_of_due hdue
  exact h.kept.archived.artifacts_of_isRunning h.consistent.retained.ids hrunning

end Booked
end System

end IdfRemote
