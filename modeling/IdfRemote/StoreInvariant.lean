import IdfRemote.StoreSteps
import IdfRemote.Grouping

/-!
# What the store keeps

Operations, request keys and artifacts are kept in three places that change in
different sections of the lock. An artifact is there exactly for a retained
operation that has one, a device has no more than two operations running, whether
its worker is there or not, and room is made before an operation is added, so that
the number of operations is bounded by the number of devices.
-/
namespace IdfRemote

/-- The artifacts are those of the retained operations, and only a success has one. -/
structure Archived (s : Store) : Prop where
  succeeded : ∀ op ∈ s.operations, op.status ≠ .succeeded → op.artifact = none
  artifacts : ∀ id metadata, (s.artifacts id).map (·.metadata) = some metadata ↔
    ∃ op ∈ s.operations, op.id = id ∧ op.artifact = some metadata

theorem operation_of_isRunning {s : Store} {id : String} (h : s.isRunning id = true) :
    ∃ op ∈ s.operations, op.id = id ∧ op.status = .running := by
  obtain ⟨op, hop, hmatch⟩ := List.any_eq_true.mp h
  simp only [Operation.isRunning, Bool.and_eq_true, decide_eq_true_eq] at hmatch
  exact ⟨op, hop, hmatch⟩

theorem Fits.isRunning {s : Store} {enqueued : List Enqueued} {device : DeviceId}
    {duties : List Duty} (h : Fits s enqueued device duties) {id : String} {lane : Option Lane}
    (hduty : (id, lane) ∈ duties) : s.isRunning id = true := by
  obtain ⟨e, -, -, hrunning, heq⟩ := h.entry hduty
  rwa [show e.job.id = id from congrArg Prod.fst heq] at hrunning

/-- How a completion changes a running operation to one with this artifact. -/
structure Archives (finish : Operation → Operation) (record : Option ArtifactRecord) : Prop where
  id : ∀ op, (finish op).id = op.id
  artifact : ∀ op, op.artifact = none → (finish op).artifact = record.map (·.metadata)
  succeeded : ∀ op, (finish op).status ≠ .succeeded → record = none

theorem archives_finish (result : Result Value) : Archives (·.finish result) none where
  id _ := by cases result <;> rfl
  artifact op h := by cases result <;> exact h
  succeeded _ _ := rfl

/-- The artifact that an exclusive action leaves. -/
def archivedBy (result : Result Value) (artifact : Option ArtifactRecord) :
    Option ArtifactRecord :=
  match result with
  | .ok _ => artifact
  | .error _ => none

theorem archives_finished (result : Result Value) (artifact : Option ArtifactRecord) :
    Archives (Store.finished result artifact) (archivedBy result artifact) where
  id _ := by cases result <;> rfl
  artifact op h := by
    cases result with
    | ok value => rfl
    | error e => exact h
  succeeded op h := by
    cases result with
    | ok value => exact absurd rfl h
    | error e => rfl

namespace Archived
variable {s s' : Store}

theorem new (epoch : String) (status : DeviceId → DeviceStatus) :
    Archived (.new epoch status) where
  succeeded _ h := by cases h
  artifacts _ _ := by simp [Store.new]

theorem touch (h : Archived s) (hs : s.Touches s') : Archived s' := by
  rw [Store.Touches] at hs
  rw [hs]
  exact ⟨h.succeeded, h.artifacts⟩

theorem expire (h : Archived s) (hids : (s.tickets.map Ticket.id).Nodup) : Archived s.expire := by
  rcases s.expire_cases with ⟨-, hsame⟩ | ⟨front, expired, back, hsplit, -, hstate⟩
  · rwa [hsame]
  · have hsub : (front ++ back).Sublist s.operations := by
      rw [hsplit]
      exact List.Sublist.append_left (List.sublist_cons_self _ _) front
    have hother : ∀ op ∈ front ++ back, op.id ≠ expired.id := by
      intro op hop hid
      rw [Store.tickets, List.map_map, hsplit, List.map_append, List.map_cons] at hids
      have hperm := List.perm_middle.nodup_iff.mp hids
      rw [← List.map_append] at hperm
      apply (List.nodup_cons.mp hperm).1
      exact List.mem_map.mpr ⟨op, hop, hid⟩
    rw [hstate]
    constructor
    · exact fun op hop => h.succeeded op (hsub.mem hop)
    · intro id metadata
      dsimp only
      by_cases hid : id = expired.id
      · subst hid
        rw [Function.update_self]
        constructor
        · intro hnone
          cases hnone
        · rintro ⟨op, hop, hid, -⟩
          exact absurd hid (hother op hop)
      · rw [Function.update_of_ne hid, h.artifacts, hsplit]
        constructor
        · rintro ⟨op, hop, hop_id, hartifact⟩
          rcases List.mem_append.mp hop with hop | hop
          · exact ⟨op, List.mem_append_left _ hop, hop_id, hartifact⟩
          · rcases List.mem_cons.mp hop with rfl | hop
            · exact absurd hop_id.symm hid
            · exact ⟨op, List.mem_append_right _ hop, hop_id, hartifact⟩
        · rintro ⟨op, hop, hop_id⟩
          exact ⟨op, hsplit ▸ hsub.mem hop, hop_id⟩

theorem makeRoom (fuel : ℕ) (h : Archived s) (hids : (s.tickets.map Ticket.id).Nodup)
    (hkeys : (s.tickets.map Ticket.key).Nodup) : Archived (s.makeRoom fuel) := by
  induction fuel generalizing s with
  | zero => exact h
  | succ fuel ih =>
      unfold Store.makeRoom
      split_ifs
      · have hsheds := s.expire_sheds hkeys
        exact ih (h.expire hids) ((hsheds.tickets.map _).nodup hids)
          ((hsheds.tickets.map _).nodup hkeys)
      · exact h

theorem push (h : Archived s) (op : Operation) (hop : op.artifact = none) (fingerprint : String) :
    Archived (s.push op fingerprint) where
  succeeded o ho hstatus := by
    rcases List.mem_append.mp ho with ho | ho
    · exact h.succeeded o ho hstatus
    · rw [List.mem_singleton.mp ho]
      exact hop
  artifacts id metadata := by
    refine (h.artifacts id metadata).trans ?_
    constructor
    · rintro ⟨o, ho, hid, hartifact⟩
      exact ⟨o, List.mem_append_left _ ho, hid, hartifact⟩
    · rintro ⟨o, ho, hid, hartifact⟩
      rcases List.mem_append.mp ho with ho | ho
      · exact ⟨o, ho, hid, hartifact⟩
      · rw [List.mem_singleton.mp ho, hop] at hartifact
        cases hartifact

theorem complete (h : Archived s) (hids : (s.tickets.map Ticket.id).Nodup) {id : String}
    (hrunning : s.isRunning id = true) {finish : Operation → Operation}
    {record : Option ArtifactRecord} (hfinish : Archives finish record) :
    Archived { s with
      operations := updateFirst (fun op => op.id = id) finish s.operations
      artifacts := Function.update s.artifacts id record } := by
  rw [Store.tickets, List.map_map] at hids
  obtain ⟨op, hop, hid, hstatus⟩ := operation_of_isRunning hrunning
  have hnone : op.artifact = none := h.succeeded op hop (by rw [hstatus]; decide)
  have honly : ∀ o ∈ s.operations, o.id = id → o = op := fun o ho hsame =>
    List.inj_on_of_nodup_map hids ho hop (hsame.trans hid.symm)
  rw [updateFirst_eq_map hids]
  constructor
  · intro o ho hnot
    obtain ⟨before, hbefore, rfl⟩ := List.mem_map.mp ho
    split_ifs at hnot ⊢ with hsame
    · rw [honly before hbefore hsame, hfinish.artifact op hnone,
        hfinish.succeeded before hnot]
      rfl
    · exact h.succeeded before hbefore hnot
  · intro j metadata
    dsimp only
    by_cases hj : j = id
    · subst hj
      rw [Function.update_self, ← hfinish.artifact op hnone]
      constructor
      · intro hmetadata
        refine ⟨finish op, List.mem_map.mpr ⟨op, hop, if_pos hid⟩, ?_, hmetadata⟩
        rw [hfinish.id, hid]
      · rintro ⟨o, ho, hoid, hartifact⟩
        obtain ⟨before, hbefore, rfl⟩ := List.mem_map.mp ho
        split_ifs at hoid hartifact with hsame
        · rwa [honly before hbefore hsame] at hartifact
        · exact absurd hoid hsame
    · rw [Function.update_of_ne hj, h.artifacts]
      constructor
      · rintro ⟨o, ho, hoid, hartifact⟩
        refine ⟨o, List.mem_map.mpr ⟨o, ho, if_neg ?_⟩, hoid, hartifact⟩
        exact fun hsame => hj (hoid.symm.trans hsame)
      · rintro ⟨o, ho, hoid, hartifact⟩
        obtain ⟨before, hbefore, rfl⟩ := List.mem_map.mp ho
        split_ifs at hoid hartifact with hsame
        · rw [hfinish.id] at hoid
          exact absurd (hoid.symm.trans hsame) hj
        · exact ⟨before, hbefore, hoid, hartifact⟩

theorem artifact_iff (h : Archived s) (id : String) (metadata : ArtifactMetadata) :
    (s.artifacts id).map (·.metadata) = some metadata ↔ ∃ op ∈ s.operations,
      op.id = id ∧ op.status = .succeeded ∧ op.artifact = some metadata := by
  rw [h.artifacts]
  constructor
  · rintro ⟨op, hop, hid, hartifact⟩
    refine ⟨op, hop, hid, ?_, hartifact⟩
    by_contra hnot
    rw [h.succeeded op hop hnot] at hartifact
    cases hartifact
  · rintro ⟨op, hop, hid, -, hartifact⟩
    exact ⟨op, hop, hid, hartifact⟩

/-- A running operation has no artifact yet. -/
theorem artifacts_of_isRunning (h : Archived s) (hids : (s.tickets.map Ticket.id).Nodup)
    {id : String} (hrunning : s.isRunning id = true) : s.artifacts id = none := by
  rw [Store.tickets, List.map_map] at hids
  obtain ⟨op, hop, hid, hstatus⟩ := operation_of_isRunning hrunning
  cases hartifact : s.artifacts id with
  | none => rfl
  | some record =>
      have hmetadata : (s.artifacts id).map (·.metadata) = some record.metadata := by
        rw [hartifact]
        rfl
      obtain ⟨o, ho, hoid, hosome⟩ := (h.artifacts id record.metadata).mp hmetadata
      obtain rfl := List.inj_on_of_nodup_map hids ho hop (hoid.trans hid.symm)
      rw [h.succeeded o ho (by rw [hstatus]; decide)] at hosome
      cases hosome

theorem conclude (host : Host) (device : DeviceId) {id : String} {finish : Operation → Operation}
    {record : Option ArtifactRecord} (complete : DeviceState → DeviceState) (h : Archived s)
    (hids : (s.tickets.map Ticket.id).Nodup) (hrunning : s.isRunning id = true)
    (hfinish : Archives finish record) :
    Archived (({ s with artifacts := Function.update s.artifacts id record } : Store).conclude
      host device id finish complete) := by
  have hcomplete := h.complete hids hrunning hfinish
  obtain ⟨op, hop, hid, -⟩ := operation_of_isRunning hrunning
  unfold Store.conclude
  dsimp only
  cases hfind : s.operations.find? fun op => op.id = id with
  | none =>
      have hnot := List.find?_eq_none.mp hfind op hop
      simp [hid] at hnot
  | some op => exact hcomplete.touch rfl

variable {enqueued : List Enqueued} {device : DeviceId} {duties : List Duty}
  {devices : List DeviceId}

theorem finishCompletion (host : Host) (h : Archived s) (hretained : Retained s devices enqueued)
    (c : Completion) (hasReader : Bool)
    (hfits : Fits s enqueued device (streamDuty (c.key, c.lane) :: duties)) :
    Archived (s.finishCompletion host device hasReader c) := by
  have hrunning : s.isRunning c.key = true := hfits.isRunning List.mem_cons_self
  have hconclude := h.conclude host device (·.completeStream c.lane hasReader) hretained.ids
    hrunning (archives_finish c.result)
  rwa [← h.artifacts_of_isRunning hretained.ids hrunning, Function.update_eq_self] at hconclude

theorem finishStream (host : Host) (h : Archived s) (hretained : Retained s devices enqueued)
    (done : List Completion) (hasReader : Bool)
    (hfits : Fits s enqueued device ((Completion.discharges done).map streamDuty ++ duties)) :
    Archived (s.finishStream host device done hasReader) := by
  induction done generalizing s with
  | nil => exact h
  | cons c done ih =>
      exact ih (h.finishCompletion host hretained c hasReader hfits)
        (hretained.evolve (s.evolves_finishCompletion host device hasReader c))
        (hfits.finishCompletion host hretained c hasReader).own

theorem finishExclusive (host : Host) (h : Archived s) (hretained : Retained s devices enqueued)
    {id : String} (result : Result Value) (artifact : Option ArtifactRecord) (hasReader : Bool)
    (hfits : Fits s enqueued device ((id, none) :: duties)) :
    Archived (s.finishExclusive host device id result artifact hasReader) := by
  have hrunning : s.isRunning id = true := hfits.isRunning List.mem_cons_self
  have hconclude := h.conclude host device (·.completeExclusive result.isOk hasReader)
    hretained.ids hrunning (archives_finished result artifact)
  have hkeep : s.keepArtifact id result artifact =
      { s with artifacts := Function.update s.artifacts id (archivedBy result artifact) } := by
    have hnone := h.artifacts_of_isRunning hretained.ids hrunning
    unfold Store.keepArtifact archivedBy
    cases result with
    | ok value =>
        cases artifact with
        | some record => rfl
        | none => simp only [← hnone, Function.update_eq_self]
    | error e => simp only [← hnone, Function.update_eq_self]
  rwa [← hkeep] at hconclude

theorem exec (host : Host) (h : Archived s) (hretained : Retained s devices enqueued)
    (i : Inputs) (w : Worker) (instr : Instr)
    (hfits : Fits s enqueued device (instr.duties ++ duties)) :
    Archived (Worker.exec host device i s w instr).1 := by
  cases instr with
  | finishStream done hasReader => exact h.finishStream host hretained done hasReader hfits
  | finishExclusive id result artifact hasReader =>
      exact h.finishExclusive host hretained result artifact hasReader hfits
  | _ => exact h.touch (Worker.exec_touches host device i s w rfl).1

end Archived

section
variable {s accepted : Store} {host : Host} {device : DeviceId} {action : Action}
  {identity : RequestIdentity} {op : Operation} {devices : List DeviceId}
  {enqueued : List Enqueued} (h : Archived s) (hretained : Retained s devices enqueued)
include h hretained

theorem Archived.cleared (host : Host) (device : DeviceId) (action : Action) :
    Archived (s.cleared host device action) := by
  have hoccupy := hretained.evolve (s.occupy_evolves host device action)
  have htouch : s.Touches (s.occupy host device action) := rfl
  exact (h.touch htouch).makeRoom s.operations.length hoccupy.ids hoccupy.keys

theorem Archived.accept (haccept : s.accept host device action identity = .ok (accepted, op)) :
    Archived accepted := by
  obtain ⟨-, rfl, rfl⟩ := Store.accept_cases haccept
  have hpush := (h.cleared hretained host device action).push
    ((s.occupy host device action).started device identity) rfl identity.fingerprint
  exact hpush.touch rfl

theorem Archived.withdraw (hreplay : s.replay identity = .ok none)
    (haccept : s.accept host device action identity = .ok (accepted, op)) :
    Archived (accepted.withdraw device action identity) := by
  obtain ⟨-, rfl, rfl⟩ := Store.accept_cases haccept
  rw [Store.withdraw_push _ device action identity _ rfl
    (hretained.idempotency_cleared host device action hreplay)]
  exact (h.cleared hretained host device action).touch rfl

end

theorem Occupancy.leave {state : DeviceState} {actions : List Action}
    (h : Occupancy state actions) {a : Action}
    (hjoin : (state.busy && !state.compatible a) = false) :
    Occupancy (((state.occupy a).setActivity .busy).release a) actions := by
  cases h with
  | idle hbusy happ hinput =>
      apply Occupancy.idle <;>
        simp [DeviceState.release, DeviceState.occupy, DeviceState.setActivity, happ, hinput]
  | exclusive action hcommand hwrite hbusy happ hinput =>
      simp [DeviceState.compatible, hbusy, happ, hinput] at hjoin
  | streams _ hne hlanes hcommand hwrite hbusy happ hinput =>
      have hcompatible : state.compatible a = true := by simpa [hbusy] using hjoin
      simp only [DeviceState.compatible, Bool.or_eq_true, Bool.and_eq_true,
        Bool.not_eq_true'] at hcompatible
      have hstreams := Occupancy.streams actions hne hlanes hcommand hwrite hbusy happ hinput
      rcases hcompatible with ⟨⟨ha, hi⟩, hfree⟩ | ⟨⟨ha, hi⟩, hfree⟩
      · have hlane := Action.inputLane_of_appLane ha
        apply hstreams.congr <;>
          simp [DeviceState.release, DeviceState.occupy, DeviceState.setActivity, ha, hi, hfree,
            hlane, hbusy]
      · have hlane := Action.appLane_of_inputLane ha
        apply hstreams.congr <;>
          simp [DeviceState.release, DeviceState.occupy, DeviceState.setActivity, ha, hi, hfree,
            hlane, hbusy]

/-- The flags of every device tell its running operations, whether or not it has a worker. -/
def Occupied (s : Store) (enqueued : List Enqueued) : Prop :=
  ∀ device, Occupancy (s.devices device) ((live s enqueued device).map (·.action))

namespace Occupied
variable {s s' : Store} {enqueued : List Enqueued} {devices : List DeviceId}

theorem fits (h : Occupied s enqueued) (device : DeviceId) :
    Fits s enqueued device ((live s enqueued device).map Job.duty) := ⟨.refl _, h device⟩

theorem settle (h : Occupied s enqueued) (hs : s.Settled s') : Occupied s' enqueued :=
  fun device => ((h.fits device).settle hs).occupancy

theorem exec (h : Occupied s enqueued) (host : Host) (hretained : Retained s devices enqueued)
    {device : DeviceId} (i : Inputs) (w : Worker) (instr : Instr) {duties : List Duty}
    (hfits : Fits s enqueued device (instr.duties ++ duties)) :
    Occupied (Worker.exec host device i s w instr).1 enqueued := by
  have hexec := hfits.exec host hretained i w instr
  intro d
  by_cases hd : d = device
  · subst hd
    exact hexec.own.occupancy
  · exact (hexec.other d hd _ (h.fits d)).occupancy

variable {host : Host} {device : DeviceId} {action : Action} {identity : RequestIdentity}
  {accepted : Store} {op : Operation}

theorem accept (h : Occupied s enqueued) (hretained : Retained s devices enqueued)
    (haccept : s.accept host device action identity = .ok (accepted, op)) {e : Enqueued}
    (hid : e.job.id = op.id) (hdevice : e.device = device) (haction : e.job.action = action) :
    Occupied accepted (enqueued ++ [e]) := by
  intro d
  by_cases hd : d = device
  · subst hd
    exact (Fits.accept hretained haccept (h.fits d) hid hdevice haction).1.occupancy
  · exact (Fits.accept_other hretained haccept hd (h.fits d) hid hdevice).occupancy

theorem withdraw (h : Occupied s enqueued) (hretained : Retained s devices enqueued)
    (hreplay : s.replay identity = .ok none)
    (haccept : s.accept host device action identity = .ok (accepted, op)) :
    Occupied (accepted.withdraw device action identity) enqueued := by
  intro d
  by_cases hd : d = device
  · subst hd
    obtain ⟨hjoin, rfl, rfl⟩ := Store.accept_cases haccept
    rw [Store.withdraw_push _ d action identity _ rfl
      (hretained.idempotency_cleared host d action hreplay)]
    obtain ⟨kind, data, hstate⟩ := devices_cleared_self hretained host d action
    have hlive : live ((s.cleared host d action).modifyDevice d fun state =>
        (state.setActivity .busy).release action) enqueued d = live s enqueued d :=
      live_congr fun e _ _ => isRunning_cleared hretained host d action _
    rw [hlive, Store.modifyDevice_self, hstate]
    exact ((h d).leave hjoin).congr rfl rfl rfl
  · exact (Fits.withdraw_other hretained haccept hreplay hd (h.fits d)).occupancy

theorem discover (h : Occupied s enqueued) (hretained : Retained s devices enqueued)
    {device : DeviceId} (hnew : device ∉ devices) (status : DeviceStatus) :
    Occupied (s.modifyDevice device fun _ => { status := status }) enqueued := by
  intro d
  by_cases hd : d = device
  · subst hd
    rw [live_of_new hretained hnew, Store.modifyDevice_self]
    exact .idle rfl rfl rfl
  · rw [Store.modifyDevice_of_ne _ _ _ hd]
    exact h d

end Occupied

/-- The operations that may leave. -/
def Store.spent (s : Store) : ℕ := s.operations.countP fun op => !op.isRunning

theorem Store.length_operations (s : Store) :
    s.operations.length = s.spent + (s.operations.filter Operation.isRunning).length := by
  have hsplit := List.length_eq_countP_add_countP Operation.isRunning (l := s.operations)
  have hspent : s.spent = s.operations.countP (fun op => decide ¬op.isRunning = true) := by
    unfold spent
    congr 1
    funext op
    simp
  rw [hspent, ← List.countP_eq_length_filter]
  omega

theorem Store.length_expire {s : Store} (h : s.spent ≠ 0) :
    s.expire.operations.length + 1 = s.operations.length := by
  rcases s.expire_cases with ⟨hall, -⟩ | ⟨front, expired, back, hsplit, -, hstate⟩
  · apply absurd _ h
    exact List.countP_eq_zero.mpr fun op hop => by simp [hall op hop]
  · rw [hstate, hsplit]
    simp [Nat.add_assoc]

/-- The loop stops by its own test before it runs out of operations. -/
theorem Store.spent_makeRoom {fuel : ℕ} {s : Store} (hfuel : s.operations.length ≤ fuel) :
    (s.makeRoom fuel).spent ≤ 63 := by
  induction fuel generalizing s with
  | zero =>
      have hle : s.spent ≤ s.operations.length := List.countP_le_length
      simp only [makeRoom]
      omega
  | succ fuel ih =>
      unfold makeRoom
      split_ifs with hfull
      · have hshorter := s.length_expire (by unfold spent; omega)
        exact ih (by omega)
      · unfold spent
        omega

/-- No device has more than two operations running, so their number is bounded. -/
theorem Occupied.length_running_le {s : Store} {enqueued : List Enqueued}
    {devices : List DeviceId} (h : Occupied s enqueued) (hretained : Retained s devices enqueued) :
    (s.operations.filter Operation.isRunning).length ≤ 2 * devices.length := by
  apply Grouping.length_le_of_few Operation.deviceId
  · intro op hop
    obtain ⟨e, he, hticket⟩ := hretained.entry _
      (List.mem_map_of_mem (List.mem_of_mem_filter hop))
    rw [← show e.device = op.deviceId from congrArg Ticket.device hticket]
    exact hretained.known e he
  · intro device
    have hlength := (hretained.running_perm device).length_eq
    have hfew := (h device).length_le
    rw [List.length_map, List.length_map] at hlength
    rw [List.length_map] at hfew
    rw [List.filter_filter]
    omega

theorem Occupied.length_accept_le {s accepted : Store} {host : Host} {device : DeviceId}
    {action : Action} {identity : RequestIdentity} {op : Operation} {devices : List DeviceId}
    {enqueued : List Enqueued} (h : Occupied accepted enqueued)
    (hretained : Retained accepted devices enqueued)
    (haccept : s.accept host device action identity = .ok (accepted, op)) :
    accepted.operations.length ≤ 63 + 2 * devices.length := by
  have hrunning := h.length_running_le hretained
  obtain ⟨-, rfl, rfl⟩ := Store.accept_cases haccept
  have hspent : (s.cleared host device action).spent ≤ 63 := Store.spent_makeRoom (le_refl _)
  have hsame : (((s.cleared host device action).push
      ((s.occupy host device action).started device identity)
      identity.fingerprint).modifyDevice device (·.setActivity .busy)).spent =
        (s.cleared host device action).spent := by
    simp [Store.spent, Store.push, Store.modifyDevice, Store.started, Operation.isRunning]
  rw [Store.length_operations, hsame]
  omega

theorem Retained.find?_running {s : Store} {devices : List DeviceId} {enqueued : List Enqueued}
    (h : Retained s devices enqueued) {id : String} (hrunning : s.isRunning id = true) :
    ∃ op, s.operations.find? (fun op => op.id = id) = some op ∧ op.status = .running := by
  obtain ⟨op, hop, rfl, hstatus⟩ := operation_of_isRunning hrunning
  exact ⟨op, h.find?_operation hop, hstatus⟩

theorem Retained.operationId_eq {s : Store} {devices : List DeviceId} {enqueued : List Enqueued}
    (h : Retained s devices enqueued) {op : Operation} (hop : op ∈ s.operations) :
    (s.idempotency op.requestKey).map (·.operationId) = some op.id := by
  obtain ⟨e, he, hticket⟩ := h.entry _ (List.mem_map_of_mem hop)
  rw [h.record_of_mem hop hticket he]
  rfl

theorem Retained.isSome_idempotency {s : Store} {devices : List DeviceId}
    {enqueued : List Enqueued} (h : Retained s devices enqueued) (key : String) :
    (s.idempotency key).isSome = true ↔ key ∈ s.operations.map (·.requestKey) := by
  constructor
  · intro hsome
    obtain ⟨record, hrecord⟩ := Option.isSome_iff_exists.mp hsome
    obtain ⟨t, ht, rfl⟩ := h.retained key record hrecord
    obtain ⟨op, hop, rfl⟩ := List.mem_map.mp ht
    exact List.mem_map_of_mem hop
  · intro hkey
    obtain ⟨op, hop, rfl⟩ := List.mem_map.mp hkey
    have hid := congrArg Option.isSome (h.operationId_eq hop)
    rwa [Option.isSome_map] at hid

/-- Distinct keys name distinct operations, and every retained operation is named. -/
theorem Retained.bijOn_operationId {s : Store} {devices : List DeviceId}
    {enqueued : List Enqueued} (h : Retained s devices enqueued) :
    Set.BijOn (fun key => (s.idempotency key).map (·.operationId))
      {key | key ∈ s.operations.map (·.requestKey)}
      (some '' {id | id ∈ s.operations.map (·.id)}) := by
  have hids := h.ids
  rw [Store.tickets, List.map_map] at hids
  refine ⟨?_, ?_, ?_⟩
  · intro key hkey
    obtain ⟨op, hop, rfl⟩ := List.mem_map.mp hkey
    exact ⟨op.id, List.mem_map_of_mem hop, (h.operationId_eq hop).symm⟩
  · intro key hkey key' hkey' heq
    obtain ⟨op, hop, rfl⟩ := List.mem_map.mp hkey
    obtain ⟨op', hop', rfl⟩ := List.mem_map.mp hkey'
    dsimp only at heq
    rw [h.operationId_eq hop, h.operationId_eq hop'] at heq
    rw [List.inj_on_of_nodup_map hids hop hop' (Option.some.inj heq)]
  · rintro _ ⟨id, hid, rfl⟩
    obtain ⟨op, hop, rfl⟩ := List.mem_map.mp hid
    exact ⟨op.requestKey, List.mem_map_of_mem hop, h.operationId_eq hop⟩

theorem Retained.replay_record {s : Store} {devices : List DeviceId} {enqueued : List Enqueued}
    (h : Retained s devices enqueued) {identity : RequestIdentity} {record : IdempotencyRecord}
    (hrecord : s.idempotency identity.key = some record)
    (hfingerprint : record.fingerprint = identity.fingerprint) :
    ∃ op ∈ s.operations, op.id = record.operationId ∧ op.requestKey = identity.key ∧
      s.replay identity = .ok (some op) := by
  obtain ⟨t, ht, hkey⟩ := h.retained _ record hrecord
  obtain ⟨op, hop, rfl⟩ := List.mem_map.mp ht
  have hkey : op.requestKey = identity.key := hkey
  have hid := h.operationId_eq hop
  rw [hkey, hrecord] at hid
  have hid : record.operationId = op.id := Option.some.inj hid
  refine ⟨op, hop, hid.symm, hkey, ?_⟩
  have hfind := h.find?_operation hop
  rw [← hid] at hfind
  unfold Store.replay
  rw [hrecord]
  simp [hfingerprint, hfind]

/-- When the turn of a completion comes, its operation is still running. -/
theorem Fits.isRunning_finishStream (host : Host) {s : Store} {devices : List DeviceId}
    {enqueued : List Enqueued} {device : DeviceId} {duties : List Duty}
    (hretained : Retained s devices enqueued) {front back : List Completion} {c : Completion}
    (hasReader : Bool)
    (h : Fits s enqueued device
      ((Completion.discharges (front ++ c :: back)).map streamDuty ++ duties)) :
    (s.finishStream host device front hasReader).isRunning c.key = true := by
  induction front generalizing s with
  | nil => exact h.isRunning List.mem_cons_self
  | cons first front ih =>
      exact ih (hretained.evolve (s.evolves_finishCompletion host device hasReader first))
        (h.finishCompletion host hretained first hasReader).own

/-- What holds of the store between any two sections of its lock. -/
structure System.Kept (s : System) : Prop where
  archived : Archived s.store
  occupied : Occupied s.store s.enqueued
  bounded : s.store.operations.length ≤ 63 + 2 * s.devices.length

namespace System.Kept
variable {s : System}

theorem init (epoch : String) (runtimes : List (DeviceId × DeviceDescriptor)) :
    (System.init epoch runtimes).Kept :=
  ⟨.new epoch _, fun _ => .idle rfl rfl rfl, Nat.zero_le _⟩

/-- A step keeps the books, whichever section of the lock it enters. -/
theorem step {host : Host} (h : s.Kept) (hconsistent : s.Consistent) (hbalanced : s.Balanced)
    {step : Step} {store : Store} {enqueued : List Enqueued} {devices : List DeviceId}
    {news : DeviceId → List News} (hstep : StoreStep host s step store enqueued devices news)
    (hretained : Retained store devices enqueued) :
    Archived store ∧ Occupied store enqueued ∧
      store.operations.length ≤ 63 + 2 * devices.length := by
  have hold := hconsistent.retained
  cases hstep with
  | idle => exact ⟨h.archived, h.occupied, h.bounded⟩
  | availability device availability =>
      have hsettled := s.store.settled_setAvailability device availability
      exact ⟨h.archived.touch rfl, h.occupied.settle hsettled, h.bounded⟩
  | admission sub accepted op hknown hreplay haccept hroom =>
      have hoccupied := h.occupied.accept hold haccept (e := ⟨⟨op.id, sub.request, sub.action⟩,
        sub.identity⟩) rfl rfl rfl
      exact ⟨h.archived.accept hold haccept, hoccupied,
        hoccupied.length_accept_le hretained haccept⟩
  | withdrawal sub accepted op hknown hreplay haccept hroom =>
      refine ⟨h.archived.withdraw hold hreplay haccept,
        h.occupied.withdraw hold hreplay haccept, le_trans ?_ h.bounded⟩
      obtain ⟨-, rfl, rfl⟩ := Store.accept_cases haccept
      rw [Store.withdraw_push _ _ _ _ _ rfl (hold.idempotency_cleared host _ _ hreplay)]
      exact (hold.cleared_sheds host sub.request.deviceId sub.action).sublist.length_le
  | instruction device i instr rest hknown htodo =>
      obtain ⟨-, hfits⟩ := hbalanced.fits_todo htodo
      refine ⟨h.archived.exec host hold i _ instr hfits,
        h.occupied.exec host hold i _ instr hfits, ?_⟩
      have htickets := congrArg List.length (Worker.evolves_exec host device i s.store
        { s.workers device with todo := rest } instr).tickets
      rw [Store.tickets, Store.tickets, List.length_map, List.length_map] at htickets
      rw [htickets]
      exact h.bounded
  | discovery descriptor hnew =>
      refine ⟨h.archived.touch rfl, h.occupied.discover hold hnew descriptor.status, ?_⟩
      rw [List.length_append]
      exact h.bounded.trans (by omega)

theorem next (h : s.Kept) (hconsistent : s.Consistent) (hbalanced : s.Balanced) (host : Host)
    (step : Step) : (s.next host step).Kept := by
  obtain ⟨harchived, hoccupied, hbounded⟩ := h.step hconsistent hbalanced
    (s.next_storeStep host hconsistent step) (hconsistent.next step).retained
  exact ⟨harchived, hoccupied, hbounded⟩

theorem run (h : s.Kept) (hconsistent : s.Consistent) (hbalanced : s.Balanced) (host : Host)
    (steps : List Step) : (s.run host steps).Kept := by
  induction steps generalizing s with
  | nil => exact h
  | cons step steps ih =>
      exact ih (h.next hconsistent hbalanced host step) (hconsistent.next step)
        (hbalanced.next hconsistent.retained step)

end System.Kept

/-- Running operations stay until they finish, keys and artifacts belong to the retained
operations, whose number is bounded, and every look-up finds what it looks for. -/
structure RetentionInvariant (host : Host) (s : System) : Prop where
  running : ∀ step, ∀ op ∈ s.store.operations, op.isRunning = true →
    op.ticket ∈ (s.next host step).store.tickets
  keys : (s.store.operations.map (·.requestKey)).Nodup
  recorded : ∀ key, (s.store.idempotency key).isSome = true ↔
    key ∈ s.store.operations.map (·.requestKey)
  record : ∀ op ∈ s.store.operations,
    (s.store.idempotency op.requestKey).map (·.operationId) = some op.id
  bijection : Set.BijOn (fun key => (s.store.idempotency key).map (·.operationId))
    {key | key ∈ s.store.operations.map (·.requestKey)}
    (some '' {id | id ∈ s.store.operations.map (·.id)})
  artifacts : ∀ id metadata, (s.store.artifacts id).map (·.metadata) = some metadata ↔
    ∃ op ∈ s.store.operations,
      op.id = id ∧ op.status = .succeeded ∧ op.artifact = some metadata
  bounded : s.store.operations.length ≤ 63 + 2 * s.devices.length
  room : ∀ device action, (s.store.cleared host device action).operations.countP
    (fun op => !op.isRunning) ≤ 63
  known : ∀ sub ∈ s.submissions, sub.phase.found = true → sub.request.deviceId ∈ s.devices
  replayed : ∀ identity record, s.store.idempotency identity.key = some record →
    record.fingerprint = identity.fingerprint →
    ∃ op ∈ s.store.operations, op.id = record.operationId ∧ op.requestKey = identity.key ∧
      s.store.replay identity = .ok (some op)
  streamed : ∀ device front c back hasReader rest,
    (s.workers device).todo = .finishStream (front ++ c :: back) hasReader :: rest →
    ∃ op, (s.store.finishStream host device front hasReader).operations.find?
      (fun op => op.id = c.key) = some op ∧ op.status = .running
  completed : ∀ device id result artifact hasReader rest,
    (s.workers device).todo = .finishExclusive id result artifact hasReader :: rest →
    ∃ op, (s.store.keepArtifact id result artifact).operations.find?
      (fun op => op.id = id) = some op ∧ op.status = .running

theorem System.running_stays {s : System} (h : s.Consistent) (host : Host) (step : Step)
    {op : Operation} (hop : op ∈ s.store.operations) (hrunning : op.isRunning = true) :
    op.ticket ∈ (s.next host step).store.tickets := by
  have hcleared : ∀ device action, op ∈ (s.store.cleared host device action).operations := by
    intro device action
    have hsame := (h.retained.cleared_sheds host device action).running
    have hmem : op ∈ s.store.operations.filter Operation.isRunning :=
      List.mem_filter.mpr ⟨hop, hrunning⟩
    exact (List.mem_filter.mp (hsame ▸ hmem)).1
  have hstep := s.next_storeStep host h step
  generalize (s.next host step).store = store, (s.next host step).enqueued = enqueued,
    (s.next host step).devices = devices, s.news host step = news at hstep ⊢
  cases hstep with
  | idle => exact List.mem_map_of_mem hop
  | availability device availability => exact List.mem_map_of_mem hop
  | admission sub accepted op' hknown hreplay haccept hroom =>
      obtain ⟨-, rfl, rfl⟩ := Store.accept_cases haccept
      exact List.mem_map_of_mem (List.mem_append_left _ (hcleared _ _))
  | withdrawal sub accepted op' hknown hreplay haccept hroom =>
      obtain ⟨-, rfl, rfl⟩ := Store.accept_cases haccept
      rw [Store.withdraw_push _ _ _ _ _ rfl (h.retained.idempotency_cleared host _ _ hreplay)]
      exact List.mem_map_of_mem (hcleared _ _)
  | instruction device i instr rest hknown htodo =>
      rw [(Worker.evolves_exec host device i s.store _ instr).tickets]
      exact List.mem_map_of_mem hop
  | discovery descriptor hnew => exact List.mem_map_of_mem hop

namespace System

/-- After any run, over any number of devices. -/
theorem store_retention (host : Host) (epoch : String)
    (runtimes : List (DeviceId × DeviceDescriptor)) (steps : List Step) :
    RetentionInvariant host ((System.init epoch runtimes).run host steps) := by
  have hconsistent := (Consistent.init epoch runtimes).run host steps
  have hbalanced := (Balanced.init epoch runtimes).run host (.init epoch runtimes) steps
  have hkept := (Kept.init epoch runtimes).run (.init epoch runtimes) (.init epoch runtimes) host
    steps
  generalize (System.init epoch runtimes).run host steps = s at *
  have hretained := hconsistent.retained
  have hkeys := hretained.keys
  have hids := hretained.ids
  rw [Store.tickets, List.map_map] at hkeys hids
  constructor
  · exact fun step op hop hrunning => running_stays hconsistent host step hop hrunning
  · exact hkeys
  · exact hretained.isSome_idempotency
  · exact fun op hop => hretained.operationId_eq hop
  · exact hretained.bijOn_operationId
  · exact hkept.archived.artifact_iff
  · exact hkept.bounded
  · exact fun device action => Store.spent_makeRoom (le_refl _)
  · exact hconsistent.found
  · exact fun identity record hrecord hfingerprint => hretained.replay_record hrecord hfingerprint
  · intro device front c back hasReader rest htodo
    have hrunning := (hbalanced.fits_todo htodo).2.isRunning_finishStream host hretained hasReader
    exact (hretained.evolve (s.store.evolves_finishStream host device front
      hasReader)).find?_running hrunning
  · intro device id result artifact hasReader rest htodo
    have hfits := (hbalanced.fits_todo htodo).2
    have hkeep := s.store.settled_keepArtifact id result artifact
    have hrunning := (hfits.settle hkeep).isRunning List.mem_cons_self
    exact (hretained.evolve (s.store.evolves_keepArtifact id result artifact)).find?_running
      hrunning

end System
end IdfRemote
