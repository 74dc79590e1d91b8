import IdfRemote.Idempotency
import IdfRemote.Occupancy
import IdfRemote.WorkerDuties

/-!
# Running operations are duties

Each running operation of a device has its job in the queue or is a duty of the
worker, and the flags of the device fit them. Every section of the lock keeps this:
a completion discharges one duty of its device, an admission adds one, and the
others are not concerned.
-/
namespace IdfRemote

def Store.isRunning (s : Store) (id : String) : Bool :=
  s.operations.any fun op => op.id = id && op.isRunning

/-- The jobs of a device whose operations are running. -/
def live (s : Store) (enqueued : List Enqueued) (device : DeviceId) : List Job :=
  (enqueued.filter fun e => e.device = device && s.isRunning e.job.id).map (·.job)

/-- The running operations of a device are these duties, as its flags tell. -/
structure Fits (s : Store) (enqueued : List Enqueued) (device : DeviceId) (duties : List Duty) :
    Prop where
  perm : ((live s enqueued device).map Job.duty).Perm duties
  occupancy : Occupancy (s.devices device) ((live s enqueued device).map (·.action))

theorem live_congr {s s' : Store} {enqueued : List Enqueued} {device : DeviceId}
    (h : ∀ e ∈ enqueued, e.device = device → s'.isRunning e.job.id = s.isRunning e.job.id) :
    live s' enqueued device = live s enqueued device := by
  unfold live
  congr 1
  apply List.filter_congr
  intro e he
  by_cases hd : e.device = device
  · rw [h e he hd]
  · simp [hd]

theorem live_of_new {s store : Store} {devices : List DeviceId} {enqueued : List Enqueued}
    (h : Retained s devices enqueued) {device : DeviceId} (hnew : device ∉ devices) :
    live store enqueued device = [] := by
  unfold live
  rw [List.filter_eq_nil_iff.mpr, List.map_nil]
  intro e he
  have hne : e.device ≠ device := fun heq => hnew (heq ▸ h.known e he)
  simp [hne]

/-- The running operations of a device, as the store has them, are its live jobs. -/
theorem Retained.running_perm {s : Store} {devices : List DeviceId} {enqueued : List Enqueued}
    (h : Retained s devices enqueued) (device : DeviceId) :
    ((s.operations.filter fun op => op.deviceId = device && op.isRunning).map (·.id)).Perm
      ((live s enqueued device).map (·.id)) := by
  have hids := h.ids
  rw [Store.tickets, List.map_map] at hids
  have hlive : (live s enqueued device).map (·.id) =
      (enqueued.filter fun e =>
        e.device = device && s.isRunning e.job.id).map fun e => e.job.id := by
    rw [live, List.map_map]
    rfl
  rw [hlive]
  refine (List.perm_ext_iff_of_nodup ?_ ?_).mpr fun id => ?_
  · exact (List.filter_sublist.map _).nodup hids
  · exact (List.filter_sublist.map _).nodup h.enqueued_ids
  · simp only [List.mem_map, List.mem_filter, Bool.and_eq_true, decide_eq_true_eq]
    constructor
    · rintro ⟨op, ⟨hop, hdevice, hrunning⟩, rfl⟩
      obtain ⟨e, he, hticket⟩ := h.entry _ (List.mem_map_of_mem hop)
      have hid : e.job.id = op.id := congrArg Ticket.id hticket
      have hedevice : e.device = op.deviceId := congrArg Ticket.device hticket
      refine ⟨e, ⟨he, hedevice.trans hdevice, ?_⟩, hid⟩
      rw [hid]
      exact List.any_eq_true.mpr ⟨op, hop, by simpa using hrunning⟩
    · rintro ⟨e, ⟨he, hdevice, hrunning⟩, rfl⟩
      obtain ⟨op, hop, hmatch⟩ := List.any_eq_true.mp hrunning
      simp only [Bool.and_eq_true, decide_eq_true_eq] at hmatch
      obtain ⟨e', he', hticket⟩ := h.entry _ (List.mem_map_of_mem hop)
      have hid : e'.job.id = e.job.id := (congrArg Ticket.id hticket).trans hmatch.1
      obtain rfl := List.inj_on_of_nodup_map h.enqueued_ids he' he hid
      have hedevice : e'.device = op.deviceId := congrArg Ticket.device hticket
      exact ⟨op, ⟨hop, hedevice.symm.trans hdevice, hmatch.2⟩, hmatch.1⟩

namespace Fits
variable {s s' : Store} {enqueued : List Enqueued} {device : DeviceId} {duties : List Duty}

theorem perm_duties (h : Fits s enqueued device duties) {duties' : List Duty}
    (hperm : duties.Perm duties') : Fits s enqueued device duties' :=
  ⟨h.perm.trans hperm, h.occupancy⟩

theorem frame (h : Fits s enqueued device duties)
    (hrunning : ∀ e ∈ enqueued, e.device = device →
      s'.isRunning e.job.id = s.isRunning e.job.id)
    (hbusy : (s'.devices device).busy = (s.devices device).busy)
    (happ : (s'.devices device).applicationPending = (s.devices device).applicationPending)
    (hinput : (s'.devices device).inputPending = (s.devices device).inputPending) :
    Fits s' enqueued device duties where
  perm := by
    rw [live_congr hrunning]
    exact h.perm
  occupancy := by
    rw [live_congr hrunning]
    exact h.occupancy.congr hbusy happ hinput

theorem entry (h : Fits s enqueued device duties) {duty : Duty} (hduty : duty ∈ duties) :
    ∃ e ∈ enqueued, e.device = device ∧ s.isRunning e.job.id = true ∧ e.job.duty = duty := by
  obtain ⟨job, hjob, rfl⟩ := List.mem_map.mp (h.perm.mem_iff.mpr hduty)
  obtain ⟨e, he, rfl⟩ := List.mem_map.mp hjob
  obtain ⟨hmem, hlive⟩ := List.mem_filter.mp he
  simp only [Bool.and_eq_true, decide_eq_true_eq] at hlive
  exact ⟨e, hmem, hlive.1, hlive.2, rfl⟩

end Fits

/-- When one operation stops running, its job leaves the live ones of its device. -/
theorem live_remove {s s' : Store} {enqueued : List Enqueued}
    (hnodup : (enqueued.map fun e => e.job.id).Nodup) {e : Enqueued} (he : e ∈ enqueued)
    (hlive : s.isRunning e.job.id = true)
    (hrunning : ∀ id, s'.isRunning id = (s.isRunning id && id ≠ e.job.id)) :
    (∃ front back, live s enqueued e.device = front ++ e.job :: back ∧
      live s' enqueued e.device = front ++ back) ∧
    ∀ device, device ≠ e.device → live s' enqueued device = live s enqueued device := by
  obtain ⟨pre, post, rfl⟩ := List.append_of_mem he
  rw [List.map_append, List.map_cons] at hnodup
  have hother : ∀ e' ∈ pre ++ post, s'.isRunning e'.job.id = s.isRunning e'.job.id := by
    intro e' he'
    have hne : e'.job.id ≠ e.job.id := by
      have hperm := List.perm_middle.nodup_iff.mp hnodup
      rw [← List.map_append] at hperm
      intro heq
      exact (List.nodup_cons.mp hperm).1 (heq ▸ List.mem_map_of_mem he')
    simp [hrunning, hne]
  constructor
  · refine ⟨live s pre e.device, live s post e.device, ?_, ?_⟩
    · simp [live, hlive]
    · have hpre : live s' pre e.device = live s pre e.device :=
        live_congr fun e' he' _ => hother e' (List.mem_append_left _ he')
      have hpost : live s' post e.device = live s post e.device :=
        live_congr fun e' he' _ => hother e' (List.mem_append_right _ he')
      rw [← hpre, ← hpost]
      simp [live, hrunning]
  · intro device hd
    refine live_congr fun e' he' hdevice => hother e' ?_
    rcases List.mem_append.mp he' with he' | he'
    · exact List.mem_append_left _ he'
    · rcases List.mem_cons.mp he' with rfl | he'
      · exact absurd hdevice.symm hd
      · exact List.mem_append_right _ he'

theorem updateFirst_eq_map {id : String} {f : Operation → Operation} {ops : List Operation}
    (hnodup : (ops.map Operation.id).Nodup) :
    updateFirst (fun op => op.id = id) f ops =
      ops.map fun op => if op.id = id then f op else op := by
  induction ops with
  | nil => rfl
  | cons op ops ih =>
      rw [List.map_cons] at hnodup
      obtain ⟨hop, hrest⟩ := List.nodup_cons.mp hnodup
      unfold updateFirst
      by_cases hid : op.id = id
      · have hsame : ops.map (fun op => if op.id = id then f op else op) = ops := by
          refine (List.map_congr_left fun o ho => ?_).trans (List.map_id ops)
          refine if_neg fun heq => hop ?_
          rw [hid, ← heq]
          exact List.mem_map_of_mem ho
        simp [hid, hsame]
      · simp [hid, ih hrest]

theorem any_finish (id : String) {f : Operation → Operation}
    (hid : ∀ op, (f op).id = op.id) (hdone : ∀ op, (f op).isRunning = false)
    (ops : List Operation) (j : String) :
    (ops.map fun op => if op.id = id then f op else op).any
        (fun op => op.id = j && op.isRunning) =
      (ops.any (fun op => op.id = j && op.isRunning) && j ≠ id) := by
  induction ops with
  | nil => rfl
  | cons op ops ih =>
      rw [List.map_cons, List.any_cons, List.any_cons, ih]
      by_cases hop : op.id = id
      · by_cases hj : j = id
        · simp [hop, hj, hdone]
        · have hne : ¬ id = j := Ne.symm hj
          simp [hop, hid, hj, hne]
      · by_cases hj : j = id
        · simp [hop, hj]
        · simp [hop, hj]

/-- How a completion changes an operation: it keeps its ticket and stops running. -/
structure Finishes (finish : Operation → Operation) : Prop where
  ticket : ∀ op, (finish op).ticket = op.ticket
  done : ∀ op, (finish op).isRunning = false

theorem finishes_finish (result : Result Value) : Finishes (·.finish result) :=
  ⟨(Store.ticket_finish · result), fun _ => by cases result <;> rfl⟩

theorem finishes_finished (result : Result Value) (artifact : Option ArtifactRecord) :
    Finishes (Store.finished result artifact) :=
  ⟨Store.ticket_finished result artifact, fun _ => by cases result <;> rfl⟩

theorem isRunning_conclude (host : Host) {s : Store} (device : DeviceId) {id : String}
    {finish : Operation → Operation} (complete : DeviceState → DeviceState)
    (hids : (s.tickets.map Ticket.id).Nodup) (hfinish : Finishes finish) (j : String) :
    (s.conclude host device id finish complete).isRunning j = (s.isRunning j && j ≠ id) := by
  rw [Store.tickets, List.map_map] at hids
  unfold Store.conclude
  split
  · next hnone =>
    by_cases hj : j = id
    · subst hj
      have hnot : s.isRunning j = false := by
        apply List.any_eq_false.mpr
        intro op hop
        have := List.find?_eq_none.mp hnone op hop
        simp_all
      simp [hnot]
    · simp [hj]
  · have hany := any_finish id (fun op => congrArg Ticket.id (hfinish.ticket op))
      hfinish.done s.operations j
    rw [← updateFirst_eq_map hids] at hany
    exact hany

theorem devices_conclude (host : Host) {s : Store} (device : DeviceId) {id : String}
    (finish : Operation → Operation) (complete : DeviceState → DeviceState)
    (hrunning : s.isRunning id = true) :
    ∃ kind data, ((s.conclude host device id finish complete).devices device) =
        (complete (s.devices device)).emit host.eventSize kind data ∧
      ∀ d, d ≠ device →
        (s.conclude host device id finish complete).devices d = s.devices d := by
  obtain ⟨op, hop, hid⟩ := List.any_eq_true.mp hrunning
  unfold Store.conclude
  cases hfind : s.operations.find? fun op => op.id = id with
  | none =>
      have := List.find?_eq_none.mp hfind op hop
      simp_all
  | some op =>
      refine ⟨_, _, by simp [Store.emit]; rfl, fun d hd => by simp [Store.emit, hd]⟩

namespace Fits
variable {s : Store} {enqueued : List Enqueued} {device : DeviceId} {duties : List Duty}

/-- A completion discharges one duty of its device and none of another. -/
theorem conclude (host : Host) {id : String} {lane : Option Lane}
    (finish : Operation → Operation) (complete : DeviceState → DeviceState)
    {devices : List DeviceId} (hretained : Retained s devices enqueued)
    (h : Fits s enqueued device ((id, lane) :: duties)) (hfinish : Finishes finish)
    (hcomplete : ∀ front back (job : Job), job.duty = (id, lane) →
      Occupancy (s.devices device) (front ++ job.action :: back) →
      Occupancy (complete (s.devices device)) (front ++ back)) :
    Fits (s.conclude host device id finish complete) enqueued device duties ∧
    ∀ d, d ≠ device → ∀ others, Fits s enqueued d others →
      Fits (s.conclude host device id finish complete) enqueued d others := by
  obtain ⟨e, he, rfl, hlive, hduty⟩ := h.entry List.mem_cons_self
  have hid : e.job.id = id := congrArg Prod.fst hduty
  subst hid
  obtain ⟨⟨front, back, hbefore, hafter⟩, hother⟩ := live_remove hretained.enqueued_ids he hlive
    (isRunning_conclude host e.device complete hretained.ids hfinish)
  obtain ⟨kind, data, hstate, hsame⟩ := devices_conclude host e.device finish complete hlive
  constructor
  · constructor
    · rw [hafter, List.map_append]
      have hperm := h.perm
      rw [hbefore, List.map_append, List.map_cons, hduty] at hperm
      exact (List.perm_middle.symm.trans hperm).cons_inv
    · rw [hafter, List.map_append, hstate]
      have hocc := h.occupancy
      rw [hbefore, List.map_append, List.map_cons] at hocc
      exact (hcomplete _ _ e.job hduty hocc).congr rfl rfl rfl
  · intro d hd others hfits
    constructor
    · rw [hother d hd]
      exact hfits.perm
    · rw [hother d hd, hsame d hd]
      exact hfits.occupancy

end Fits

/-- No operation starts or stops, and no flag changes. -/
structure Store.Settled (s s' : Store) : Prop where
  operations : s'.operations = s.operations
  busy : ∀ device, (s'.devices device).busy = (s.devices device).busy
  app : ∀ device,
    (s'.devices device).applicationPending = (s.devices device).applicationPending
  input : ∀ device, (s'.devices device).inputPending = (s.devices device).inputPending

namespace Store

theorem Settled.refl (s : Store) : s.Settled s := ⟨rfl, fun _ => rfl, fun _ => rfl, fun _ => rfl⟩

theorem Settled.trans {s s' s'' : Store} (h : s.Settled s') (h' : s'.Settled s'') :
    s.Settled s'' where
  operations := h'.operations.trans h.operations
  busy device := (h'.busy device).trans (h.busy device)
  app device := (h'.app device).trans (h.app device)
  input device := (h'.input device).trans (h.input device)

theorem settled_modifyDevice (s : Store) (device : DeviceId) (f : DeviceState → DeviceState)
    (hbusy : ∀ state, (f state).busy = state.busy)
    (happ : ∀ state, (f state).applicationPending = state.applicationPending)
    (hinput : ∀ state, (f state).inputPending = state.inputPending) :
    s.Settled (s.modifyDevice device f) := by
  have hcase : ∀ (g : DeviceState → Bool), (∀ state, g (f state) = g state) → ∀ d,
      g ((s.modifyDevice device f).devices d) = g (s.devices d) := by
    intro g hg d
    by_cases hd : d = device
    · rw [hd, modifyDevice_self, hg]
    · rw [modifyDevice_of_ne _ _ _ hd]
  exact ⟨rfl, hcase (·.busy) hbusy, hcase (·.applicationPending) happ,
    hcase (·.inputPending) hinput⟩

theorem settled_emit (size : Event → ℕ) (s : Store) (device : DeviceId) (kind : String)
    (data : Value) : s.Settled (s.emit size device kind data) :=
  s.settled_modifyDevice device _ (fun _ => rfl) (fun _ => rfl) fun _ => rfl

theorem settled_setAvailability (s : Store) (device : DeviceId)
    (availability : DeviceAvailability) :
    s.Settled (s.modifyDevice device (·.setAvailability availability)) :=
  s.settled_modifyDevice device _ (fun _ => rfl) (fun _ => rfl) fun _ => rfl

theorem settled_keepArtifact (s : Store) (id : String) (result : Result Value)
    (artifact : Option ArtifactRecord) : s.Settled (s.keepArtifact id result artifact) :=
  ⟨s.operations_keepArtifact id result artifact, by simp, by simp, by simp⟩

theorem settled_emitAll (size : Event → ℕ) (s : Store) (device : DeviceId) (news : List News) :
    s.Settled (s.emitAll size device news) :=
  related_emitAll .refl (fun h h' => h.trans h') (fun s => s.settled_emit size device) s news

end Store

namespace Fits
variable {s s' : Store} {enqueued : List Enqueued} {device : DeviceId} {duties : List Duty}

theorem settle (h : Fits s enqueued device duties) (hs : s.Settled s') :
    Fits s' enqueued device duties := by
  refine h.frame (fun e _ _ => ?_) (hs.busy device) (hs.app device) (hs.input device)
  unfold Store.isRunning
  rw [hs.operations]

/-- A section of a worker's lock discharges what it completes. -/
structure Discharges (s s' : Store) (enqueued : List Enqueued) (device : DeviceId)
    (duties : List Duty) : Prop where
  own : Fits s' enqueued device duties
  other : ∀ d, d ≠ device → ∀ others, Fits s enqueued d others → Fits s' enqueued d others

theorem settle_discharges (h : Fits s enqueued device duties) (hs : s.Settled s') :
    Discharges s s' enqueued device duties :=
  ⟨h.settle hs, fun _ _ _ hd => hd.settle hs⟩

variable {devices : List DeviceId}

theorem finishCompletion (host : Host) (hretained : Retained s devices enqueued)
    (c : Completion) (hasReader : Bool)
    (h : Fits s enqueued device (streamDuty (c.key, c.lane) :: duties)) :
    Discharges s (s.finishCompletion host device hasReader c) enqueued device duties := by
  have hconclude := h.conclude host (·.finish c.result) (·.completeStream c.lane hasReader)
    hretained (finishes_finish c.result) ?_
  · exact ⟨hconclude.1, hconclude.2⟩
  · intro front back job hduty hocc
    have hlane : job.action.lane = c.lane := by
      have := congrArg Prod.snd hduty
      simp only [Job.duty] at this
      split_ifs at this
      exact Option.some.inj this
    rw [← hlane]
    exact hocc.complete hasReader

theorem finishStream (host : Host) (hretained : Retained s devices enqueued)
    (done : List Completion) (hasReader : Bool)
    (h : Fits s enqueued device ((Completion.discharges done).map streamDuty ++ duties)) :
    Discharges s (s.finishStream host device done hasReader) enqueued device duties := by
  induction done generalizing s with
  | nil => exact ⟨h, fun _ _ _ hd => hd⟩
  | cons c done ih =>
      have hfirst := finishCompletion host hretained c hasReader h
      have hnext := hretained.evolve (s.evolves_finishCompletion host device hasReader c)
      have hrest := ih hnext hfirst.own
      exact ⟨hrest.own, fun d hd others hfits =>
        hrest.other d hd others (hfirst.other d hd _ hfits)⟩

theorem finishExclusive (host : Host) (hretained : Retained s devices enqueued) {id : String}
    (result : Result Value) (artifact : Option ArtifactRecord) (hasReader : Bool)
    (h : Fits s enqueued device ((id, none) :: duties)) :
    Discharges s (s.finishExclusive host device id result artifact hasReader) enqueued device
      duties := by
  have hkeep := s.settled_keepArtifact id result artifact
  have hconclude := (h.settle hkeep).conclude host (Store.finished result artifact)
    (·.completeExclusive result.isOk hasReader)
    (hretained.evolve (s.evolves_keepArtifact id result artifact))
    (finishes_finished result artifact) ?_
  · exact ⟨hconclude.1, fun d hd others hfits => hconclude.2 d hd _ (hfits.settle hkeep)⟩
  · intro front back job hduty hocc
    refine hocc.completeExclusive ?_ _ _
    have := congrArg Prod.snd hduty
    simp only [Job.duty] at this
    split_ifs at this with hstream
    simpa using hstream

/-- Every instruction discharges its own duties and no others. -/
theorem exec (host : Host) (hretained : Retained s devices enqueued) (i : Inputs) (w : Worker)
    (instr : Instr) (h : Fits s enqueued device (instr.duties ++ duties)) :
    Discharges s (Worker.exec host device i s w instr).1 enqueued device duties := by
  cases instr with
  | finishStream done hasReader => exact finishStream host hretained done hasReader h
  | finishExclusive id result artifact hasReader =>
      exact finishExclusive host hretained result artifact hasReader h
  | emit kind data => exact h.settle_discharges (s.settled_emit _ _ _ _)
  | describe descriptor => exact h.settle_discharges (.refl s)
  | setAvailability availability =>
      exact h.settle_discharges (s.settled_setAvailability device availability)
  | beginMonitorReconnect baud text =>
      refine h.settle_discharges (Store.Settled.trans ?_ (Store.settled_emit _ _ _ _ _))
      exact s.settled_modifyDevice device _ (fun _ => rfl) (fun _ => rfl) fun _ => rfl
  | finishMonitorReconnect baud attempts =>
      refine h.settle_discharges (Store.Settled.trans ?_ (Store.settled_emit _ _ _ _ _))
      exact s.settled_modifyDevice device _ (fun _ => rfl) (fun _ => rfl) fun _ => rfl
  | output output =>
      rw [Worker.exec_output]
      exact h.settle_discharges (s.settled_emitAll _ device _)
  | raw bytes reopens deadline =>
      rw [Worker.exec_raw]
      exact h.settle_discharges (s.settled_emitAll _ device _)

end Fits

theorem isRunning_eq_filter (s : Store) (id : String) :
    s.isRunning id = (s.operations.filter Operation.isRunning).any fun op => op.id = id := by
  unfold Store.isRunning
  rw [List.any_filter]
  congr 1
  funext op
  exact Bool.and_comm _ _

theorem isRunning_shed {s s' : Store} (hs : s.Sheds s') (id : String) :
    s'.isRunning id = s.isRunning id := by
  rw [isRunning_eq_filter, isRunning_eq_filter, hs.running]

section
variable {s : Store} {devices : List DeviceId} {enqueued : List Enqueued}
  (h : Retained s devices enqueued) (host : Host) (device : DeviceId) (action : Action)
include h

theorem isRunning_cleared (id : String) :
    (s.cleared host device action).isRunning id = s.isRunning id :=
  isRunning_shed (h.cleared_sheds host device action) id

theorem devices_cleared_self : ∃ kind data, (s.cleared host device action).devices device =
    ((s.devices device).occupy action).emit host.eventSize kind data := by
  rw [(h.cleared_sheds host device action).devices]
  exact ⟨"operation_started", .object [], by simp [Store.occupy, Store.emit]⟩

theorem devices_cleared_of_ne {d : DeviceId} (hd : d ≠ device) :
    (s.cleared host device action).devices d = s.devices d := by
  rw [(h.cleared_sheds host device action).devices]
  simp [Store.occupy, Store.emit, hd]

end

theorem isRunning_push (s : Store) (op : Operation) (fingerprint : String) (id : String) :
    (s.push op fingerprint).isRunning id = (s.isRunning id || op.id = id && op.isRunning) := by
  simp [Store.isRunning, Store.push]

namespace Fits
variable {s accepted : Store} {host : Host} {enqueued : List Enqueued} {device : DeviceId}
  {action : Action} {identity : RequestIdentity} {op : Operation} {devices : List DeviceId}
  (hretained : Retained s devices enqueued)
  (haccept : s.accept host device action identity = .ok (accepted, op))
include hretained haccept

theorem isRunning_accept (id : String) :
    accepted.isRunning id = (s.isRunning id || op.id = id) := by
  obtain ⟨-, rfl, rfl⟩ := Store.accept_cases haccept
  have hpush := isRunning_push (s.cleared host device action)
    ((s.occupy host device action).started device identity) identity.fingerprint id
  rw [isRunning_cleared hretained] at hpush
  apply Eq.trans hpush
  simp [Store.started, Operation.isRunning]

theorem devices_accept_self : ∃ kind data, accepted.devices device =
    (((s.devices device).occupy action).emit host.eventSize kind data).setActivity .busy := by
  obtain ⟨-, rfl, rfl⟩ := Store.accept_cases haccept
  obtain ⟨kind, data, hstate⟩ := devices_cleared_self hretained host device action
  refine ⟨kind, data, ?_⟩
  rw [Store.modifyDevice_self, ← hstate]
  rfl

theorem devices_accept_of_ne {d : DeviceId} (hd : d ≠ device) :
    accepted.devices d = s.devices d := by
  obtain ⟨-, rfl, rfl⟩ := Store.accept_cases haccept
  rw [Store.modifyDevice_of_ne _ _ _ hd]
  exact devices_cleared_of_ne hretained host device action hd

theorem live_accept {e : Enqueued} (hid : e.job.id = op.id) (d : DeviceId) :
    live accepted (enqueued ++ [e]) d =
      live s enqueued d ++ if e.device = d then [e.job] else [] := by
  have hrunning := isRunning_accept hretained haccept
  obtain ⟨-, hop, -⟩ := Store.accept_cases haccept
  have hfresh := hretained.started_fresh host device action identity
  rw [← hop] at hfresh
  have hold : live accepted enqueued d = live s enqueued d := by
    apply live_congr
    intro e' he' _
    rw [hrunning]
    simp [(hfresh e' he').symm]
  rw [← hold]
  by_cases hd : e.device = d
  · simp [live, hd, hrunning, hid]
  · simp [live, hd]

theorem accept {duties : List Duty} (h : Fits s enqueued device duties) {e : Enqueued}
    (hid : e.job.id = op.id) (hdevice : e.device = device) (haction : e.job.action = action) :
    Fits accepted (enqueued ++ [e]) device (duties ++ [e.job.duty]) ∧
      (live s enqueued device).length ≤ 1 := by
  have hlive := live_accept hretained haccept hid device
  obtain ⟨hjoin, -, -⟩ := Store.accept_cases haccept
  obtain ⟨hocc, hlength⟩ := h.occupancy.join hjoin
  obtain ⟨kind, data, hstate⟩ := devices_accept_self hretained haccept
  rw [if_pos hdevice] at hlive
  rw [List.length_map] at hlength
  refine ⟨⟨?_, ?_⟩, hlength⟩
  · rw [hlive, List.map_append]
    exact h.perm.append_right _
  · rw [hlive, List.map_append, List.map_singleton, haction, hstate]
    exact hocc.congr rfl rfl rfl

theorem accept_other {d : DeviceId} (hd : d ≠ device) {duties : List Duty}
    (h : Fits s enqueued d duties) {e : Enqueued} (hid : e.job.id = op.id)
    (hdevice : e.device = device) : Fits accepted (enqueued ++ [e]) d duties := by
  have hlive := live_accept hretained haccept hid d
  rw [if_neg (by rw [hdevice]; exact hd.symm), List.append_nil] at hlive
  have hsame := devices_accept_of_ne hretained haccept hd
  constructor
  · rw [hlive]
    exact h.perm
  · rw [hlive, hsame]
    exact h.occupancy

theorem withdraw_other (hreplay : s.replay identity = .ok none) {d : DeviceId} (hd : d ≠ device)
    {duties : List Duty} (h : Fits s enqueued d duties) :
    Fits (accepted.withdraw device action identity) enqueued d duties := by
  obtain ⟨-, rfl, rfl⟩ := Store.accept_cases haccept
  rw [Store.withdraw_push _ device action identity _ rfl
    (hretained.idempotency_cleared host device action hreplay)]
  have hsame := devices_cleared_of_ne hretained host device action hd
  refine h.frame (fun e _ _ => isRunning_cleared hretained host device action _) ?_ ?_ ?_ <;>
    rw [Store.modifyDevice_of_ne _ _ _ hd, hsame]

end Fits
end IdfRemote
