import IdfRemote.Admission
import IdfRemote.EventPolling

/-!
# One exclusive action, or one command and one write

In every state that a run reaches, the running operations of a device whose worker
is there are the ones its flags allow, each with its job in the queue or among the
duties of the worker.
-/
namespace IdfRemote
namespace System

/-- Every running operation is queued or a duty of the worker, where there is one. A
worker that has gone leaves no instructions. -/
structure Balanced (s : System) : Prop where
  fits : ∀ device, (s.workers device).place ≠ .exited →
    Fits s.store s.enqueued device
      ((s.queues device).map Job.duty ++ (s.workers device).duties)
  gone : ∀ device, (s.workers device).place = .exited → (s.workers device).todo = []

theorem queue_length_le {s : System} {device : DeviceId} {store : Store}
    {enqueued : List Enqueued}
    (h : Fits store enqueued device
      ((s.queues device).map Job.duty ++ (s.workers device).duties)) :
    (s.queues device).length ≤ (live store enqueued device).length := by
  have hlength := h.perm.length_eq
  rw [List.length_append, List.length_map, List.length_map] at hlength
  omega

namespace Balanced
variable {host : Host} {s : System}

theorem init (epoch : String) (runtimes : List (DeviceId × DeviceDescriptor)) :
    (System.init epoch runtimes).Balanced :=
  ⟨fun _ _ => ⟨.nil, .idle rfl rfl rfl⟩, fun _ _ => rfl⟩

theorem settle (h : s.Balanced) {store : Store} (hstore : s.store.Settled store) :
    Balanced { s with store := store } :=
  ⟨fun device hplace => (h.fits device hplace).settle hstore, h.gone⟩

/-- While a worker is there, its queue has room for what may join. -/
theorem hasRoom (h : s.Balanced) {device : DeviceId}
    (hplace : (s.workers device).place ≠ .exited) {action : Action} {identity : RequestIdentity}
    {r : Store × Operation} (haccept : s.store.accept host device action identity = .ok r) :
    s.hasRoom device = true := by
  have hfits := h.fits device hplace
  obtain ⟨hjoin, -⟩ := Store.accept_cases haccept
  have hlength := (hfits.occupancy.join hjoin).2
  have hqueue := queue_length_le hfits
  rw [List.length_map] at hlength
  have hshort : (s.queues device).length < queueCapacity := by
    unfold queueCapacity
    omega
  simp [System.hasRoom, hshort, hplace]

theorem tryStart (h : s.Balanced) (hretained : Retained s.store s.devices s.enqueued)
    (sub : Submission) : (s.tryStart host sub).1.Balanced := by
  rcases s.tryStart_cases host sub with
      ⟨result, hr⟩ | ⟨accepted, op, hreplay, haccept, ⟨-, hr⟩ | ⟨hroom, hr⟩⟩
  · rw [hr]
    exact h
  · rw [hr]
    refine ⟨fun device hplace => ?_, h.gone⟩
    have hfits := h.fits device hplace
    by_cases hd : device = sub.request.deviceId
    · subst hd
      have hstart := (Fits.accept hretained haccept hfits
        (e := ⟨⟨op.id, sub.request, sub.action⟩, sub.identity⟩) rfl rfl rfl).1
      apply hstart.perm_duties
      dsimp only
      rw [Function.update_self, List.map_append, List.append_assoc, List.append_assoc]
      exact List.perm_append_comm.append_left _
    · dsimp only
      rw [Function.update_of_ne hd]
      exact Fits.accept_other hretained haccept hd hfits rfl rfl
  · rw [hr]
    refine ⟨fun device hplace => ?_, h.gone⟩
    by_cases hd : device = sub.request.deviceId
    · subst hd
      have hfree := h.hasRoom hplace haccept
      rw [hroom] at hfree
      cases hfree
    · exact Fits.withdraw_other hretained haccept hreplay hd (h.fits device hplace)

theorem proceed (host : Host) (h : s.Balanced) (hretained : Retained s.store s.devices s.enqueued)
    (sub : Submission) (refresh : Refresh) : (s.proceed host sub refresh).1.Balanced := by
  rcases s.proceed_cases host sub refresh with
      ⟨-, hp | ⟨descriptor, hp⟩ | ⟨availability, hp⟩⟩ | ⟨descriptor, -, -, hp⟩
  · rwa [hp]
  · rw [hp]
    exact ⟨h.fits, h.gone⟩
  · rw [hp]
    exact h.settle (s.store.settled_setAvailability _ _)
  · rw [hp]
    exact h.tryStart hretained sub

theorem advance (h : s.Balanced) (hretained : Retained s.store s.devices s.enqueued) (n : ℕ)
    (refresh : Refresh) : (s.advance host n refresh).Balanced := by
  rcases advance_cases host s n refresh with hsame | ⟨sub, -, hadvance⟩
  · rw [hsame]
    exact h
  · have hproceed := h.proceed host hretained sub refresh
    rw [hadvance]
    exact ⟨hproceed.fits, hproceed.gone⟩

theorem discover (h : s.Balanced) (hretained : Retained s.store s.devices s.enqueued)
    (descriptor : DeviceDescriptor) : (s.discover descriptor).Balanced := by
  rcases s.discover_cases descriptor with hold | ⟨hnew, hd⟩
  · rwa [hold]
  · rw [hd]
    constructor
    · intro device hplace
      dsimp only at hplace ⊢
      by_cases hd : device = descriptor.id
      · subst hd
        rw [Function.update_self, Function.update_self]
        constructor
        · rw [live_of_new hretained hnew]
          exact .nil
        · rw [live_of_new hretained hnew, Store.modifyDevice_self]
          exact .idle rfl rfl rfl
      · rw [Function.update_of_ne hd] at hplace
        rw [Function.update_of_ne hd, Function.update_of_ne hd]
        refine (h.fits device hplace).frame (fun _ _ _ => rfl) ?_ ?_ ?_ <;>
          rw [Store.modifyDevice_of_ne _ _ _ hd]
    · intro device hplace
      dsimp only at hplace ⊢
      by_cases hd : device = descriptor.id
      · subst hd
        rw [Function.update_self]
      · rw [Function.update_of_ne hd] at hplace ⊢
        exact h.gone device hplace

theorem fits_todo (h : s.Balanced) {device : DeviceId} {instr : Instr} {rest : List Instr}
    (htodo : (s.workers device).todo = instr :: rest) :
    (s.workers device).place ≠ .exited ∧ Fits s.store s.enqueued device (instr.duties ++
      ((s.queues device).map Job.duty ++ { s.workers device with todo := rest }.duties)) := by
  have hplace : (s.workers device).place ≠ .exited := by
    intro hgone
    rw [h.gone device hgone] at htodo
    cases htodo
  refine ⟨hplace, (h.fits device hplace).perm_duties ?_⟩
  rw [Worker.duties, htodo, todoDuties_cons, List.append_assoc]
  exact List.perm_append_comm_assoc _ _ _

theorem execute (h : s.Balanced) (hretained : Retained s.store s.devices s.enqueued)
    {device : DeviceId} (i : Inputs) {instr : Instr} {rest : List Instr}
    (htodo : (s.workers device).todo = instr :: rest) :
    (s.execute host device i instr rest).Balanced := by
  obtain ⟨hthere, hfits⟩ := h.fits_todo htodo
  have hexec := hfits.exec host hretained i { s.workers device with todo := rest } instr
  obtain ⟨decoder, bootReopenAt, runtimes, -, hexecute⟩ := s.execute_eq host device i instr rest
  rw [hexecute]
  constructor
  · intro d hd
    dsimp only [System.setWorker] at hd ⊢
    by_cases heq : d = device
    · subst heq
      rw [Function.update_self]
      exact hexec.own
    · rw [Function.update_of_ne heq] at hd ⊢
      exact hexec.other d heq _ (h.fits d hd)
  · intro d hd
    dsimp only [System.setWorker] at hd ⊢
    by_cases heq : d = device
    · subst heq
      rw [Function.update_self] at hd
      exact absurd hd hthere
    · rw [Function.update_of_ne heq] at hd ⊢
      exact h.gone d hd

theorem replace (h : s.Balanced) (device : DeviceId) (w : Worker) (queue : List Job)
    (hw : w.place ≠ .exited → (s.workers device).place ≠ .exited ∧
      ((s.queues device).map Job.duty ++ (s.workers device).duties).Perm
        (queue.map Job.duty ++ w.duties))
    (hgone : w.place = .exited → w.todo = []) :
    Balanced { s.setWorker device w with queues := Function.update s.queues device queue } := by
  constructor
  · intro d hd
    dsimp only [setWorker] at hd ⊢
    by_cases heq : d = device
    · subst heq
      rw [Function.update_self] at hd
      rw [Function.update_self, Function.update_self]
      obtain ⟨hplace, hperm⟩ := hw hd
      exact (h.fits d hplace).perm_duties hperm
    · rw [Function.update_of_ne heq] at hd
      rw [Function.update_of_ne heq, Function.update_of_ne heq]
      exact h.fits d hd
  · intro d hd
    dsimp only [setWorker] at hd ⊢
    by_cases heq : d = device
    · subst heq
      rw [Function.update_self] at hd ⊢
      exact hgone hd
    · rw [Function.update_of_ne heq] at hd ⊢
      exact h.gone d hd

theorem setWorker (h : s.Balanced) (device : DeviceId) (w : Worker)
    (hplace : (s.workers device).place ≠ .exited) (hstays : w.place ≠ .exited)
    (hperm : (s.workers device).duties.Perm w.duties) : (s.setWorker device w).Balanced := by
  have hreplace := h.replace device w (s.queues device)
    (fun _ => ⟨hplace, hperm.append_left _⟩) fun hgone => absurd hgone hstays
  rwa [Function.update_eq_self] at hreplace

theorem pass (h : s.Balanced) (device : DeviceId) (i : Inputs)
    (htodo : (s.workers device).todo = []) : (s.pass host device i).Balanced := by
  have hduties : (s.workers device).duties = Worker.duplexDuties (s.workers device).duplex := by
    rw [Worker.duties, htodo]
    rfl
  unfold System.pass
  dsimp only
  split
  · next hplace =>
    apply h.setWorker device _ (by rw [hplace]; decide) (fun hgone => by cases hgone)
    exact .of_eq (Worker.abandon_duties htodo).symm
  · next hplace =>
    split_ifs <;>
      exact h.setWorker device _ (by rw [hplace]; decide) (fun hgone => by cases hgone) (.refl _)
  · next hplace =>
    split
    · next job jobs hqueue =>
      refine h.replace device _ jobs (fun _ => ⟨by rw [hplace]; decide, ?_⟩)
        fun hgone => by cases hgone
      rw [hqueue, List.map_cons, hduties]
      have hserve := Worker.serve_duties host (s.workers device) job i
      exact List.perm_middle.symm.trans (hserve.symm.append_left _)
    · next hqueue =>
      apply h.setWorker device _ (by rw [hplace]; decide) (fun hgone => by cases hgone)
      exact (Worker.idle_duties host _ i htodo).symm
  · next hplace => exact h.replace device _ [] (fun hw => absurd rfl hw) fun _ => htodo
  · exact h

theorem next (h : s.Balanced) (hretained : Retained s.store s.devices s.enqueued) (step : Step) :
    (s.next host step).Balanced := by
  cases step with
  | submit request action identity => exact ⟨h.fits, h.gone⟩
  | advance n refresh => exact h.advance hretained n refresh
  | work device inputs =>
      rw [System.next]
      rcases work_cases host s device inputs with hw | ⟨instr, rest, htodo, hw⟩ | ⟨htodo, hw⟩
      · rwa [hw]
      · rw [hw]
        exact h.execute hretained inputs htodo
      · rw [hw]
        exact h.pass device inputs htodo
  | shutdown => exact ⟨h.fits, h.gone⟩
  | discover descriptor => exact h.discover hretained descriptor
  | describe device descriptor => exact ⟨h.fits, h.gone⟩
  | setAvailability device availability =>
      simp only [System.next]
      split_ifs
      · exact h.settle (s.store.settled_setAvailability device availability)
      · exact h

theorem run (host : Host) (h : s.Balanced) (hconsistent : s.Consistent) (steps : List Step) :
    (s.run host steps).Balanced := by
  induction steps generalizing s with
  | nil => exact h
  | cons step steps ih => exact ih (h.next hconsistent.retained step) (hconsistent.next step)

end Balanced

/-- The running operations of a device, as the store has them, its flags and its queue. -/
structure AdmissionExclusive (host : Host) (s : System) (device : DeviceId) : Prop where
  running : ((s.store.operations.filter fun op =>
    op.deviceId = device && op.isRunning).map (·.id)).Perm
      ((live s.store s.enqueued device).map (·.id))
  occupancy : Occupancy (s.store.devices device)
    ((live s.store s.enqueued device).map (·.action))
  queued : (s.queues device).length ≤ queueCapacity
  room : ∀ action identity r, s.store.accept host device action identity = .ok r →
    s.hasRoom device = true

/-- Whatever submissions, workers, shutdown and discovery do, on each device that has its
worker. -/
theorem admission_exclusive (host : Host) (epoch : String)
    (runtimes : List (DeviceId × DeviceDescriptor)) (steps : List Step) (device : DeviceId)
    (hplace : (((System.init epoch runtimes).run host steps).workers device).place ≠ .exited) :
    AdmissionExclusive host ((System.init epoch runtimes).run host steps) device := by
  have hconsistent := (Consistent.init epoch runtimes).run host steps
  have hbalanced := (Balanced.init epoch runtimes).run host (.init epoch runtimes) steps
  have hfits := hbalanced.fits device hplace
  constructor
  · exact hconsistent.retained.running_perm device
  · exact hfits.occupancy
  · have hlength := hfits.occupancy.length_le
    rw [List.length_map] at hlength
    exact (queue_length_le hfits).trans hlength
  · exact fun action identity r haccept => hbalanced.hasRoom hplace haccept

/-- The answers that the runs below ask for. -/
def bareHost : Host where
  serde := Duplex.silentSerde
  logText := { clean := fun _ => "", captures := fun _ => none }
  eventSize := Event.plainSize
  base64 _ := ""
  artifactDir := "/tmp/idf-remote-1"

def monitored : DeviceDescriptor where
  id := "dev-1"
  displayName := "ESP32-C3"
  transport := { kind := "desktop_serial", address := some "/dev/ttyACM0", metadata := [] }
  status := .availableIdle
  capabilities := [.monitor, .serialWrite]

/-- A monitor is submitted and admitted. -/
def monitorSteps : List Step :=
  .submit ⟨"dev-1", 115200, true⟩ .monitor ⟨"key-1", "f1"⟩ ::
    List.replicate 7 (.advance 0 (.answer (.ok monitored)))

theorem admission_exclusive_monitor :
    AdmissionExclusive bareHost
      ((System.init "1-1" [("dev-1", monitored)]).run bareHost monitorSteps) "dev-1" :=
  admission_exclusive bareHost "1-1" _ monitorSteps "dev-1" (by decide +kernel)

end System
end IdfRemote
