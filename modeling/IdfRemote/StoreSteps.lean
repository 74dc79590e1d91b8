import IdfRemote.Announcements
import IdfRemote.Exclusivity

/-!
# What a step does to the store

A step of the daemon enters one section of the store's lock at most. The list of
these sections, with what is known where each of them begins, is the case analysis
of every invariant of the store. Most instructions of a worker touch its device
and leave the operations, their keys and their artifacts alone.
-/
namespace IdfRemote

/-- Operations, request keys and artifacts stay. -/
def Store.Touches (s s' : Store) : Prop := s' = { s with devices := s'.devices }

namespace Store
variable {s s' s'' : Store}

theorem Touches.refl (s : Store) : s.Touches s := rfl

theorem Touches.trans (h : s.Touches s') (h' : s'.Touches s'') : s.Touches s'' :=
  Eq.trans h' (congrArg (fun t : Store => { t with devices := s''.devices }) h)

theorem touches_emit (size : Event → ℕ) (s : Store) (device : DeviceId) (kind : String)
    (data : Value) : s.Touches (s.emit size device kind data) := rfl

theorem touches_emitAll (size : Event → ℕ) (s : Store) (device : DeviceId) (news : List News) :
    s.Touches (s.emitAll size device news) :=
  related_emitAll .refl (fun h h' => h.trans h') (fun s => s.touches_emit size device) s news

end Store

/-- All other instructions touch devices only, and no flag of them. -/
theorem Worker.exec_touches (host : Host) (device : DeviceId) (i : Inputs) (s : Store)
    (w : Worker) {instr : Instr} (h : instr.completes = false) :
    s.Touches (Worker.exec host device i s w instr).1 ∧
      s.Settled (Worker.exec host device i s w instr).1 := by
  cases instr with
  | finishStream done hasReader => cases h
  | finishExclusive id result artifact hasReader => cases h
  | emit kind data => exact ⟨s.touches_emit _ _ _ _, s.settled_emit _ _ _ _⟩
  | describe descriptor => exact ⟨.refl s, .refl s⟩
  | setAvailability availability =>
      exact ⟨rfl, s.settled_setAvailability device availability⟩
  | beginMonitorReconnect baud text =>
      constructor
      · rfl
      · refine Store.Settled.trans ?_ (Store.settled_emit _ _ _ _ _)
        exact s.settled_modifyDevice device _ (fun _ => rfl) (fun _ => rfl) fun _ => rfl
  | finishMonitorReconnect baud attempts =>
      constructor
      · rfl
      · refine Store.Settled.trans ?_ (Store.settled_emit _ _ _ _ _)
        exact s.settled_modifyDevice device _ (fun _ => rfl) (fun _ => rfl) fun _ => rfl
  | output output =>
      rw [exec_output]
      exact ⟨s.touches_emitAll _ device _, s.settled_emitAll _ device _⟩
  | raw bytes reopens deadline =>
      rw [exec_raw]
      exact ⟨s.touches_emitAll _ device _, s.settled_emitAll _ device _⟩

/-- The store, the jobs handed over, and the devices, as a step leaves them, and what it
announces on each device. -/
inductive StoreStep (host : Host) (s : System) :
    Step → Store → List Enqueued → List DeviceId → (DeviceId → List News) → Prop
  | idle {step : Step} : StoreStep host s step s.store s.enqueued s.devices fun _ => []
  | availability {step : Step} (device : DeviceId) (availability : DeviceAvailability) :
      StoreStep host s step (s.store.modifyDevice device (·.setAvailability availability))
        s.enqueued s.devices fun _ => []
  | admission {n : ℕ} {refresh : Refresh} (sub : Submission) (accepted : Store) (op : Operation)
      (hknown : sub.request.deviceId ∈ s.devices)
      (hreplay : s.store.replay sub.identity = .ok none)
      (haccept : s.store.accept host sub.request.deviceId sub.action sub.identity =
        .ok (accepted, op))
      (hroom : s.hasRoom sub.request.deviceId = true)
      (hsub : s.submissions[n]? = some sub) (hadmits : s.admits host sub = true) :
      StoreStep host s (.advance n refresh) accepted
        (s.enqueued ++ [⟨⟨op.id, sub.request, sub.action⟩, sub.identity⟩]) s.devices
        (newsOn sub.request.deviceId [("operation_started", .object [])])
  | withdrawal {n : ℕ} {refresh : Refresh} (sub : Submission) (accepted : Store) (op : Operation)
      (hknown : sub.request.deviceId ∈ s.devices)
      (hreplay : s.store.replay sub.identity = .ok none)
      (haccept : s.store.accept host sub.request.deviceId sub.action sub.identity =
        .ok (accepted, op))
      (hroom : s.hasRoom sub.request.deviceId = false) :
      StoreStep host s (.advance n refresh)
        (accepted.withdraw sub.request.deviceId sub.action sub.identity) s.enqueued s.devices
        (newsOn sub.request.deviceId [("operation_started", .object [])])
  | instruction (device : DeviceId) (i : Inputs) (instr : Instr) (rest : List Instr)
      (hknown : device ∈ s.devices) (htodo : (s.workers device).todo = instr :: rest) :
      StoreStep host s (.work device i)
        (Worker.exec host device i s.store { s.workers device with todo := rest } instr).1
        s.enqueued s.devices
        (newsOn device ({ s.workers device with todo := rest }.news host device i s.store instr))
  | discovery (descriptor : DeviceDescriptor) (hnew : descriptor.id ∉ s.devices) :
      StoreStep host s (.discover descriptor)
        (s.store.modifyDevice descriptor.id fun _ => { status := descriptor.status })
        s.enqueued (s.devices ++ [descriptor.id]) fun _ => []

namespace System
variable {host : Host} {s : System}

theorem tryStart_storeStep (host : Host) (s : System) {sub : Submission} {n : ℕ}
    (hsub : s.submissions[n]? = some sub) (refresh : Refresh)
    (hadmits : s.admits host sub = s.starts host sub)
    (hknown : sub.request.deviceId ∈ s.devices) :
    StoreStep host s (.advance n refresh) (s.tryStart host sub).1.store
      (s.tryStart host sub).1.enqueued (s.tryStart host sub).1.devices
      (if s.starts host sub then
        newsOn sub.request.deviceId [("operation_started", .object [])]
      else fun _ => []) := by
  unfold starts at hadmits
  unfold tryStart starts
  cases hreplay : s.store.replay sub.identity with
  | error e => exact .idle
  | ok found =>
      cases found with
      | some op => exact .idle
      | none =>
          rw [hreplay] at hadmits
          dsimp only at hadmits ⊢
          cases haccept : s.store.accept host sub.request.deviceId sub.action sub.identity with
          | error e => exact .idle
          | ok r =>
              obtain ⟨accepted, op⟩ := r
              rw [haccept] at hadmits
              dsimp only
              cases hroom : s.hasRoom sub.request.deviceId with
              | true => exact .admission sub accepted op hknown hreplay haccept hroom hsub hadmits
              | false => exact .withdrawal sub accepted op hknown hreplay haccept hroom

theorem proceed_storeStep (host : Host) (h : s.Consistent) {sub : Submission} {n : ℕ}
    (hsub : s.submissions[n]? = some sub) (refresh : Refresh) :
    StoreStep host s (.advance n refresh) (s.proceed host sub refresh).1.store
      (s.proceed host sub refresh).1.enqueued (s.proceed host sub refresh).1.devices
      (if s.admits host sub then
        newsOn sub.request.deviceId [("operation_started", .object [])]
      else fun _ => []) := by
  have hfound := h.found sub (List.mem_of_getElem? hsub)
  rcases s.proceed_cases host sub refresh with
      ⟨hadmits, hp | ⟨descriptor, hp⟩ | ⟨availability, hp⟩⟩ | ⟨descriptor, hphase, hprecheck, hp⟩
  · rw [hp, hadmits]
    exact .idle
  · rw [hp, hadmits, describe_devices]
    exact .idle
  · rw [hp, hadmits]
    exact .availability _ _
  · have hadmits : s.admits host sub = s.starts host sub := by
      rw [admits, hphase]
      dsimp only
      rw [hprecheck]
      rfl
    rw [hphase] at hfound
    rw [hp, hadmits]
    exact s.tryStart_storeStep host hsub refresh hadmits (hfound rfl)

theorem advance_storeStep (host : Host) (h : s.Consistent) (n : ℕ) (refresh : Refresh) :
    StoreStep host s (.advance n refresh) (s.advance host n refresh).store
      (s.advance host n refresh).enqueued (s.advance host n refresh).devices
      (s.news host (.advance n refresh)) := by
  unfold advance news
  dsimp only
  cases hsub : s.submissions[n]? with
  | none => exact .idle
  | some sub => exact s.proceed_storeStep host h hsub refresh

theorem work_storeStep (host : Host) (s : System) (device : DeviceId) (i : Inputs) :
    StoreStep host s (.work device i) (s.work host device i).store
      (s.work host device i).enqueued (s.work host device i).devices
      (s.news host (.work device i)) := by
  unfold work news
  dsimp only
  split_ifs with hunknown
  · exact .idle
  · have hknown : device ∈ s.devices := mem_devices.mpr (by simpa using hunknown)
    cases htodo : (s.workers device).todo with
    | cons instr rest =>
        obtain ⟨decoder, bootReopenAt, runtimes, hdevices, hexecute⟩ :=
          s.execute_eq host device i instr rest
        dsimp only
        rw [hexecute]
        have hsame : ({ s with runtimes := runtimes } : System).devices = s.devices := hdevices
        exact hsame ▸ .instruction device i instr rest hknown htodo
    | nil =>
        unfold pass
        dsimp only
        split
        · exact .idle
        · split_ifs <;> exact .idle
        · split <;> exact .idle
        · exact .idle
        · exact .idle

/-- What a step of the daemon does to its store. -/
theorem next_storeStep (host : Host) (h : s.Consistent) (step : Step) :
    StoreStep host s step (s.next host step).store (s.next host step).enqueued
      (s.next host step).devices (s.news host step) := by
  cases step with
  | submit request action identity => exact .idle
  | advance n refresh => exact s.advance_storeStep host h n refresh
  | work device inputs => exact s.work_storeStep host device inputs
  | shutdown => exact .idle
  | discover descriptor =>
      rw [System.next]
      rcases s.discover_cases descriptor with hold | ⟨hnew, hd⟩
      · rw [hold]
        exact .idle
      · rw [hd, System.devices, List.map_append]
        exact .discovery descriptor hnew
  | describe device descriptor =>
      rw [System.next, describe_devices]
      exact .idle
  | setAvailability device availability =>
      simp only [System.next]
      split_ifs
      · exact .availability device availability
      · exact .idle

end System
end IdfRemote
