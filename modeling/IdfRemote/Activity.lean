import IdfRemote.Monitoring
import IdfRemote.Runs
import IdfRemote.StoreSteps

/-!
# A busy device is shown as busy

An admission, a completion and a withdrawal each show what the flags of their device
say. The two sections that follow a lost and a found stream show the device as
reconnecting and as monitoring without a look at its flags, so a device that is busy
when one of them is entered is shown as something else, and this is the only way.
-/
namespace IdfRemote
open Runs

namespace DeviceState
variable {state state' : DeviceState}

/-- What occupies a device, and what it shows to be doing. -/
def work (state : DeviceState) : Bool × Bool × Bool × DeviceActivity :=
  (state.busy, state.applicationPending, state.inputPending, state.status.activity)

/-- A busy device says so. -/
def Reported (state : DeviceState) : Prop := state.busy = true → state.status.activity = .busy
deriving Decidable

theorem Reported.congr (h : state.Reported) (hwork : state'.work = state.work) :
    state'.Reported := by
  simp only [work, Prod.mk.injEq] at hwork
  obtain ⟨hbusy, -, -, hactivity⟩ := hwork
  rw [Reported, hbusy, hactivity]
  exact h

theorem reported_of_idle (h : state.busy = false) : state.Reported := fun hbusy => by
  rw [h] at hbusy
  cases hbusy

theorem reported_completeStream (state : DeviceState) (lane : Lane) (hasReader : Bool) :
    (state.completeStream lane hasReader).Reported := by
  intro hbusy
  cases lane <;> exact if_pos hbusy

theorem reported_completeExclusive (state : DeviceState) (succeeded hasReader : Bool) :
    (state.completeExclusive succeeded hasReader).Reported := reported_of_idle rfl

theorem reported_release (state : DeviceState) (action : Action) :
    (state.release action).Reported := fun hbusy => if_pos hbusy

theorem reported_setActivity_busy (state : DeviceState) :
    (state.setActivity .busy).Reported := fun _ => rfl

end DeviceState

/-- Nothing that a device shows of its work changes. -/
def Store.SameWork (s s' : Store) : Prop :=
  ∀ device, (s'.devices device).work = (s.devices device).work

namespace Store
variable {s s' s'' : Store} {device : DeviceId}

theorem SameWork.refl (s : Store) : s.SameWork s := fun _ => rfl

theorem SameWork.trans (h : s.SameWork s') (h' : s'.SameWork s'') : s.SameWork s'' :=
  fun device => (h' device).trans (h device)

theorem sameWork_modifyDevice (s : Store) (device : DeviceId) {f : DeviceState → DeviceState}
    (hf : ∀ state, (f state).work = state.work) : s.SameWork (s.modifyDevice device f) := by
  intro d
  by_cases hd : d = device
  · rw [hd, modifyDevice_self, hf]
  · rw [modifyDevice_of_ne _ _ _ hd]

theorem sameWork_emit (size : Event → ℕ) (s : Store) (device : DeviceId) (kind : String)
    (data : Value) : s.SameWork (s.emit size device kind data) :=
  s.sameWork_modifyDevice device fun _ => rfl

theorem sameWork_emitAll (size : Event → ℕ) (s : Store) (device : DeviceId) (news : List News) :
    s.SameWork (s.emitAll size device news) :=
  related_emitAll .refl (fun h h' => h.trans h') (fun s => s.sameWork_emit size device) s news

/-- A completion writes down what its own device shows, and nothing else. -/
theorem conclude_work (host : Host) (s : Store) (device : DeviceId) (id : String)
    (finish : Operation → Operation) (complete : DeviceState → DeviceState) (d : DeviceId) :
    ((s.conclude host device id finish complete).devices d).work = (s.devices d).work ∨
      d = device ∧ ((s.conclude host device id finish complete).devices d).work =
        (complete (s.devices d)).work := by
  unfold conclude
  cases s.operations.find? fun op => op.id = id with
  | none => exact .inl rfl
  | some op =>
      rw [sameWork_emit]
      by_cases hd : d = device
      · subst hd
        exact .inr ⟨rfl, by rw [modifyDevice_self]⟩
      · exact .inl (by rw [modifyDevice_of_ne _ _ _ hd])

end Store

/-- The sections that follow a lost and a found stream. -/
def Instr.reconnects : Instr → Bool
  | .beginMonitorReconnect .. | .finishMonitorReconnect .. => true
  | _ => false

/-- Apart from completions and reconnects, no instruction changes what a device shows. -/
theorem Worker.exec_sameWork (host : Host) (device : DeviceId) (i : Inputs) (s : Store)
    (w : Worker) {instr : Instr} (hcompletes : instr.completes = false)
    (hreconnects : instr.reconnects = false) :
    s.SameWork (Worker.exec host device i s w instr).1 := by
  cases instr with
  | finishStream done hasReader => cases hcompletes
  | finishExclusive id result artifact hasReader => cases hcompletes
  | beginMonitorReconnect baud text => cases hreconnects
  | finishMonitorReconnect baud attempts => cases hreconnects
  | emit kind data => exact s.sameWork_emit _ _ _ _
  | describe descriptor => exact .refl s
  | setAvailability availability =>
      exact s.sameWork_modifyDevice (f := (·.setAvailability availability)) device fun _ => rfl
  | output output =>
      rw [exec_output]
      exact s.sameWork_emitAll _ device _
  | raw bytes reopens deadline =>
      rw [exec_raw]
      exact s.sameWork_emitAll _ device _

/-- Every busy device says so. -/
def Store.Reported (s : Store) : Prop := ∀ device, (s.devices device).Reported

namespace Store.Reported
variable {s s' : Store}

theorem congr (h : s.Reported) (hwork : s.SameWork s') : s'.Reported :=
  fun device => (h device).congr (hwork device)

theorem modifyDevice (h : s.Reported) (device : DeviceId) {f : DeviceState → DeviceState}
    (hf : (f (s.devices device)).Reported) : (s.modifyDevice device f).Reported := by
  intro d
  by_cases hd : d = device
  · rwa [hd, modifyDevice_self]
  · rw [modifyDevice_of_ne _ _ _ hd]
    exact h d

theorem conclude (h : s.Reported) (host : Host) (device : DeviceId) (id : String)
    (finish : Operation → Operation) {complete : DeviceState → DeviceState}
    (hcomplete : ∀ state, (complete state).Reported) :
    (s.conclude host device id finish complete).Reported := by
  intro d
  rcases s.conclude_work host device id finish complete d with hsame | ⟨-, hdone⟩
  · exact (h d).congr hsame
  · exact (hcomplete _).congr hdone

theorem finishStream (h : s.Reported) (host : Host) (device : DeviceId) (done : List Completion)
    (hasReader : Bool) : (s.finishStream host device done hasReader).Reported := by
  induction done generalizing s with
  | nil => exact h
  | cons c done ih =>
      exact ih (h.conclude host device c.key _ fun state =>
        state.reported_completeStream c.lane hasReader)

theorem finishExclusive (h : s.Reported) (host : Host) (device : DeviceId) (id : String)
    (result : Result Value) (artifact : Option ArtifactRecord) (hasReader : Bool) :
    (s.finishExclusive host device id result artifact hasReader).Reported := by
  have hkeep : (s.keepArtifact id result artifact).Reported := by
    intro d
    rw [s.devices_keepArtifact]
    exact h d
  exact hkeep.conclude host device id _ fun state =>
    state.reported_completeExclusive result.isOk hasReader

theorem exec (h : s.Reported) (host : Host) (device : DeviceId) (i : Inputs) (w : Worker)
    {instr : Instr} (hidle : instr.reconnects = true → (s.devices device).busy = false) :
    (Worker.exec host device i s w instr).1.Reported := by
  cases hcompletes : instr.completes with
  | true =>
      cases instr with
      | finishStream done hasReader => exact h.finishStream host device done hasReader
      | finishExclusive id result artifact hasReader =>
          exact h.finishExclusive host device id result artifact hasReader
      | _ => cases hcompletes
  | false =>
      cases hreconnects : instr.reconnects with
      | false => exact h.congr (Worker.exec_sameWork host device i s w hcompletes hreconnects)
      | true =>
          have hbusy := hidle hreconnects
          cases instr with
          | beginMonitorReconnect baud text =>
              refine (h.modifyDevice device ?_).congr (Store.sameWork_emit _ _ _ _ _)
              exact DeviceState.reported_of_idle hbusy
          | finishMonitorReconnect baud attempts =>
              refine (h.modifyDevice device ?_).congr (Store.sameWork_emit _ _ _ _ _)
              exact DeviceState.reported_of_idle hbusy
          | _ => cases hreconnects

variable {devices : List DeviceId} {enqueued : List Enqueued} {host : Host} {device : DeviceId}
  {action : Action} {identity : RequestIdentity} {accepted : Store} {op : Operation}

theorem accept (h : s.Reported) (hretained : Retained s devices enqueued)
    (haccept : s.accept host device action identity = .ok (accepted, op)) :
    accepted.Reported := by
  intro d
  by_cases hd : d = device
  · subst hd
    obtain ⟨kind, data, hstate⟩ := Fits.devices_accept_self hretained haccept
    rw [hstate]
    exact DeviceState.reported_setActivity_busy _
  · rw [Fits.devices_accept_of_ne hretained haccept hd]
    exact h d

theorem withdraw (h : accepted.Reported) (device : DeviceId) (action : Action)
    (identity : RequestIdentity) : (accepted.withdraw device action identity).Reported :=
  h.modifyDevice (f := (·.release action)) device (DeviceState.reported_release _ action)

end Store.Reported

theorem Store.not_reported_exec (host : Host) (device : DeviceId) (i : Inputs) {s : Store}
    (w : Worker) {instr : Instr} (hreconnects : instr.reconnects = true)
    (hbusy : (s.devices device).busy = true) :
    ¬ (Worker.exec host device i s w instr).1.Reported := by
  intro h
  cases instr with
  | beginMonitorReconnect baud text =>
      have hshown := h device
      rw [Worker.exec, Store.beginMonitorReconnect, Store.emit, Store.modifyDevice_self,
        Store.modifyDevice_self] at hshown
      cases hshown hbusy
  | finishMonitorReconnect baud attempts =>
      have hshown := h device
      rw [Worker.exec, Store.finishMonitorReconnect, Store.emit, Store.modifyDevice_self,
        Store.modifyDevice_self] at hshown
      cases hshown hbusy
  | _ => cases hreconnects

namespace System

/-- A worker's next instruction reconnects its device, which is busy. -/
def overwrites (s : System) : Step → Bool
  | .work device _ =>
      (s.runtimes.lookup device).isSome &&
        (s.workers device).todo.head?.any Instr.reconnects && (s.store.devices device).busy
  | _ => false

theorem reported_next (host : Host) {s : System} (hconsistent : s.Consistent)
    (h : s.store.Reported) {step : Step} (hsafe : s.overwrites step = false) :
    (s.next host step).store.Reported := by
  have hstep := s.next_storeStep host hconsistent step
  generalize (s.next host step).store = store, (s.next host step).enqueued = enqueued,
    (s.next host step).devices = devices, s.news host step = news at hstep ⊢
  cases hstep with
  | idle => exact h
  | availability device availability =>
      exact h.congr (s.store.sameWork_modifyDevice (f := (·.setAvailability availability)) device
        fun _ => rfl)
  | admission sub accepted op hknown hreplay haccept =>
      exact h.accept hconsistent.retained haccept
  | withdrawal sub accepted op hknown hreplay haccept =>
      exact (h.accept hconsistent.retained haccept).withdraw _ _ _
  | instruction device i instr rest hknown htodo =>
      apply h.exec host device i
      intro hreconnects
      rw [overwrites, htodo, mem_devices.mp hknown] at hsafe
      simpa [hreconnects] using hsafe
  | discovery descriptor hnew =>
      exact h.modifyDevice descriptor.id (DeviceState.reported_of_idle rfl)

theorem not_reported_next (host : Host) {s : System} {step : Step}
    (hbreaks : s.overwrites step = true) : ¬ (s.next host step).store.Reported := by
  cases step with
  | work device i =>
      simp only [overwrites, Bool.and_eq_true, Option.isSome_iff_ne_none] at hbreaks
      obtain ⟨⟨hknown, hhead⟩, hbusy⟩ := hbreaks
      cases htodo : (s.workers device).todo with
      | nil =>
          rw [htodo] at hhead
          cases hhead
      | cons instr rest =>
          obtain ⟨decoder, bootReopenAt, runtimes, -, hexecute⟩ :=
            s.execute_eq host device i instr rest
          have hwork : s.work host device i = s.execute host device i instr rest := by
            simp [work, hknown, htodo]
          rw [htodo] at hhead
          rw [System.next, hwork, hexecute]
          exact Store.not_reported_exec host device i _ (by simpa using hhead) hbusy
  | _ => cases hbreaks

/-- A busy device is shown as busy throughout a run, if and only if no stream is reported as
lost or found while its device is busy. -/
theorem busy_reported_iff (host : Host) (epoch : String)
    (runtimes : List (DeviceId × DeviceDescriptor)) (steps : List Step) :
    Throughout (next host) (fun s => s.store.Reported) (System.init epoch runtimes) steps ↔
      eachSafe (next host) (fun s step => !s.overwrites step) (System.init epoch runtimes)
        steps = true := by
  apply throughout_iff (R := Consistent)
  · exact fun s step h => h.next step
  · exact fun s step hconsistent h hsafe =>
      reported_next host hconsistent h (by simpa using hsafe)
  · exact fun s step _ _ hbreaks => not_reported_next host (by simpa using hbreaks)
  · exact .init epoch runtimes
  · exact fun _ => DeviceState.reported_of_idle rfl

def flashable : DeviceDescriptor := { monitored with capabilities := [.monitor, .flash] }

def reopening : Inputs := { stalled (fun _ => 0) with refresh := .ok flashable }

/-- The stream of a monitor ends and is found again, but before the worker reports this, a
flash is admitted. The worker begins with it afterwards. -/
def flashSteps : List Step :=
  openSteps ++ List.replicate 4 (.work "dev-1" { reopening with read := .ok [] }) ++
    List.replicate 5 (.work "dev-1" reopening) ++
    .submit ⟨"dev-1", 115200, true⟩ (.flash 460800 []) ⟨"key-2", "f2"⟩ ::
    List.replicate 8 (.advance 1 (.answer (.ok flashable))) ++
    List.replicate 4 (.work "dev-1" reopening)

theorem flash_shows_monitor :
    ¬ Throughout (next bareHost) (fun s => s.store.Reported)
      (System.init "1-1" [("dev-1", monitored)]) flashSteps :=
  fun h => absurd (h.last "dev-1") (by decide +kernel)

end System
end IdfRemote
