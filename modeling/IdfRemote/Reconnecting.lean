import IdfRemote.Activity
import IdfRemote.StoreInvariant

/-!
# A device that waits for its stream is shown as reconnecting

A worker that has lost its stream tries to find it again until it succeeds or starts
something else. We follow what its device will show once the worker's instructions
are carried out. Only the completions of requests that the stream took along, or of
a request that could not be started, can make the device forget that it waits.
-/
namespace IdfRemote
open Runs

namespace DeviceState
variable {state state' : DeviceState}

/-- A device is busy or shown as reconnecting. -/
def waits (state : DeviceState) : Bool := state.busy || state.status.activity = .reconnecting

theorem waits_congr (hwork : state'.work = state.work) : state'.waits = state.waits := by
  simp only [work, Prod.mk.injEq] at hwork
  obtain ⟨hbusy, -, -, hactivity⟩ := hwork
  rw [waits, hbusy, hactivity, waits]

/-- The completions leave no request pending. -/
def settles (state : DeviceState) (done : List Completion) : Bool :=
  !(state.applicationPending && done.all fun c => c.lane ≠ .application) &&
    !(state.inputPending && done.all fun c => c.lane ≠ .input)

/-- What `finish_stream` makes of a device. -/
def completeStreams (state : DeviceState) (done : List Completion) (hasReader : Bool) :
    DeviceState :=
  done.foldl (fun state c => state.completeStream c.lane hasReader) state

theorem completeStream_congr (hwork : state'.work = state.work) (lane : Lane)
    (hasReader : Bool) :
    (state'.completeStream lane hasReader).work = (state.completeStream lane hasReader).work := by
  simp only [work, Prod.mk.injEq] at hwork
  obtain ⟨-, happ, hinput, hactivity⟩ := hwork
  cases lane <;> simp [completeStream, setActivity, work, happ, hinput, hactivity]

theorem completeStreams_congr (hwork : state'.work = state.work) (done : List Completion)
    (hasReader : Bool) : (state'.completeStreams done hasReader).work =
      (state.completeStreams done hasReader).work := by
  induction done generalizing state state' with
  | nil => exact hwork
  | cons c done ih => exact ih (completeStream_congr hwork c.lane hasReader)

theorem settles_cons (state : DeviceState) (c : Completion) (done : List Completion)
    (hasReader : Bool) :
    state.settles (c :: done) = (state.completeStream c.lane hasReader).settles done := by
  cases hlane : c.lane <;> simp [settles, completeStream, setActivity, hlane]

/-- After some completions a device is busy exactly if they leave something pending. -/
theorem completeStreams_busy (state : DeviceState) {done : List Completion} (hne : done ≠ [])
    (hasReader : Bool) :
    (state.completeStreams done hasReader).busy = !state.settles done := by
  induction done generalizing state with
  | nil => exact absurd rfl hne
  | cons c done ih =>
      rw [completeStreams, List.foldl_cons, settles_cons state c done hasReader]
      cases done with
      | nil => cases hlane : c.lane <;> simp [settles, completeStream, setActivity]
      | cons next done => exact ih _ (List.cons_ne_nil _ _)

/-- The completions leave nothing pending, and the device does not stay as reconnecting: it
is shown as something else already, it has a reader, or it is busy in between. -/
def forgets (state : DeviceState) (done : List Completion) (hasReader : Bool) : Bool :=
  !done.isEmpty && state.settles done &&
    (hasReader || state.status.activity ≠ .reconnecting || !state.settles (done.take 1))

theorem completeStream_activity (state : DeviceState) (lane : Lane) (hasReader : Bool) :
    (state.completeStream lane hasReader).status.activity =
      if (state.completeStream lane hasReader).busy then .busy
      else if hasReader then .monitoring
      else if state.status.activity = .reconnecting then .reconnecting
      else .error := by
  cases lane <;> rfl

theorem completeStream_busy (state : DeviceState) (c : Completion) (hasReader : Bool) :
    (state.completeStream c.lane hasReader).busy = !state.settles [c] :=
  state.completeStreams_busy (List.cons_ne_nil c []) hasReader

theorem completeStreams_ne_reconnecting {state : DeviceState}
    (h : state.status.activity ≠ .reconnecting) (done : List Completion) (hasReader : Bool) :
    (state.completeStreams done hasReader).status.activity ≠ .reconnecting := by
  induction done generalizing state with
  | nil => exact h
  | cons c done ih =>
      apply ih
      rw [completeStream_activity, if_neg h]
      split_ifs <;> simp

/-- A device stays as reconnecting when nothing is pending after the first completion. -/
theorem completeStreams_reconnecting {state : DeviceState}
    (h : state.status.activity = .reconnecting) {done : List Completion}
    (hsettles : state.settles (done.take 1) = true) :
    (state.completeStreams done false).status.activity = .reconnecting := by
  have hmore : ∀ {state : DeviceState} {done : List Completion}, state.settles [] = true →
      state.settles done = true := by
    intro state done hnone
    simp only [settles, List.all_nil, Bool.and_true, Bool.and_eq_true, Bool.not_eq_true'] at hnone
    simp [settles, hnone.1, hnone.2]
  induction done generalizing state with
  | nil => exact h
  | cons c done ih =>
      rw [List.take_succ_cons, List.take_zero] at hsettles
      apply ih
      · rw [completeStream_activity, completeStream_busy, hsettles, if_pos h]
        rfl
      · rw [settles_cons state c [] false] at hsettles
        exact hmore hsettles

theorem waits_completeStreams {state : DeviceState} (h : state.waits = true)
    {done : List Completion} {hasReader : Bool} (hkeeps : state.forgets done hasReader = false) :
    (state.completeStreams done hasReader).waits = true := by
  cases done with
  | nil => exact h
  | cons c done =>
      have hbusy := state.completeStreams_busy (List.cons_ne_nil c done) hasReader
      rw [waits, hbusy]
      cases hsettles : state.settles (c :: done) with
      | false => rfl
      | true =>
          simp only [forgets, List.isEmpty_cons, Bool.not_false, hsettles, Bool.true_and,
            Bool.or_eq_false_iff, decide_eq_false_iff_not, not_not, Bool.not_eq_false'] at hkeeps
          obtain ⟨⟨rfl, hactivity⟩, hfirst⟩ := hkeeps
          simpa using completeStreams_reconnecting hactivity hfirst

theorem not_waits_completeStreams {state : DeviceState} {done : List Completion}
    {hasReader : Bool} (hforgets : state.forgets done hasReader = true) :
    (state.completeStreams done hasReader).waits = false := by
  simp only [forgets, Bool.and_eq_true, Bool.not_eq_true', Bool.or_eq_true,
    decide_eq_true_eq] at hforgets
  obtain ⟨⟨hne, hsettles⟩, hother⟩ := hforgets
  cases done with
  | nil => cases hne
  | cons c done =>
      have hbusy := state.completeStreams_busy (List.cons_ne_nil c done) hasReader
      have hfirst : (state.completeStream c.lane hasReader).status.activity ≠ .reconnecting := by
        rw [completeStream_activity, completeStream_busy]
        rcases hother with (rfl | hactivity) | hpending
        · rw [if_pos rfl]
          split_ifs <;> simp
        · rw [if_neg hactivity]
          split_ifs <;> simp
        · rw [List.take_succ_cons, List.take_zero] at hpending
          rw [hpending]
          simp
      have hactivity : (state.completeStreams (c :: done) hasReader).status.activity ≠
          .reconnecting := completeStreams_ne_reconnecting hfirst done hasReader
      rw [waits, hbusy, hsettles]
      simpa using hactivity

end DeviceState
/-- What an instruction does to a device that waits. A completion is no exception here. -/
def Instr.waits (waits : Bool) : Instr → Bool
  | .beginMonitorReconnect .. => true
  | .finishMonitorReconnect .. | .finishExclusive .. => false
  | _ => waits

def todoWaits (waits : Bool) (todo : List Instr) : Bool := todo.foldl Instr.waits waits

@[simp] theorem todoWaits_nil (waits : Bool) : todoWaits waits [] = waits := rfl

@[simp] theorem todoWaits_cons (waits : Bool) (instr : Instr) (todo : List Instr) :
    todoWaits waits (instr :: todo) = todoWaits (instr.waits waits) todo := rfl

@[simp] theorem todoWaits_append (waits : Bool) (todo todo' : List Instr) :
    todoWaits waits (todo ++ todo') = todoWaits (todoWaits waits todo) todo' :=
  List.foldl_append

theorem todoWaits_mono {waits waits' : Bool} (hle : waits = true → waits' = true)
    {todo : List Instr} (h : todoWaits waits todo = true) : todoWaits waits' todo = true := by
  induction todo generalizing waits waits' with
  | nil => exact hle h
  | cons instr todo ih => exact ih (by cases instr <;> first | exact hle | exact id) h

@[simp] theorem todoWaits_ensureAvailable (waits : Bool) (i : Inputs) :
    todoWaits waits i.ensureAvailable.1 = waits := by
  unfold Inputs.ensureAvailable
  split <;> rfl

@[simp] theorem todoWaits_ite {c : Prop} [Decidable c] {kind : String} {data : Value}
    (waits : Bool) : todoWaits waits (if c then [.emit kind data] else []) = waits := by
  split_ifs <;> rfl

@[simp] theorem todoWaits_finishInstr (waits : Bool) (done : List Completion)
    (hasReader : Bool) : todoWaits waits (finishInstr done hasReader) = waits := by
  unfold finishInstr
  split_ifs <;> rfl

@[simp] theorem todoWaits_output (waits : Bool) (outputs : List Application.Output) :
    todoWaits waits (outputs.map Instr.output) = waits := by
  induction outputs with
  | nil => rfl
  | cons output outputs ih => exact ih

/-- A worker that looks for its stream has a device that waits, or will have one. -/
def Worker.Waits (w : Worker) (waits : Bool) : Prop :=
  w.reconnect.isSome = true → todoWaits waits w.todo = true

namespace Worker.Waits
variable {w : Worker} {waits : Bool}

theorem of_none {w : Worker} (h : w.reconnect = none) (waits : Bool) : w.Waits waits := by
  intro hsome
  rw [h] at hsome
  cases hsome

theorem abandon (h : w.Waits waits) (htodo : w.todo = []) : w.abandon.Waits waits := by
  unfold Worker.abandon
  split
  · intro hsome
    have hwaits := h hsome
    rw [htodo, todoWaits_nil] at hwaits
    dsimp only
    rw [todoWaits_append, todoWaits_ite, todoWaits_finishInstr]
    exact hwaits
  · exact h

theorem lose (text : String) (i : Inputs) {todo : List Instr}
    (h : w.reconnect.isSome = true → todoWaits waits todo = true) :
    (w.lose text i todo).Waits waits := by
  unfold Worker.lose
  split
  · exact h
  · intro _
    rw [todoWaits_append]
    rfl

theorem deliver (host : Host) (bytes : List UInt8) (reopens : Bool) (i : Inputs)
    {todo : List Instr} (h : w.reconnect.isSome = true → todoWaits waits todo = true) :
    (w.deliver host bytes reopens i todo).Waits waits := by
  unfold Worker.deliver
  dsimp only
  split_ifs
  · split
    · intro hsome
      have hwaits := h hsome
      simp only [todoWaits_append, todoWaits_output, todoWaits_finishInstr]
      split
      · rwa [todoWaits_ite]
      · exact hwaits
    · intro hsome
      simpa [Instr.waits] using h hsome
  · intro hsome
    simpa [Instr.waits] using h hsome

theorem readStream (host : Host) (reopens : Bool) (i : Inputs) {todo : List Instr}
    (h : w.reconnect.isSome = true → todoWaits waits todo = true) :
    (w.readStream host reopens i todo).Waits waits := by
  unfold Worker.readStream
  split
  · exact lose _ i h
  · exact deliver host _ reopens i h
  · split_ifs
    · exact h
    · exact lose (w := { w with bootReopenAt := none }) _ i h

theorem reopen (h : w.Waits waits) (htodo : w.todo = []) (i : Inputs) :
    (w.reopen i).Waits waits := by
  unfold Worker.reopen
  split
  · exact h
  · next r hreconnect =>
    split_ifs
    · dsimp only
      split
      · exact of_none rfl waits
      · intro _
        have hwaits := h (hreconnect ▸ rfl)
        rw [htodo, todoWaits_nil] at hwaits
        rwa [todoWaits_ensureAvailable]
    · exact h

theorem attend (h : w.Waits waits) (htodo : w.todo = []) (host : Host) (reopens : Bool)
    (i : Inputs) {todo : List Instr} (hneutral : todoWaits waits todo = waits) :
    (w.attend host reopens i todo).Waits waits := by
  have hwaits : w.reconnect.isSome = true → todoWaits waits todo = true := by
    intro hsome
    have hbefore := h hsome
    rw [htodo, todoWaits_nil] at hbefore
    rw [hneutral, hbefore]
  unfold Worker.attend
  split_ifs
  · exact lose (w := { w with bootReopenAt := none }) _ i hwaits
  · exact readStream host reopens i hwaits
  · exact h.reopen htodo i

theorem idle (h : w.Waits waits) (htodo : w.todo = []) (host : Host) (reopens : Bool)
    (i : Inputs) : (w.idle host reopens i).Waits waits := by
  unfold Worker.idle
  split_ifs
  · split
    · next duplex done hcall =>
      exact attend (w := { w with duplex := duplex }) h htodo host reopens i
        (todoWaits_finishInstr _ _ _)
    · intro hsome
      have hwaits := h hsome
      rw [htodo, todoWaits_nil] at hwaits
      dsimp only
      rw [todoWaits_append, todoWaits_ite, todoWaits_finishInstr]
      exact hwaits
  · exact h.attend htodo host reopens i rfl

theorem attach (w : Worker) (job : Job) (i : Inputs) (waits : Bool) :
    (w.attach job i).1.reconnect = w.reconnect ∧
      todoWaits waits (w.attach job i).2.1 = waits := by
  have hfound := todoWaits_ensureAvailable waits i
  unfold Worker.attach
  dsimp only
  split_ifs
  · exact ⟨rfl, rfl⟩
  · exact ⟨rfl, rfl⟩
  · exact ⟨rfl, rfl⟩
  · split
    · exact ⟨rfl, hfound⟩
    · split <;> exact ⟨rfl, hfound⟩
  · exact ⟨rfl, rfl⟩

theorem refuse (job : Job) {found : List Instr} (e : Error)
    (h : w.reconnect.isSome = true → todoWaits waits found = true) :
    (w.refuse job found e).Waits waits := by
  intro hsome
  rw [Worker.refuse, todoWaits_append]
  exact h hsome

/-- A request that starts ends the search, and another one leaves it as it is. -/
theorem stream (h : w.Waits waits) (htodo : w.todo = []) (serde : Serde) (job : Job)
    (i : Inputs) : (w.stream serde job i).Waits waits := by
  obtain ⟨hsame, hfound⟩ := attach w job i waits
  have hwaits : w.reconnect.isSome = true → waits = true := by
    intro hsome
    have hbefore := h hsome
    rwa [htodo] at hbefore
  unfold Worker.stream
  split
  · next attached found e hattach =>
    rw [hattach] at hsame hfound
    apply refuse
    rw [hsame, hfound]
    exact hwaits
  · next attached found hattach =>
    rw [hattach] at hsame hfound
    split
    · next started e hstart =>
      have hstarted : started.reconnect = attached.reconnect := by
        have hkeep : (attached.startStream serde job i).1.reconnect = attached.reconnect := by
          unfold Worker.startStream
          split <;> rfl
        rwa [hstart] at hkeep
      apply refuse
      rw [hstarted, hsame, hfound]
      exact hwaits
    · exact of_none rfl waits

theorem operate_reconnect (host : Host) (w : Worker) (job : Job) (i : Inputs) :
    (w.operate host job i).1.reconnect = w.reconnect := by
  unfold Worker.operate
  split
  · rfl
  · split
    · rfl
    · split_ifs
      · split <;> rfl
      · rfl

theorem hardware_reconnect (host : Host) (w : Worker) (job : Job) (i : Inputs) :
    (w.hardware host job i).1.reconnect = w.reconnect := by
  unfold Worker.hardware
  dsimp only
  split
  · rfl
  · split_ifs
    · rfl
    · rfl
    · exact operate_reconnect host w job i

theorem exclusive (host : Host) (w : Worker) (job : Job) (i : Inputs) (waits : Bool) :
    (w.exclusive host job i).Waits waits := by
  apply of_none
  unfold Worker.exclusive
  dsimp only
  rw [hardware_reconnect]
  split_ifs <;> rfl

theorem serve (h : w.Waits waits) (htodo : w.todo = []) (host : Host) (job : Job) (i : Inputs) :
    (w.serve host job i).Waits waits := by
  unfold Worker.serve
  split_ifs
  · exact h.stream htodo host.serde job i
  · exact exclusive host w job i waits

end Worker.Waits
theorem Worker.exec_work_of_ne (host : Host) {device d : DeviceId} (hd : d ≠ device) (i : Inputs)
    (s : Store) (w : Worker) (instr : Instr) :
    ((Worker.exec host device i s w instr).1.devices d).work = (s.devices d).work := by
  have hconclude : ∀ (s : Store) (id : String) (finish : Operation → Operation)
      (complete : DeviceState → DeviceState),
      ((s.conclude host device id finish complete).devices d).work = (s.devices d).work :=
    fun s id finish complete =>
      (s.conclude_work host device id finish complete d).resolve_right fun h => hd h.1
  cases instr with
  | finishStream done hasReader =>
      unfold exec Store.finishStream
      dsimp only
      induction done generalizing s with
      | nil => rfl
      | cons c done ih => exact (ih _).trans (hconclude s _ _ _)
  | finishExclusive id result artifact hasReader =>
      have hkeep := hconclude (s.keepArtifact id result artifact) id
        (Store.finished result artifact) (·.completeExclusive result.isOk hasReader)
      rw [s.devices_keepArtifact] at hkeep
      exact hkeep
  | beginMonitorReconnect baud text =>
      refine (Store.sameWork_emit _ _ _ _ _ d).trans ?_
      rw [Store.modifyDevice_of_ne _ _ _ hd]
  | finishMonitorReconnect baud attempts =>
      refine (Store.sameWork_emit _ _ _ _ _ d).trans ?_
      rw [Store.modifyDevice_of_ne _ _ _ hd]
  | _ => exact Worker.exec_sameWork host device i s w rfl rfl d

namespace Fits
variable {s : Store} {enqueued : List Enqueued} {device : DeviceId} {duties : List Duty}
  {devices : List DeviceId}

/-- Each completion finds its operation, so the device shows what they make of it. -/
theorem finishStream_work (host : Host) (hretained : Retained s devices enqueued)
    (done : List Completion) (hasReader : Bool)
    (h : Fits s enqueued device ((Completion.discharges done).map streamDuty ++ duties)) :
    ((s.finishStream host device done hasReader).devices device).work =
      ((s.devices device).completeStreams done hasReader).work := by
  induction done generalizing s with
  | nil => rfl
  | cons c done ih =>
      obtain ⟨kind, data, hstate, -⟩ := devices_conclude host device (·.finish c.result)
        (·.completeStream c.lane hasReader) (h.isRunning List.mem_cons_self)
      have hfirst := h.finishCompletion host hretained c hasReader
      have hrest := ih (hretained.evolve (s.evolves_finishCompletion host device hasReader c))
        hfirst.own
      refine hrest.trans (DeviceState.completeStreams_congr ?_ done hasReader)
      rw [Store.finishCompletion, hstate]
      rfl

theorem exec_waits (host : Host) (hretained : Retained s devices enqueued) (i : Inputs)
    (w : Worker) {instr : Instr} {rest : List Instr}
    (h : Fits s enqueued device (instr.duties ++ duties))
    (hkeeps : ∀ done hasReader, instr = .finishStream done hasReader →
      todoWaits false rest = true ∨ (s.devices device).forgets done hasReader = false)
    (hwaits : todoWaits (s.devices device).waits (instr :: rest) = true) :
    todoWaits ((Worker.exec host device i s w instr).1.devices device).waits rest = true := by
  rw [todoWaits_cons] at hwaits
  have hbroken : todoWaits false rest = true →
      todoWaits ((Worker.exec host device i s w instr).1.devices device).waits rest = true :=
    todoWaits_mono fun hfalse => by cases hfalse
  have hsame : ∀ {instr : Instr}, instr.completes = false → instr.reconnects = false →
      ((Worker.exec host device i s w instr).1.devices device).waits =
        (s.devices device).waits := fun hcompletes hreconnects =>
    DeviceState.waits_congr (Worker.exec_sameWork host device i s w hcompletes hreconnects device)
  cases instr with
  | finishStream done hasReader =>
      rcases hkeeps done hasReader rfl with hrest | hkeeps
      · exact hbroken hrest
      · refine todoWaits_mono (fun hbefore => ?_) hwaits
        have hwork := h.finishStream_work host hretained done hasReader
        exact (DeviceState.waits_congr hwork).trans
          (DeviceState.waits_completeStreams hbefore hkeeps)
  | finishExclusive id result artifact hasReader => exact hbroken hwaits
  | finishMonitorReconnect baud attempts => exact hbroken hwaits
  | beginMonitorReconnect baud text =>
      refine todoWaits_mono (fun _ => ?_) hwaits
      rw [Worker.exec, Store.beginMonitorReconnect, Store.emit, Store.modifyDevice_self,
        Store.modifyDevice_self]
      simp [DeviceState.waits, DeviceState.emit, DeviceState.setActivity]
  | _ =>
      rw [hsame rfl rfl]
      exact hwaits

end Fits

namespace System

/-- A worker that looks for its stream records completions that make its device forget it. -/
def forgets (s : System) : Step → Bool
  | .work device _ =>
      (s.runtimes.lookup device).isSome && (s.workers device).reconnect.isSome &&
        match (s.workers device).todo with
        | .finishStream done hasReader :: rest =>
            !todoWaits false rest && (s.store.devices device).forgets done hasReader
        | _ => false
  | _ => false

/-- While a worker is there and looks for its stream, its device waits. -/
def Waits (s : System) : Prop := ∀ device, (s.workers device).place ≠ .exited →
  (s.workers device).Waits (s.store.devices device).waits

namespace Waits
variable {s : System}

theorem init (epoch : String) (runtimes : List (DeviceId × DeviceDescriptor)) :
    (System.init epoch runtimes).Waits := fun _ _ => .of_none rfl _

theorem update (h : s.Waits) {device : DeviceId} {w : Worker} {store : Store}
    (hstore : ∀ d, d ≠ device → (store.devices d).work = (s.store.devices d).work)
    (hw : w.place ≠ .exited → w.Waits (store.devices device).waits) :
    Waits { s.setWorker device w with store := store } := by
  intro d
  dsimp only [System.setWorker]
  by_cases hd : d = device
  · subst hd
    rw [Function.update_self]
    exact hw
  · rw [Function.update_of_ne hd, DeviceState.waits_congr (hstore d hd)]
    exact h d

theorem setWorker (h : s.Waits) {device : DeviceId} {w : Worker}
    (hw : w.place ≠ .exited → w.Waits (s.store.devices device).waits) :
    (s.setWorker device w).Waits := h.update (fun _ _ => rfl) hw

theorem of_mono {s' : System} (h : s.Waits) (hworkers : s'.workers = s.workers)
    (hle : ∀ d, (s.workers d).place ≠ .exited → (s.store.devices d).waits = true →
      (s'.store.devices d).waits = true) : s'.Waits := by
  intro d hplace hsome
  rw [hworkers] at hplace hsome ⊢
  exact todoWaits_mono (hle d hplace) (h d hplace hsome)

theorem advance (h : s.Waits) (hconsistent : s.Consistent) (hbalanced : s.Balanced) (host : Host)
    (n : ℕ) (refresh : Refresh) : (s.advance host n refresh).Waits := by
  refine h.of_mono (s.advance_workers host n refresh) ?_
  have hstep := s.next_storeStep host hconsistent (.advance n refresh)
  rw [System.next] at hstep
  intro d hplace hwaits
  generalize (s.advance host n refresh).store = store,
    (s.advance host n refresh).enqueued = enqueued, (s.advance host n refresh).devices = devices,
    s.news host (.advance n refresh) = news at hstep ⊢
  have hretained := hconsistent.retained
  cases hstep with
  | idle => exact hwaits
  | availability device availability =>
      have hsame := s.store.sameWork_modifyDevice (f := (·.setAvailability availability)) device
        (fun _ => rfl) d
      rwa [DeviceState.waits_congr hsame]
  | admission sub accepted op hknown hreplay haccept =>
      by_cases hd : d = sub.request.deviceId
      · subst hd
        obtain ⟨kind, data, hstate⟩ := Fits.devices_accept_self hretained haccept
        rw [hstate]
        rfl
      · rwa [Fits.devices_accept_of_ne hretained haccept hd]
  | withdrawal sub accepted op hknown hreplay haccept hroom =>
      have hd : d ≠ sub.request.deviceId := by
        rintro rfl
        rw [hbalanced.hasRoom hplace haccept] at hroom
        cases hroom
      rw [Store.withdraw]
      dsimp only
      rwa [Store.modifyDevice_of_ne _ _ _ hd, Fits.devices_accept_of_ne hretained haccept hd]

theorem execute (h : s.Waits) (hconsistent : s.Consistent) (hbalanced : s.Balanced)
    (host : Host) {device : DeviceId} (hknown : (s.runtimes.lookup device).isSome = true)
    (i : Inputs) {instr : Instr} {rest : List Instr}
    (htodo : (s.workers device).todo = instr :: rest)
    (hkeeps : s.forgets (.work device i) = false) :
    (s.execute host device i instr rest).Waits := by
  obtain ⟨decoder, bootReopenAt, runtimes, -, hexecute⟩ := s.execute_eq host device i instr rest
  obtain ⟨hplace, hfits⟩ := hbalanced.fits_todo htodo
  rw [hexecute]
  refine h.update (fun d hd => Worker.exec_work_of_ne host hd i s.store _ instr) fun _ hsome => ?_
  apply hfits.exec_waits host hconsistent.retained i
  · rintro done hasReader rfl
    simp only [forgets, hknown, htodo, Bool.true_and, Bool.and_eq_false_iff,
      Bool.not_eq_false'] at hkeeps
    rcases hkeeps with hnone | hkeeps
    · rw [show (s.workers device).reconnect.isSome = true from hsome] at hnone
      cases hnone
    · exact hkeeps
  · have hwaits := h device hplace hsome
    rwa [htodo] at hwaits

theorem pass (h : s.Waits) (host : Host) (device : DeviceId) (i : Inputs)
    (htodo : (s.workers device).todo = []) : (s.pass host device i).Waits := by
  have hw := h device
  unfold System.pass
  dsimp only
  split
  · next hplace =>
    have habandon := (hw (by rw [hplace]; decide)).abandon htodo
    exact h.setWorker fun _ => habandon
  · next hplace =>
    have hbefore := hw (by rw [hplace]; decide)
    split_ifs <;> exact h.setWorker fun _ => hbefore
  · next hplace =>
    have hbefore := hw (by rw [hplace]; decide)
    split
    · next job jobs _ =>
      have hserve := hbefore.serve htodo host job i
      exact h.setWorker (w := { (s.workers device).serve host job i with place := .head })
        fun _ => hserve
    · have hidle := hbefore.idle htodo host (s.reopensAfterBootEntry device) i
      exact h.setWorker fun _ => hidle
  · exact h.setWorker (w := { s.workers device with place := .exited }) fun hleft =>
      absurd rfl hleft
  · exact h

theorem next (h : s.Waits) (hconsistent : s.Consistent) (hbalanced : s.Balanced) (host : Host)
    {step : Step} (hkeeps : s.forgets step = false) : (s.next host step).Waits := by
  cases step with
  | submit request action identity => exact h
  | advance n refresh => exact h.advance hconsistent hbalanced host n refresh
  | work device inputs =>
      rw [System.next, work]
      split_ifs with hunknown
      · exact h
      · have hknown : (s.runtimes.lookup device).isSome = true := by
          simpa [Option.isSome_iff_ne_none] using hunknown
        split
        · next instr rest htodo =>
          exact h.execute hconsistent hbalanced host hknown inputs htodo hkeeps
        · next htodo => exact h.pass host device inputs htodo
  | shutdown => exact h
  | discover descriptor =>
      rw [System.next]
      rcases s.discover_cases descriptor with hold | ⟨-, hd⟩
      · rwa [hold]
      · rw [hd]
        refine h.update (w := {}) (fun d hne => ?_) fun _ => .of_none rfl _
        rw [Store.modifyDevice_of_ne _ _ _ hne]
  | describe device descriptor => exact h
  | setAvailability device availability =>
      simp only [System.next]
      split_ifs
      · refine h.of_mono rfl fun d _ hwaits => ?_
        have hsame := s.store.sameWork_modifyDevice (f := (·.setAvailability availability)) device
          (fun _ => rfl) d
        rw [← DeviceState.waits_congr hsame] at hwaits
        exact hwaits
      · exact h

theorem not_next (hconsistent : s.Consistent) (hbalanced : s.Balanced) (host : Host) {step : Step}
    (hforgets : s.forgets step = true) : ¬ (s.next host step).Waits := by
  cases step with
  | work device i =>
      simp only [forgets, Bool.and_eq_true] at hforgets
      obtain ⟨⟨hknown, hsome⟩, hrecords⟩ := hforgets
      cases htodo : (s.workers device).todo with
      | nil => simp [htodo] at hrecords
      | cons instr rest =>
          obtain ⟨hplace, hfits⟩ := hbalanced.fits_todo htodo
          obtain ⟨decoder, bootReopenAt, runtimes, -, hexecute⟩ :=
            s.execute_eq host device i instr rest
          have hwork : s.work host device i = s.execute host device i instr rest := by
            simp [work, Option.isSome_iff_ne_none.mp hknown, htodo]
          cases instr with
          | finishStream done hasReader =>
              simp only [htodo, Bool.and_eq_true, Bool.not_eq_true'] at hrecords
              intro hwaits
              have hshown := hwaits device
              rw [System.next, hwork, hexecute] at hshown
              dsimp only at hshown
              rw [setWorker_self] at hshown
              have hlast := hshown hplace hsome
              have hdone := hfits.finishStream_work host hconsistent.retained done hasReader
              rw [Worker.exec, DeviceState.waits_congr hdone,
                DeviceState.not_waits_completeStreams hrecords.2, hrecords.1] at hlast
              cases hlast
          | _ => simp [htodo] at hrecords
  | _ => cases hforgets

end Waits

/-- Between two passes of its worker, a device without work whose worker looks for its stream
is shown as reconnecting. -/
def ReconnectingTruthful (s : System) (device : DeviceId) : Prop :=
  (s.workers device).place = .head → (s.workers device).todo = [] →
    (s.store.devices device).busy = false → s.queues device = [] →
    (s.workers device).reconnect.isSome = true →
    (s.store.devices device).status.activity = .reconnecting
deriving Decidable

/-- The devices of the workers that look for a stream wait throughout a run, if and only if no
step of it makes one forget. -/
theorem waits_iff (host : Host) (epoch : String) (runtimes : List (DeviceId × DeviceDescriptor))
    (steps : List Step) :
    Throughout (next host) System.Waits (System.init epoch runtimes) steps ↔
      eachSafe (next host) (fun s step => !s.forgets step) (System.init epoch runtimes) steps =
        true := by
  apply throughout_iff (R := fun s : System => s.Consistent ∧ s.Balanced)
  · exact fun s step ⟨hconsistent, hbalanced⟩ =>
      ⟨hconsistent.next step, hbalanced.next hconsistent.retained step⟩
  · exact fun s step ⟨hconsistent, hbalanced⟩ h hkeeps =>
      h.next hconsistent hbalanced host (by simpa using hkeeps)
  · exact fun s step ⟨hconsistent, hbalanced⟩ _ hforgets =>
      Waits.not_next hconsistent hbalanced host (by simpa using hforgets)
  · exact ⟨.init epoch runtimes, .init epoch runtimes⟩
  · exact .init epoch runtimes

/-- In a run without forgetful completions. -/
theorem reconnecting_truthful (host : Host) (epoch : String)
    (runtimes : List (DeviceId × DeviceDescriptor)) (steps : List Step)
    (hkeeps : eachSafe (next host) (fun s step => !s.forgets step) (System.init epoch runtimes)
      steps = true) :
    Throughout (next host) (fun s => ∀ device, s.ReconnectingTruthful device)
      (System.init epoch runtimes) steps := by
  have hwaits := (waits_iff host epoch runtimes steps).mpr hkeeps
  refine hwaits.mono fun s h device hplace htodo hbusy _ hsome => ?_
  have hshown := h device (by rw [hplace]; decide) hsome
  rw [htodo, todoWaits_nil, DeviceState.waits, hbusy] at hshown
  simpa using hshown

/-- The stream of a monitor ends, and the worker reports it. -/
def endSteps : List Step :=
  openSteps ++ List.replicate 4 (.work "dev-1" { stalled (fun _ => 0) with read := .ok [] })

theorem reconnecting_truthful_ended :
    (((System.init "1-1" [("dev-1", monitored)]).run bareHost endSteps).store.devices
      "dev-1").status.activity = .reconnecting :=
  (reconnecting_truthful bareHost "1-1" _ endSteps (by decide +kernel)).last "dev-1"
    (by decide +kernel) (by decide +kernel) (by decide +kernel) (by decide +kernel)
    (by decide +kernel)

/-- Console input is admitted in the meantime, but the device cannot be refreshed for it. -/
def inputSteps : List Step :=
  endSteps ++ .submit ⟨"dev-1", 115200, true⟩ (.serialWrite [104, 105] "" 115200 1000)
      ⟨"key-2", "f2"⟩ ::
    List.replicate 8 (.advance 1 (.answer (.ok monitored))) ++
    List.replicate 4 (.work "dev-1"
      { stalled (fun _ => 0) with refresh := .error (.msg "device is gone") })

theorem input_shows_error :
    ¬ Throughout (next bareHost) (fun s => ∀ device, s.ReconnectingTruthful device)
      (System.init "1-1" [("dev-1", monitored)]) inputSteps :=
  fun h => absurd (h.last "dev-1") (by decide +kernel)

end System
end IdfRemote
