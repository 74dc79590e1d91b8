import IdfRemote.PartialFrames
import IdfRemote.Exclusivity
import IdfRemote.WorkerInstructions

/-!
# Whose reads are discarded

A device discards what its stream delivers from the admission of an operation that
is none of a stream to the completion of the next one. Between them that operation
is running. What a session delivers is handled while the worker has its stream and no
operation but those of the stream to complete.
-/
namespace IdfRemote

/-- A device that discards has an operation running that is none of its stream. -/
def Store.Discards (s : Store) (enqueued : List Enqueued) : Prop :=
  ∀ device, (s.devices device).discardMonitorRead = true →
    ∃ job ∈ live s enqueued device, job.action.isStream = false

/-- No device begins to discard or stops it. -/
def Store.SameDiscard (s s' : Store) : Prop :=
  ∀ device, (s'.devices device).discardMonitorRead = (s.devices device).discardMonitorRead

namespace Store
variable {s s' s'' : Store}

theorem SameDiscard.refl (s : Store) : s.SameDiscard s := fun _ => rfl

theorem SameDiscard.trans (h : s.SameDiscard s') (h' : s'.SameDiscard s'') : s.SameDiscard s'' :=
  fun device => (h' device).trans (h device)

theorem sameDiscard_modifyDevice (s : Store) (device : DeviceId) {f : DeviceState → DeviceState}
    (hf : ∀ state, (f state).discardMonitorRead = state.discardMonitorRead) :
    s.SameDiscard (s.modifyDevice device f) := by
  intro d
  by_cases hd : d = device
  · rw [hd, modifyDevice_self, hf]
  · rw [modifyDevice_of_ne _ _ _ hd]

theorem sameDiscard_emit (size : Event → ℕ) (s : Store) (device : DeviceId) (kind : String)
    (data : Value) : s.SameDiscard (s.emit size device kind data) :=
  s.sameDiscard_modifyDevice device fun _ => rfl

theorem sameDiscard_emitAll (size : Event → ℕ) (s : Store) (device : DeviceId)
    (news : List News) : s.SameDiscard (s.emitAll size device news) :=
  related_emitAll .refl (fun h h' => h.trans h') (fun s => s.sameDiscard_emit size device) s news

end Store

theorem Worker.exec_sameDiscard (host : Host) (device : DeviceId) (i : Inputs) (s : Store)
    (w : Worker) {instr : Instr} (hcompletes : instr.completes = false) :
    s.SameDiscard (Worker.exec host device i s w instr).1 := by
  cases instr with
  | finishStream done hasReader => cases hcompletes
  | finishExclusive id result artifact hasReader => cases hcompletes
  | emit kind data => exact s.sameDiscard_emit _ _ _ _
  | describe descriptor => exact .refl s
  | setAvailability availability =>
      exact s.sameDiscard_modifyDevice (f := (·.setAvailability availability)) device fun _ => rfl
  | beginMonitorReconnect baud text =>
      refine Store.SameDiscard.trans ?_ (Store.sameDiscard_emit _ _ _ _ _)
      exact s.sameDiscard_modifyDevice device fun _ => rfl
  | finishMonitorReconnect baud attempts =>
      refine Store.SameDiscard.trans ?_ (Store.sameDiscard_emit _ _ _ _ _)
      exact s.sameDiscard_modifyDevice device fun _ => rfl
  | output output =>
      rw [exec_output]
      exact s.sameDiscard_emitAll _ device _
  | raw bytes reopens deadline =>
      rw [exec_raw]
      exact s.sameDiscard_emitAll _ device _

namespace Store.Discards
variable {s s' : Store} {enqueued : List Enqueued} {devices : List DeviceId} {device : DeviceId}

theorem congr (h : s.Discards enqueued) (hsame : s.SameDiscard s')
    (hrunning : ∀ id, s'.isRunning id = s.isRunning id) : s'.Discards enqueued := by
  intro d hflag
  rw [live_congr fun e _ _ => hrunning e.job.id]
  exact h d ((hsame d) ▸ hflag)

theorem isRunning_of_operations (h : s'.operations = s.operations) (id : String) :
    s'.isRunning id = s.isRunning id := by
  rw [Store.isRunning, h]
  rfl

theorem conclude (h : s.Discards enqueued) (hretained : Retained s devices enqueued) (host : Host)
    {id : String} (hid : ∃ e ∈ enqueued, e.device = device ∧ e.job.id = id)
    {finish : Operation → Operation} (hfinish : Finishes finish)
    {complete : DeviceState → DeviceState}
    (hcomplete : ∀ state, (complete state).discardMonitorRead = false) :
    (s.conclude host device id finish complete).Discards enqueued := by
  have hrunning := @isRunning_conclude host s device id finish complete hretained.ids hfinish
  intro d hflag
  by_cases hfound : s.operations.find? (fun op => op.id = id) = none
  · have hsame : s.conclude host device id finish complete = s := by
      unfold Store.conclude
      rw [hfound]
    rw [hsame] at hflag ⊢
    exact h d hflag
  · obtain ⟨op, hop⟩ := Option.ne_none_iff_exists'.mp hfound
    unfold Store.conclude at hflag hrunning ⊢
    rw [hop] at hflag hrunning ⊢
    dsimp only at hflag hrunning ⊢
    rw [sameDiscard_emit] at hflag
    by_cases hd : d = device
    · rw [hd, modifyDevice_self, hcomplete] at hflag
      cases hflag
    · rw [modifyDevice_of_ne _ _ _ hd] at hflag
      obtain ⟨job, hjob, hstream⟩ := h d hflag
      refine ⟨job, ?_, hstream⟩
      obtain ⟨e, he, hedevice, heid⟩ := hid
      rwa [live_congr]
      intro e' he' hdevice
      rw [hrunning]
      have hne : e'.job.id ≠ id := by
        intro heq
        obtain rfl := List.inj_on_of_nodup_map hretained.enqueued_ids he' he (heq.trans heid.symm)
        exact hd (hdevice.symm.trans hedevice)
      simp [hne]

theorem finishStream (h : s.Discards enqueued) (hretained : Retained s devices enqueued)
    (host : Host) (done : List Completion) (hasReader : Bool)
    (hids : ∀ c ∈ done, ∃ e ∈ enqueued, e.device = device ∧ e.job.id = c.key) :
    (s.finishStream host device done hasReader).Discards enqueued := by
  induction done generalizing s with
  | nil => exact h
  | cons c done ih =>
      have hcomplete : ∀ state : DeviceState,
          (state.completeStream c.lane hasReader).discardMonitorRead = false :=
        fun state => by cases c.lane <;> rfl
      have hfirst := h.conclude hretained host (hids c List.mem_cons_self)
        (finishes_finish c.result) hcomplete
      exact ih hfirst (hretained.evolve (s.evolves_finishCompletion host device hasReader c))
        fun c' hc' => hids c' (List.mem_cons_of_mem c hc')

theorem finishExclusive (h : s.Discards enqueued) (hretained : Retained s devices enqueued)
    (host : Host) {id : String} (hid : ∃ e ∈ enqueued, e.device = device ∧ e.job.id = id)
    (result : Result Value) (artifact : Option ArtifactRecord) (hasReader : Bool) :
    (s.finishExclusive host device id result artifact hasReader).Discards enqueued := by
  have hkeep : (s.keepArtifact id result artifact).Discards enqueued := by
    refine h.congr ?_ (isRunning_of_operations (s.operations_keepArtifact id result artifact))
    intro d
    rw [s.devices_keepArtifact]
  exact hkeep.conclude (hretained.evolve (s.evolves_keepArtifact id result artifact)) host hid
    (finishes_finished result artifact) fun _ => rfl

theorem exec (h : s.Discards enqueued) (hretained : Retained s devices enqueued) (host : Host)
    (i : Inputs) (w : Worker) {instr : Instr} {duties : List Duty}
    (hfits : Fits s enqueued device (instr.duties ++ duties)) :
    (Worker.exec host device i s w instr).1.Discards enqueued := by
  cases hcompletes : instr.completes with
  | false =>
      obtain ⟨-, hsettled⟩ := Worker.exec_touches host device i s w hcompletes
      exact h.congr (Worker.exec_sameDiscard host device i s w hcompletes)
        (isRunning_of_operations hsettled.operations)
  | true =>
      cases instr with
      | finishStream done hasReader =>
          refine h.finishStream hretained host done hasReader ?_
          intro c hc
          have hduty : streamDuty (c.key, c.lane) ∈
              (Completion.discharges done).map streamDuty ++ duties := by
            apply List.mem_append_left
            exact List.mem_map_of_mem (List.mem_map_of_mem hc)
          obtain ⟨e, he, hdevice, -, heq⟩ := hfits.entry hduty
          exact ⟨e, he, hdevice, congrArg Prod.fst heq⟩
      | finishExclusive id result artifact hasReader =>
          refine h.finishExclusive hretained host ?_ result artifact hasReader
          obtain ⟨e, he, hdevice, -, heq⟩ := hfits.entry List.mem_cons_self
          exact ⟨e, he, hdevice, congrArg Prod.fst heq⟩
      | _ => cases hcompletes

variable {host : Host} {action : Action} {identity : RequestIdentity} {accepted : Store}
  {op : Operation}

theorem accept (h : s.Discards enqueued) (hretained : Retained s devices enqueued)
    (haccept : s.accept host device action identity = .ok (accepted, op)) {e : Enqueued}
    (hid : e.job.id = op.id) (hdevice : e.device = device) (haction : e.job.action = action) :
    accepted.Discards (enqueued ++ [e]) := by
  intro d hflag
  have hlive := Fits.live_accept hretained haccept hid d
  by_cases hd : d = device
  · subst hd
    obtain ⟨kind, data, hstate⟩ := Fits.devices_accept_self hretained haccept
    rw [hstate] at hflag
    have hstream : (!action.isStream) = true := hflag
    refine ⟨e.job, ?_, by simpa [haction] using hstream⟩
    rw [hlive, if_pos hdevice]
    exact List.mem_append_right _ (List.mem_singleton_self _)
  · rw [Fits.devices_accept_of_ne hretained haccept hd] at hflag
    obtain ⟨job, hjob, hstream⟩ := h d hflag
    refine ⟨job, ?_, hstream⟩
    rw [hlive]
    exact List.mem_append_left _ hjob

theorem withdraw (h : s.Discards enqueued) (hretained : Retained s devices enqueued)
    (hreplay : s.replay identity = .ok none)
    (haccept : s.accept host device action identity = .ok (accepted, op)) :
    (accepted.withdraw device action identity).Discards enqueued := by
  obtain ⟨-, rfl, rfl⟩ := Store.accept_cases haccept
  rw [Store.withdraw_push _ device action identity _ rfl
    (hretained.idempotency_cleared host device action hreplay)]
  intro d hflag
  by_cases hd : d = device
  · rw [hd, Store.modifyDevice_self] at hflag
    cases hflag
  · rw [Store.modifyDevice_of_ne _ _ _ hd,
      devices_cleared_of_ne hretained host device action hd] at hflag
    obtain ⟨job, hjob, hstream⟩ := h d hflag
    have hrunning : ∀ e ∈ enqueued, e.device = d →
        (s.cleared host device action).isRunning e.job.id = s.isRunning e.job.id :=
      fun e _ _ => isRunning_cleared hretained host device action e.job.id
    exact ⟨job, (live_congr hrunning) ▸ hjob, hstream⟩

end Store.Discards

/-- The instructions that only a read of a session or the end of another job leaves. -/
def Instr.isOutput : Instr → Bool
  | .output _ => true
  | _ => false

def Instr.isExclusive : Instr → Bool
  | .finishExclusive .. => true
  | _ => false

/-- No instruction is of this kind. -/
def Lacks (kind : Instr → Bool) (todo : List Instr) : Prop := ∀ instr ∈ todo, kind instr = false

theorem Lacks.nil {kind : Instr → Bool} : Lacks kind [] := List.forall_mem_nil _

/-- Only a read of a session leaves output. -/
theorem leftByLosses_output : LeftByLosses fun instr => instr.isOutput = false where
  finishStream _ _ := rfl
  emit _ _ _ := rfl
  describe _ := rfl
  setAvailability _ := rfl
  beginMonitorReconnect _ _ := rfl
  finishMonitorReconnect _ _ := rfl

theorem leftByJobs_output : LeftByJobs fun instr => instr.isOutput = false where
  toLeftByWorkers := leftByLosses_output.toLeftByWorkers
  finishExclusive _ _ _ _ := rfl

/-- Without a job, no exclusive action is completed. -/
theorem leftByReads_exclusive : LeftByReads fun instr => instr.isExclusive = false where
  finishStream _ _ := rfl
  emit _ _ _ := rfl
  describe _ := rfl
  setAvailability _ := rfl
  beginMonitorReconnect _ _ := rfl
  finishMonitorReconnect _ _ := rfl
  output _ := rfl
  raw _ _ _ := rfl

namespace Worker

/-- What a session has delivered is handled while the stream is open, and nothing else than
stream actions is to be completed then. -/
def Attends (w : Worker) : Prop :=
  Lacks Instr.isOutput w.todo ∨ w.reader.isSome = true ∧ Lacks Instr.isExclusive w.todo

theorem lose_attends {w : Worker} (text : String) (i : Inputs) {todo : List Instr}
    (h : Lacks Instr.isOutput todo) : (w.lose text i todo).Attends :=
  .inl (leftByLosses_output.lose w text i h)

/-- A read leaves the stream open, and completes stream actions only. -/
theorem deliver_attends (host : Host) {w : Worker} (bytes : List UInt8) (reopens : Bool)
    (i : Inputs) {todo : List Instr} (hreader : w.reader.isSome = true)
    (htodo : Lacks Instr.isExclusive todo) : (w.deliver host bytes reopens i todo).Attends := by
  have hsame : (w.deliver host bytes reopens i todo).reader = w.reader := by
    unfold deliver
    dsimp only
    split_ifs
    · split <;> rfl
    · rfl
  refine .inr ⟨?_, leftByReads_exclusive.deliver host w bytes reopens i htodo⟩
  rw [hsame]
  exact hreader

theorem readStream_attends (host : Host) {w : Worker} (reopens : Bool) (i : Inputs)
    {todo : List Instr} (hreader : w.reader.isSome = true)
    (hexclusive : Lacks Instr.isExclusive todo) (houtput : Lacks Instr.isOutput todo) :
    (w.readStream host reopens i todo).Attends := by
  unfold readStream
  split
  · exact lose_attends _ i houtput
  · exact deliver_attends host _ reopens i hreader hexclusive
  · split_ifs
    · exact .inl houtput
    · exact lose_attends _ i houtput

theorem attend_attends (host : Host) {w : Worker} (reopens : Bool) (i : Inputs)
    {todo : List Instr} (htodo : w.todo = [])
    (hexclusive : Lacks Instr.isExclusive todo) (houtput : Lacks Instr.isOutput todo) :
    (w.attend host reopens i todo).Attends := by
  unfold attend
  split_ifs with hboot hreader
  · exact lose_attends _ i houtput
  · exact readStream_attends host reopens i hreader hexclusive houtput
  · exact .inl (leftByLosses_output.reopen i htodo)

theorem idle_attends (host : Host) {w : Worker} (reopens : Bool) (i : Inputs)
    (htodo : w.todo = []) : (w.idle host reopens i).Attends := by
  unfold idle
  split_ifs
  · split
    · exact attend_attends host reopens i htodo (leftByReads_exclusive.finishInstr _ _)
        (leftByLosses_output.finishInstr _ _)
    · exact .inl (List.forall_mem_append.mpr ⟨leftByLosses_output.finishInstr _ _,
        forall_mem_ite (leftByLosses_output.disconnected _)⟩)
  · exact attend_attends host reopens i htodo .nil .nil

end Worker

namespace System
variable {host : Host} {s : System}

theorem discards_next (h : s.store.Discards s.enqueued) (hconsistent : s.Consistent)
    (hbalanced : s.Balanced) (host : Host) (step : Step) :
    (s.next host step).store.Discards (s.next host step).enqueued := by
  have hretained := hconsistent.retained
  have hstep := s.next_storeStep host hconsistent step
  generalize (s.next host step).store = store, (s.next host step).enqueued = enqueued,
    (s.next host step).devices = devices, s.news host step = news at hstep ⊢
  cases hstep with
  | idle => exact h
  | availability device availability =>
      have hsame := s.store.sameDiscard_modifyDevice (f := (·.setAvailability availability)) device
        fun _ => rfl
      exact h.congr hsame (Store.Discards.isRunning_of_operations rfl)
  | admission sub accepted op hknown hreplay haccept hroom hsub hadmits =>
      exact h.accept hretained haccept rfl rfl rfl
  | withdrawal sub accepted op hknown hreplay haccept hroom =>
      exact h.withdraw hretained hreplay haccept
  | instruction device i instr rest hknown htodo =>
      exact h.exec hretained host i _ (hbalanced.fits_todo htodo).2
  | discovery descriptor hnew =>
      intro d hflag
      by_cases hd : d = descriptor.id
      · rw [hd, Store.modifyDevice_self] at hflag
        cases hflag
      · rw [Store.modifyDevice_of_ne _ _ _ hd] at hflag
        exact h d hflag

/-- The workers attend to what their sessions deliver before they look for jobs, and no two
streams have one number. -/
structure Attending (s : System) : Prop where
  attends : ∀ device, (s.workers device).Attends
  place : ∀ device, ¬ Lacks Instr.isOutput (s.workers device).todo →
    (s.workers device).place = .head
  fresh : ∀ device stream, (s.workers device).reader = some stream →
    stream < (s.workers device).opened

theorem Attending.init (epoch : String) (runtimes : List (DeviceId × DeviceDescriptor)) :
    (System.init epoch runtimes).Attending where
  attends _ := .inl .nil
  place _ h := absurd .nil h
  fresh _ _ h := by cases h

theorem pass_attends (host : Host) {device : DeviceId} (i : Inputs)
    (htodo : (s.workers device).todo = []) :
    ((s.pass host device i).workers device).Attends ∧
      (¬ Lacks Instr.isOutput ((s.pass host device i).workers device).todo →
        ((s.pass host device i).workers device).place = .head) := by
  have hnothing : Lacks Instr.isOutput (s.workers device).todo := htodo ▸ .nil
  unfold pass
  dsimp only
  split
  · have hlacks : Lacks Instr.isOutput (s.workers device).abandon.todo :=
      leftByLosses_output.abandon htodo
    rw [setWorker_self]
    exact ⟨.inl hlacks, fun h => absurd hlacks h⟩
  · split_ifs <;> rw [setWorker_self] <;> exact ⟨.inl hnothing, fun h => absurd hnothing h⟩
  · split
    · dsimp only
      rw [setWorker_self]
      exact ⟨.inl (leftByJobs_output.serve host _ _ i), fun _ => rfl⟩
    · rw [setWorker_self]
      exact ⟨Worker.idle_attends host _ i htodo, fun _ => rfl⟩
  · dsimp only
    rw [setWorker_self]
    exact ⟨.inl hnothing, fun h => absurd hnothing h⟩
  · exact ⟨.inl hnothing, fun h => absurd hnothing h⟩

/-- What holds of a worker that looks for jobs, and of one that attends to its session. -/
theorem next_attends (h : s.Attending) (host : Host) (device : DeviceId) (step : Step) :
    ((s.next host step).workers device).Attends ∧
      (¬ Lacks Instr.isOutput ((s.next host step).workers device).todo →
        ((s.next host step).workers device).place = .head) := by
  by_cases hknown : device ∈ s.devices
  · rcases s.next_worker_cases host hknown step with
        hsame | ⟨i, instr, rest, decoder, bootReopenAt, -, htodo, hw⟩ | ⟨i, -, htodo, hpass⟩
    · rw [hsame]
      exact ⟨h.attends device, h.place device⟩
    · have hrest : ∀ kind, Lacks kind (s.workers device).todo → Lacks kind rest :=
        fun kind hlacks instr' hmem => hlacks instr' (htodo ▸ List.mem_cons_of_mem instr hmem)
      rw [hw]
      constructor
      · rcases h.attends device with hlacks | ⟨hreader, hlacks⟩
        · exact .inl (hrest _ hlacks)
        · exact .inr ⟨hreader, hrest _ hlacks⟩
      · exact fun hnot => h.place device fun hlacks => hnot (hrest _ hlacks)
    · rw [hpass]
      exact s.pass_attends host i htodo
  · rcases s.next_worker_of_unknown host hknown step with hsame | hnew
    · rw [hsame]
      exact ⟨h.attends device, h.place device⟩
    · rw [hnew]
      exact ⟨.inl .nil, fun hnot => absurd .nil hnot⟩

theorem next_fresh (h : s.Attending) (host : Host) (device : DeviceId) (step : Step) :
    ∀ stream, ((s.next host step).workers device).reader = some stream →
      stream < ((s.next host step).workers device).opened := by
  by_cases hknown : device ∈ s.devices
  · exact (s.next_moves host hknown step).fresh (h.fresh device)
  · rcases s.next_worker_of_unknown host hknown step with hsame | hnew
    · rw [hsame]
      exact h.fresh device
    · rw [hnew]
      exact fun _ hreader => by cases hreader

theorem Attending.next (h : s.Attending) (host : Host) (step : Step) :
    (s.next host step).Attending where
  attends device := (s.next_attends h host device step).1
  place device := (s.next_attends h host device step).2
  fresh device := s.next_fresh h host device step

end System
end IdfRemote
