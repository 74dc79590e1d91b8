import IdfRemote.Chronicle

/-!
# Operations, their events and their clients

The starts that a device announced are its operations, one by one, as long as its
worker is there to take their jobs. A client that polls from the cursor of an
operation learns of its end, or that it has missed something.
-/
namespace IdfRemote
open BoundedLog

/-- The starts that a device announced are those of the jobs handed to its worker. -/
def Accounts (s : Store) (enqueued : List Enqueued) (events : List Event) (device : DeviceId) :
    Prop :=
  List.Forall₂ (fun (event : Event) (e : Enqueued) => e.job.id = s.operationId device event.seq)
    (events.filter fun event => event.kind = "operation_started")
    (enqueued.filter fun e => e.device = device)

/-- A device that is known has a worker that takes jobs. -/
def System.Live (s : System) (device : DeviceId) : Prop :=
  device ∈ s.devices → (s.workers device).place ≠ .exited

theorem filter_kind_eq_nil {kind : String} {news : List News} (h : ∀ n ∈ news, n.1 ≠ kind)
    (n : ℕ) : (numberFrom n news).filter (fun event => event.kind = kind) = [] := by
  apply List.filter_eq_nil_iff.mpr
  intro event hevent
  obtain ⟨data, hdata⟩ := kind_of_mem_numberFrom hevent
  simpa using h _ hdata

theorem Worker.news_ne_started (w : Worker) (host : Host) (device : DeviceId) (i : Inputs)
    (s : Store) {instr : Instr} (hordinary : instr.ordinary = true) :
    ∀ n ∈ w.news host device i s instr, n.1 ≠ "operation_started" := by
  have hconclude : ∀ (s : Store) (id : String) (finish : Operation → Operation),
      ∀ n ∈ s.concludeNews id finish, n.1 ≠ "operation_started" := by
    intro s id finish n hn
    unfold Store.concludeNews at hn
    split at hn
    · cases hn
    · rw [List.mem_singleton.mp hn]
      simp
  have hstream : ∀ (done : List Completion) (hasReader : Bool) (s : Store),
      ∀ n ∈ s.streamNews host device hasReader done, n.1 ≠ "operation_started" := by
    intro done hasReader
    induction done with
    | nil => exact fun s n hn => nomatch hn
    | cons c done ih =>
        intro s n hn
        rcases List.mem_append.mp hn with hn | hn
        · exact hconclude s _ _ n hn
        · exact ih _ n hn
  cases hcompletes : instr.completes with
  | true =>
      cases instr with
      | finishStream done hasReader => exact hstream done hasReader s
      | finishExclusive id result artifact hasReader => exact hconclude s _ _
      | _ => cases hcompletes
  | false =>
      intro n hn hstarted
      have hkind := w.news_ordinary host device i s hcompletes hordinary n hn
      rw [hstarted] at hkind
      exact absurd hkind (by decide)

namespace System
variable {s : System}

/-- A worker that has gone does not come back. -/
theorem exited_next (host : Host) (hbalanced : s.Balanced) (step : Step) {device : DeviceId}
    (hdevice : device ∈ s.devices) (h : (s.workers device).place = .exited) :
    ((s.next host step).workers device).place = .exited := by
  cases step with
  | submit request action identity => exact h
  | advance n refresh => rwa [System.next, advance_workers]
  | work d inputs =>
      by_cases hd : device = d
      · subst hd
        have htodo := hbalanced.gone device h
        rw [System.next, work]
        split_ifs
        · exact h
        · rw [htodo]
          simp only [pass, h]
      · rw [System.next, work_workers_of_ne host s hd]
        exact h
  | shutdown => exact h
  | discover descriptor =>
      rw [System.next]
      rcases s.discover_cases descriptor with hold | ⟨hnew, hd⟩
      · rwa [hold]
      · have hne : device ≠ descriptor.id := fun heq => hnew (heq ▸ hdevice)
        rw [hd]
        dsimp only
        rwa [Function.update_of_ne hne]
  | describe d descriptor => exact h
  | setAvailability d availability =>
      simp only [System.next]
      split_ifs <;> exact h

theorem Live.of_next (host : Host) (hconsistent : s.Consistent) (hbalanced : s.Balanced)
    (step : Step) {device : DeviceId} (h : (s.next host step).Live device) : s.Live device := by
  intro hdevice hexited
  have hmem := (s.next_storeStep host hconsistent step).devices_subset hdevice
  exact h hmem (s.exited_next host hbalanced step hdevice hexited)

end System

namespace Accounts
variable {s s' : Store} {enqueued : List Enqueued} {events : List Event} {device : DeviceId}
  {history : DeviceId → List Event} {news : DeviceId → List News}

theorem operationId_congr (hepoch : s'.epoch = s.epoch) (device : DeviceId) :
    s'.operationId device = s.operationId device := by
  funext n
  rw [Store.operationId, Store.operationId, hepoch]

theorem keep (h : Accounts s enqueued (history device) device) (hepoch : s'.epoch = s.epoch)
    (hnews : ∀ n ∈ news device, n.1 ≠ "operation_started") :
    Accounts s' enqueued (extend s history news device) device := by
  unfold Accounts extend
  rw [List.filter_append, filter_kind_eq_nil hnews, List.append_nil, operationId_congr hepoch]
  exact h

theorem start (h : Accounts s enqueued (history device) device) (hepoch : s'.epoch = s.epoch)
    {e : Enqueued} (hdevice : e.device = device)
    (hid : e.job.id = s.operationId device ((s.devices device).seq + 1)) :
    Accounts s' (enqueued ++ [e])
      (extend s history (newsOn device [("operation_started", .object [])]) device) device := by
  unfold Accounts extend
  rw [newsOn_self, numberFrom, numberFrom, List.filter_append, List.filter_append]
  have hevent : List.filter (fun event : Event => event.kind = "operation_started")
      [⟨(s.devices device).seq + 1, "operation_started", .object []⟩] =
        [⟨(s.devices device).seq + 1, "operation_started", .object []⟩] := by simp
  have hentry : List.filter (fun e : Enqueued => e.device = device) [e] = [e] := by simp [hdevice]
  rw [hevent, hentry, operationId_congr hepoch]
  exact List.rel_append h (.cons hid .nil)

theorem other (h : Accounts s enqueued (history device) device) (hepoch : s'.epoch = s.epoch)
    {e : Enqueued} (hdevice : e.device ≠ device) (hnews : news device = []) :
    Accounts s' (enqueued ++ [e]) (extend s history news device) device := by
  have hentry : List.filter (fun e : Enqueued => e.device = device) [e] = [] := by simp [hdevice]
  have hkeep : Accounts s' enqueued (extend s history news device) device :=
    h.keep hepoch fun n hn => by simp [hnews] at hn
  unfold Accounts at hkeep ⊢
  rwa [List.filter_append, hentry, List.append_nil]

theorem step {host : Host} {s : System} {device : DeviceId}
    (h : Accounts s.store s.enqueued (history device) device) (hlive : s.Live device)
    (hconsistent : s.Consistent) (hbalanced : s.Balanced) (hordinary : s.Ordinary)
    {step : Step} {store : Store} {enqueued : List Enqueued} {devices : List DeviceId}
    (hstep : StoreStep host s step store enqueued devices news) :
    Accounts store enqueued (extend s.store history news device) device := by
  have hnone : ∀ {store : Store}, store.epoch = s.store.epoch →
      Accounts store s.enqueued (extend s.store history (fun _ => []) device) device :=
    fun hepoch => h.keep hepoch fun n hn => nomatch hn
  cases hstep with
  | idle => exact hnone rfl
  | availability d availability => exact hnone rfl
  | admission sub accepted op hknown hreplay haccept hroom =>
      obtain ⟨-, rfl, rfl⟩ := Store.accept_cases haccept
      have hepoch := (hconsistent.retained.cleared_sheds host sub.request.deviceId sub.action).epoch
      by_cases hd : device = sub.request.deviceId
      · subst hd
        exact h.start hepoch rfl (Retained.started_id host s.store _ sub.action sub.identity)
      · exact h.other hepoch (Ne.symm hd) (newsOn_of_ne hd _)
  | withdrawal sub accepted op hknown hreplay haccept hroom =>
      -- A worker that is there would have taken the job.
      have hne : device ≠ sub.request.deviceId := by
        rintro rfl
        rw [hbalanced.hasRoom (hlive hknown) haccept] at hroom
        cases hroom
      have hepoch := (hconsistent.retained.cleared_sheds host sub.request.deviceId sub.action).epoch
      obtain ⟨-, rfl, rfl⟩ := Store.accept_cases haccept
      apply h.keep
      · exact hepoch
      · rw [newsOn_of_ne hne]
        exact fun n hn => nomatch hn
  | instruction d i instr rest hknown htodo =>
      have hkinds := Worker.news_ne_started { s.workers d with todo := rest } host d i s.store
        (hordinary d instr (htodo ▸ List.mem_cons_self))
      apply h.keep
      · exact (Worker.evolves_exec host d i s.store _ instr).epoch
      · exact fun n hn => hkinds n (mem_of_mem_newsOn hn)
  | discovery descriptor hnew => exact hnone rfl

end Accounts

/-- What the daemon is after any run, with the operations that have finished. -/
structure System.Recorded (s : System) (history : DeviceId → List Event)
    (finals : List Operation) : Prop where
  consistent : s.Consistent
  balanced : s.Balanced
  ordinary : s.Ordinary
  fresh : s.Fresh
  chronicle : Chronicle s.store s.enqueued history finals
  accounts : ∀ device, s.Live device → Accounts s.store s.enqueued (history device) device

namespace System.Recorded
variable {s : System} {history : DeviceId → List Event} {finals : List Operation}

theorem init (epoch : String) (runtimes : List (DeviceId × DeviceDescriptor)) :
    (System.init epoch runtimes).Recorded (fun _ => []) [] where
  consistent := .init epoch runtimes
  balanced := .init epoch runtimes
  ordinary := ordinary_init epoch runtimes
  fresh := .init epoch runtimes
  chronicle := ⟨fun _ => rfl, fun _ => rfl, fun _ e he => (by cases he), fun e he => (by cases he),
    fun op hop => (by cases hop)⟩
  accounts _ _ := .nil

theorem next (h : s.Recorded history finals) (host : Host) (step : Step) :
    ∃ more, (s.next host step).Recorded (extend s.store history (s.news host step))
      (finals ++ more) := by
  have hstep := s.next_storeStep host h.consistent step
  obtain ⟨more, hchronicle⟩ :=
    h.chronicle.step h.consistent h.balanced h.ordinary h.fresh hstep
  refine ⟨more, h.consistent.next step, h.balanced.next h.consistent.retained step,
    h.ordinary.next host step, h.fresh.next h.consistent host step, hchronicle, ?_⟩
  intro device hlive
  have hbefore := hlive.of_next host h.consistent h.balanced step
  exact (h.accounts device hbefore).step hbefore h.consistent h.balanced h.ordinary hstep

theorem run (h : s.Recorded history finals) (host : Host) (steps : List Step) :
    ∃ more, (s.run host steps).Recorded
      (fun device => history device ++ s.history host steps device) (finals ++ more) := by
  induction steps generalizing s history finals with
  | nil =>
      refine ⟨[], ?_⟩
      rw [List.append_nil]
      have hnil : (fun device => history device ++ s.history host [] device) = history :=
        funext fun device => List.append_nil _
      rw [hnil]
      exact h
  | cons step steps ih =>
      obtain ⟨more, hnext⟩ := h.next host step
      obtain ⟨rest, hrun⟩ := ih hnext
      refine ⟨more ++ rest, ?_⟩
      have happend : (fun device => history device ++ s.history host (step :: steps) device) =
          fun device => extend s.store history (s.news host step) device ++
            (s.next host step).history host steps device := by
        funext device
        have hsplit := history_append host h.fresh h.consistent [step] steps device
        have hone : s.history host [step] device =
            numberFrom (s.store.devices device).seq (s.news host step device) := by
          rw [System.history, announced, announced, List.append_nil]
        rw [hone] at hsplit
        rw [extend, List.append_assoc]
        exact congrArg (history device ++ ·) hsplit
      rw [happend, ← List.append_assoc]
      exact hrun

end System.Recorded

/-- The answers that a client gets which polls with its cursor after each stretch of a run. -/
def System.watch (host : Host) (device : DeviceId) :
    System → Cursor → List (List Step) → List (ApiResult EventBatch)
  | _, _, [] => []
  | s, cursor, steps :: stretches =>
      let s := s.run host steps
      match s.store.eventsAfter device cursor with
      | .ok batch => .ok batch :: watch host device s batch.cursor stretches
      | .error e => .error e :: watch host device s cursor stretches

/-- An event is among the answers, or one of them says that events are gone. -/
def Sees (answers : List (ApiResult EventBatch)) (event : Event) : Prop :=
  .error ⟨.gone, "log_gap: requested events have been evicted"⟩ ∈ answers ∨
    ∃ batch, .ok batch ∈ answers ∧ event ∈ batch.events

theorem Sees.cons {answers : List (ApiResult EventBatch)} {event : Event} (h : Sees answers event)
    (answer : ApiResult EventBatch) : Sees (answer :: answers) event :=
  h.imp (List.mem_cons_of_mem _) fun ⟨batch, hbatch, hevent⟩ =>
    ⟨batch, List.mem_cons_of_mem _ hbatch, hevent⟩

theorem StoreStep.epoch {host : Host} {s : System} {step : Step} {store : Store}
    {enqueued : List Enqueued} {devices : List DeviceId} {news : DeviceId → List News}
    (h : StoreStep host s step store enqueued devices news)
    (hretained : Retained s.store s.devices s.enqueued) : store.epoch = s.store.epoch := by
  cases h with
  | idle => rfl
  | availability device availability => rfl
  | admission sub accepted op hknown hreplay haccept hroom =>
      obtain ⟨-, rfl, rfl⟩ := Store.accept_cases haccept
      exact (hretained.cleared_sheds host _ _).epoch
  | withdrawal sub accepted op hknown hreplay haccept hroom =>
      obtain ⟨-, rfl, rfl⟩ := Store.accept_cases haccept
      exact (hretained.cleared_sheds host _ _).epoch
  | instruction device i instr rest hknown htodo =>
      exact (Worker.evolves_exec host device i s.store _ instr).epoch
  | discovery descriptor hnew => rfl

namespace System
variable {s : System}

theorem epoch_run (host : Host) (h : s.Consistent) (steps : List Step) :
    (s.run host steps).store.epoch = s.store.epoch := by
  induction steps generalizing s with
  | nil => rfl
  | cons step steps ih =>
      have hfirst := (s.next_storeStep host h step).epoch h.retained
      have hnext : (s.next host step).Consistent := h.next step
      exact (ih hnext).trans hfirst

theorem Fresh.run (h : s.Fresh) (hconsistent : s.Consistent) (host : Host) (steps : List Step) :
    (s.run host steps).Fresh := by
  induction steps generalizing s with
  | nil => exact h
  | cons step steps ih => exact ih (h.next hconsistent host step) (hconsistent.next step)

/-- A client whose cursor is before an event does not pass it unnoticed. -/
theorem watch_sees (host : Host) (h : s.Fresh) (hconsistent : s.Consistent) {device : DeviceId}
    {events : List Event} (hring : Polling.Retains host.eventSize (s.store.devices device) events)
    {n : ℕ} (hn : n ≤ events.length) {stretches : List (List Step)} (hne : stretches ≠ [])
    (hsize : ∀ e ∈ events ++ s.history host stretches.flatten device,
      host.eventSize e ≤ maxEventBytes)
    {event : Event} (hevent : event ∈ events ++ s.history host stretches.flatten device)
    (hafter : n < event.seq) : Sees (s.watch host device ⟨s.store.epoch, n⟩ stretches) event := by
  induction stretches generalizing s events n with
  | nil => exact absurd rfl hne
  | cons steps stretches ih =>
      have hfresh := h.run hconsistent host steps
      have hreached := hconsistent.run host steps
      have hepoch := epoch_run host hconsistent steps
      rw [List.flatten_cons, history_append host h hconsistent, ← List.append_assoc] at hsize hevent
      have hnow : Polling.Retains host.eventSize ((s.run host steps).store.devices device)
          (events ++ s.history host steps device) :=
        (hring.emitAll _ fun e he => hsize e (by
          rw [List.append_assoc]
          exact List.mem_append_right _ (List.mem_append_left _ he))).congr
          (ring_run host h hconsistent steps device)
      have hle : n ≤ ((s.run host steps).store.devices device).seq := by
        rw [hnow.seq_eq, List.length_append]
        omega
      have hanswer := Polling.eventsAfter_answer hnow hle
      rw [hepoch] at hanswer
      unfold watch
      dsimp only
      generalize (s.run host steps).store.eventsAfter device ⟨s.store.epoch, n⟩ = answer
        at hanswer ⊢
      cases hanswer with
      | gone evicted hpublished hbefore hevicted => exact .inl List.mem_cons_self
      | batch batch hcursor hevents =>
          have hreach : batch.cursor = ⟨(s.run host steps).store.epoch,
              (events ++ s.history host steps device).length⟩ := by
            rw [hcursor, Store.cursor, hnow.seq_eq]
          rcases List.mem_append.mp hevent with hold | hlater
          · refine .inr ⟨batch, List.mem_cons_self, ?_⟩
            rw [hevents, hreach]
            refine List.mem_filter.mpr ⟨hold, ?_⟩
            simpa [hafter] using (hnow.numbered.mem_le hold).2
          · apply Sees.cons
            rw [hreach]
            have hmore : stretches ≠ [] := by
              rintro rfl
              cases hlater
            have hlast := hnow.emitAll _ fun e he => hsize e (List.mem_append_right _ he)
            exact ih hfresh hreached hnow le_rfl hmore hsize hevent
              (hlast.numbered.length_lt hlater)

end System

/-- The operation has finished, and no later step changes it or announces its end again. -/
structure Concluded (host : Host) (s : System) (events : List Event) (op : Operation) : Prop where
  stopped : op.isRunning = false
  announced : ∃ n, op.startCursor.after < n ∧ ∀ more,
    (events ++ s.history host more op.deviceId).filter (Event.finishes op.id) =
      [⟨n, "operation_finished", op.toValue⟩]
  frozen : ∀ more, ∀ o ∈ (s.run host more).store.operations, o.id = op.id → o = op

/-- What a run has announced on each device tells the life of each of its operations. -/
structure Lifecycle (host : Host) (s : System) (events : DeviceId → List Event) : Prop where
  distinct : (s.enqueued.map fun e => e.job.id).Nodup
  handed : ∀ op ∈ s.store.operations, ∃ e ∈ s.enqueued, e.ticket = op.ticket
  entry : ∀ e ∈ s.enqueued, ∃ op, op.ticket = e.ticket ∧
    (Ongoing s.store (events op.deviceId) op ∨ Concluded host s (events op.deviceId) op)
  operation : ∀ op ∈ s.store.operations,
    Ongoing s.store (events op.deviceId) op ∨ Concluded host s (events op.deviceId) op
  begun : ∀ op ∈ s.store.operations,
    op.id = s.store.operationId op.deviceId op.startCursor.after ∧
    op.startCursor.epoch = s.store.epoch ∧
    (events op.deviceId).filter (fun event => event.seq = op.startCursor.after) =
      [⟨op.startCursor.after, "operation_started", .object []⟩]
  starts : ∀ device, s.Live device → Accounts s.store s.enqueued (events device) device
  watched : ∀ op ∈ s.store.operations, ∀ stretches, stretches ≠ [] →
    (∀ event ∈ events op.deviceId ++ s.history host stretches.flatten op.deviceId,
      host.eventSize event ≤ maxEventBytes) →
    ∀ event ∈ events op.deviceId ++ s.history host stretches.flatten op.deviceId,
      event.finishes op.id = true →
      Sees (s.watch host op.deviceId op.startCursor stretches) event

namespace System.Recorded
variable {s : System} {history : DeviceId → List Event} {finals : List Operation}

theorem concluded (h : s.Recorded history finals) (host : Host) {op : Operation}
    (hop : op ∈ finals) : Concluded host s (history op.deviceId) op := by
  obtain ⟨hfinal, -⟩ := h.chronicle.final op hop
  have hlater : ∀ more, Final (s.run host more).store
      (history op.deviceId ++ s.history host more op.deviceId) op := by
    intro more
    obtain ⟨rest, hrun⟩ := h.run host more
    exact (hrun.chronicle.final op (List.mem_append_left _ hop)).1
  obtain ⟨n, hn, hevents⟩ := hfinal.finished
  refine ⟨hfinal.stopped, ⟨n, hn, fun more => ?_⟩, fun more => (hlater more).only⟩
  obtain ⟨m, hm, hmore⟩ := (hlater more).finished
  rw [List.filter_append, hevents] at hmore ⊢
  have hrest : (s.history host more op.deviceId).filter (Event.finishes op.id) = [] :=
    (List.cons.inj hmore).2
  rw [hrest, List.append_nil]

/-- Each operation that was handed over is running or concluded. -/
theorem entry (h : s.Recorded history finals) (host : Host) {e : Enqueued} (he : e ∈ s.enqueued) :
    ∃ op, op.ticket = e.ticket ∧ Begun s.store (history op.deviceId) op ∧
      (Ongoing s.store (history op.deviceId) op ∨
        Concluded host s (history op.deviceId) op ∧ op ∈ finals) := by
  obtain ⟨op, hticket, hbegun, hstate⟩ := h.chronicle.entry e he
  have hdevice : op.deviceId = e.device := congrArg Ticket.device hticket
  rw [← hdevice] at hbegun hstate
  exact ⟨op, hticket, hbegun, hstate.imp_right fun hfinal => ⟨h.concluded host hfinal, hfinal⟩⟩

theorem operation (h : s.Recorded history finals) (host : Host) {op : Operation}
    (hop : op ∈ s.store.operations) : Begun s.store (history op.deviceId) op ∧
      (Ongoing s.store (history op.deviceId) op ∨
        Concluded host s (history op.deviceId) op) := by
  have hids := h.consistent.retained.ids
  rw [Store.tickets, List.map_map] at hids
  obtain ⟨e, he, hticket⟩ := h.consistent.retained.entry _ (List.mem_map_of_mem hop)
  obtain ⟨o, hsame, hbegun, hstate⟩ := h.entry host he
  have hid : op.id = o.id := congrArg Ticket.id (hticket.symm.trans hsame.symm)
  have heq : op = o := by
    rcases hstate with hongoing | ⟨-, hfinal⟩
    · exact List.inj_on_of_nodup_map hids hop hongoing.mem hid
    · exact (h.chronicle.final o hfinal).1.only op hop hid
  subst heq
  exact ⟨hbegun, hstate.imp_right And.left⟩

theorem start_lt_finish (h : s.Recorded history finals) (host : Host) {op : Operation}
    (hop : op ∈ s.store.operations) (more : List Step) {event : Event}
    (hevent : event ∈ history op.deviceId ++ s.history host more op.deviceId)
    (hfinishes : event.finishes op.id = true) : op.startCursor.after < event.seq := by
  obtain ⟨hbegun, hstate⟩ := h.operation host hop
  have hstart := ((h.chronicle.numbered op.deviceId).mem_le hbegun.started).2
  rcases hstate with hongoing | hconcluded
  · rcases List.mem_append.mp hevent with hold | hlater
    · exact absurd hfinishes (List.filter_eq_nil_iff.mp hongoing.unfinished event hold)
    · obtain ⟨rest, hrun⟩ := h.run host more
      exact lt_of_le_of_lt hstart ((hrun.chronicle.numbered op.deviceId).length_lt hlater)
  · obtain ⟨n, hn, hannounced⟩ := hconcluded.announced
    have hmem := List.mem_filter.mpr ⟨hevent, hfinishes⟩
    rw [hannounced more] at hmem
    rwa [List.mem_singleton.mp hmem]

end System.Recorded

namespace System

end System
end IdfRemote
