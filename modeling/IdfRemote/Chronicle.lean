import IdfRemote.EventHistory
import IdfRemote.StoreInvariant
import IdfRemote.WorkerNews

/-!
# The life of an operation

An operation starts with the event that has the number of its cursor. It is running
until the one event that finishes it, which carries what it is from then on. We
keep the list of the operations that have finished beside the store: nothing that
happens later changes one of them or announces its end again.
-/
namespace IdfRemote
open BoundedLog

/-- The event tells the end of the operation with this identifier. -/
def Event.finishes (id : String) (e : Event) : Bool :=
  e.kind = "operation_finished" &&
    match e.data with
    | .object fields =>
        match fields.lookup "id" with
        | some (.string text) => text = id
        | _ => false
    | _ => false

theorem finishes_toValue (id : String) (n : ℕ) (op : Operation) :
    Event.finishes id ⟨n, "operation_finished", op.toValue⟩ = decide (op.id = id) := rfl

theorem finishes_of_kind {e : Event} (h : e.kind ≠ "operation_finished") (id : String) :
    e.finishes id = false := by
  simp [Event.finishes, h]

theorem filter_finishes_eq_nil {news : List News} (h : ∀ n ∈ news, n.1 ≠ "operation_finished")
    (id : String) (n : ℕ) : (numberFrom n news).filter (Event.finishes id) = [] := by
  apply List.filter_eq_nil_iff.mpr
  intro e he
  obtain ⟨data, hdata⟩ := kind_of_mem_numberFrom he
  simp [finishes_of_kind (h _ hdata)]

/-- The operation has the identifier and the event of its cursor. -/
structure Begun (s : Store) (events : List Event) (op : Operation) : Prop where
  id : op.id = s.operationId op.deviceId op.startCursor.after
  epoch : op.startCursor.epoch = s.epoch
  started : ⟨op.startCursor.after, "operation_started", .object []⟩ ∈ events

/-- The operation is running, and no event has told its end. -/
structure Ongoing (s : Store) (events : List Event) (op : Operation) : Prop where
  mem : op ∈ s.operations
  running : op.isRunning = true
  unfinished : events.filter (Event.finishes op.id) = []

/-- The operation has finished: one event says so, and the store has no other version of it. -/
structure Final (s : Store) (events : List Event) (op : Operation) : Prop where
  stopped : op.isRunning = false
  only : ∀ o ∈ s.operations, o.id = op.id → o = op
  finished : ∃ n, op.startCursor.after < n ∧
    events.filter (Event.finishes op.id) = [⟨n, "operation_finished", op.toValue⟩]

section
variable {s s' : Store} {events more : List Event} {op : Operation}

theorem Begun.mono (h : Begun s events op) (hepoch : s'.epoch = s.epoch) :
    Begun s' (events ++ more) op where
  id := by
    rw [h.id, Store.operationId, Store.operationId, hepoch]
  epoch := h.epoch.trans hepoch.symm
  started := List.mem_append_left _ h.started

theorem Ongoing.mono (h : Ongoing s events op) (hmem : op ∈ s'.operations)
    (hmore : more.filter (Event.finishes op.id) = []) : Ongoing s' (events ++ more) op where
  mem := hmem
  running := h.running
  unfinished := by rw [List.filter_append, h.unfinished, hmore, List.append_nil]

theorem Final.mono (h : Final s events op)
    (hops : ∀ o ∈ s'.operations, o.id = op.id → o ∈ s.operations)
    (hmore : more.filter (Event.finishes op.id) = []) : Final s' (events ++ more) op where
  stopped := h.stopped
  only o ho hid := h.only o (hops o ho hid) hid
  finished := by
    obtain ⟨n, hn, hevents⟩ := h.finished
    exact ⟨n, hn, by rw [List.filter_append, hevents, hmore, List.append_nil]⟩

end

/-- The events of all devices, with what is announced next. -/
def extend (s : Store) (history : DeviceId → List Event) (news : DeviceId → List News)
    (device : DeviceId) : List Event :=
  history device ++ numberFrom (s.devices device).seq (news device)

theorem extend_nil (s : Store) (history : DeviceId → List Event) :
    extend s history (fun _ => []) = history := by
  funext d
  rw [extend, numberFrom, List.append_nil]

/-- One section after the other extends the history by both. -/
theorem extend_extend {size : Event → ℕ} {s s' : Store} {device : DeviceId} {news more : List News}
    (h : s.Announces size device news s') (history : DeviceId → List Event) :
    extend s' (extend s history (newsOn device news)) (newsOn device more) =
      extend s history (newsOn device (news ++ more)) := by
  funext d
  unfold extend
  rw [List.append_assoc, h.seq]
  by_cases hd : d = device
  · rw [hd, newsOn_self, newsOn_self, newsOn_self, numberFrom_append]
  · rw [newsOn_of_ne hd, newsOn_of_ne hd, newsOn_of_ne hd]
    rfl

/-- Every operation that was handed over is running or among the final ones. -/
structure Chronicle (s : Store) (enqueued : List Enqueued) (history : DeviceId → List Event)
    (finals : List Operation) : Prop where
  numbered : ∀ device, Numbered Event.seq (history device)
  length : ∀ device, (history device).length = (s.devices device).seq
  closed : ∀ device, ∀ e ∈ history device, ∀ id, e.finishes id = true →
    ∃ entry ∈ enqueued, entry.job.id = id
  entry : ∀ e ∈ enqueued, ∃ op, op.ticket = e.ticket ∧ Begun s (history e.device) op ∧
    (Ongoing s (history e.device) op ∨ op ∈ finals)
  final : ∀ op ∈ finals, Final s (history op.deviceId) op ∧ ∃ e ∈ enqueued, e.job.id = op.id

namespace Chronicle
variable {s s' : Store} {enqueued : List Enqueued} {history : DeviceId → List Event}
  {finals : List Operation} {news : DeviceId → List News}

theorem numbered_extend (h : Chronicle s enqueued history finals)
    (news : DeviceId → List News) (device : DeviceId) :
    Numbered Event.seq (extend s history news device) := by
  have hnumbered := h.numbered device
  unfold Numbered extend at *
  rw [List.map_append, hnumbered, seq_numberFrom, ← h.length, List.length_append,
    length_numberFrom, Nat.add_comm _ 1, List.range'_append_1]

/-- Nothing finishes, and only finished operations may leave. -/
theorem keep (h : Chronicle s enqueued history finals) (hepoch : s'.epoch = s.epoch)
    (hsub : ∀ op ∈ s'.operations, op ∈ s.operations)
    (hrunning : ∀ op ∈ s.operations, op.isRunning = true → op ∈ s'.operations)
    (hseq : ∀ device, (s'.devices device).seq = (s.devices device).seq + (news device).length)
    (hnews : ∀ device, ∀ n ∈ news device, n.1 ≠ "operation_finished") :
    Chronicle s' enqueued (extend s history news) finals where
  numbered := h.numbered_extend news
  length device := by
    rw [extend, List.length_append, length_numberFrom, h.length, hseq]
  closed device e he id hfinishes := by
    rcases List.mem_append.mp he with he | he
    · exact h.closed device e he id hfinishes
    · obtain ⟨data, hdata⟩ := kind_of_mem_numberFrom he
      rw [finishes_of_kind (hnews device _ hdata)] at hfinishes
      cases hfinishes
  entry e he := by
    obtain ⟨op, hticket, hbegun, hstate⟩ := h.entry e he
    refine ⟨op, hticket, hbegun.mono hepoch, ?_⟩
    rcases hstate with hongoing | hfinal
    · have hmem := hrunning op hongoing.mem hongoing.running
      exact .inl (hongoing.mono hmem (filter_finishes_eq_nil (hnews _) _ _))
    · exact .inr hfinal
  final op hop := by
    obtain ⟨hfinal, hentry⟩ := h.final op hop
    exact ⟨hfinal.mono (fun o ho _ => hsub o ho) (filter_finishes_eq_nil (hnews _) _ _), hentry⟩

theorem keep_silent (h : Chronicle s enqueued history finals) (hepoch : s'.epoch = s.epoch)
    (hops : s'.operations = s.operations)
    (hseq : ∀ device, (s'.devices device).seq = (s.devices device).seq) :
    Chronicle s' enqueued history finals := by
  have hkeep : Chronicle s' enqueued (extend s history fun _ => []) finals :=
    h.keep hepoch (fun op hop => hops ▸ hop) (fun op hop _ => hops ▸ hop) hseq
      fun _ n hn => nomatch hn
  rwa [extend_nil] at hkeep

theorem start_le (h : Chronicle s enqueued history finals) {op : Operation} {device : DeviceId}
    (hbegun : Begun s (history device) op) : op.startCursor.after ≤ (s.devices device).seq := by
  have hle := ((h.numbered device).mem_le hbegun.started).2
  rwa [h.length] at hle

theorem of_running (h : Chronicle s enqueued history finals) {devices : List DeviceId}
    (hretained : Retained s devices enqueued) {op : Operation} (hop : op ∈ s.operations)
    (hrunning : op.isRunning = true) :
    (∃ e ∈ enqueued, e.ticket = op.ticket) ∧ (∀ o ∈ finals, o.id ≠ op.id) ∧
      Begun s (history op.deviceId) op ∧
      (history op.deviceId).filter (Event.finishes op.id) = [] := by
  have hids := hretained.ids
  rw [Store.tickets, List.map_map] at hids
  obtain ⟨e, he, hticket⟩ := hretained.entry _ (List.mem_map_of_mem hop)
  have hother : ∀ o ∈ finals, o.id ≠ op.id := by
    intro o ho heq
    obtain ⟨hfinal, -⟩ := h.final o ho
    have hstop := hfinal.stopped
    rw [← hfinal.only op hop heq.symm, hrunning] at hstop
    cases hstop
  obtain ⟨o, hoticket, hbegun, hstate⟩ := h.entry e he
  have hsame : o.ticket = op.ticket := hoticket.trans hticket
  have hdevice : e.device = op.deviceId := congrArg Ticket.device hticket
  rw [hdevice] at hbegun hstate
  rcases hstate with hongoing | hfinal
  · obtain rfl := List.inj_on_of_nodup_map hids hongoing.mem hop (congrArg Ticket.id hsame)
    exact ⟨⟨e, he, hticket⟩, hother, hbegun, hongoing.unfinished⟩
  · exact absurd (congrArg Ticket.id hsame) (hother o hfinal)

end Chronicle

/-- The event that tells the end of an operation, on its device. -/
def finishNews (final : Operation) : DeviceId → List News :=
  newsOn final.deviceId [("operation_finished", final.toValue)]

/-- A running operation is replaced by its final version, with the next event of its device. -/
structure Ends (s s' : Store) (op final : Operation) : Prop where
  mem : op ∈ s.operations
  running : op.isRunning = true
  stopped : final.isRunning = false
  ticket : final.ticket = op.ticket
  cursor : final.startCursor = op.startCursor
  epoch : s'.epoch = s.epoch
  operations : ∀ o, o ∈ s'.operations ↔ o ∈ s.operations ∧ o.id ≠ final.id ∨ o = final
  seq : ∀ device, (s'.devices device).seq =
    (s.devices device).seq + (finishNews final device).length

theorem filter_finishNews {final : Operation} {id : String} (hne : id ≠ final.id) (n : ℕ)
    (device : DeviceId) :
    (numberFrom n (finishNews final device)).filter (Event.finishes id) = [] := by
  unfold finishNews
  by_cases hd : device = final.deviceId
  · rw [hd, newsOn_self, numberFrom, numberFrom]
    simp [finishes_toValue, Ne.symm hne]
  · rw [newsOn_of_ne hd]
    rfl

namespace Chronicle
section
variable {s s' : Store} {enqueued : List Enqueued} {history : DeviceId → List Event}
  {finals : List Operation} {op final : Operation} {devices : List DeviceId}
  (h : Chronicle s enqueued history finals) (hretained : Retained s devices enqueued)
  (hends : Ends s s' op final)
include h hretained hends

theorem begun_final : Begun s (history final.deviceId) final := by
  obtain ⟨-, -, hbegun, -⟩ := h.of_running hretained hends.mem hends.running
  have hid : final.id = op.id := congrArg Ticket.id hends.ticket
  have hdevice : final.deviceId = op.deviceId := congrArg Ticket.device hends.ticket
  rw [hdevice]
  constructor
  · rw [hid, hbegun.id, hdevice, hends.cursor]
  · rw [hends.cursor, hbegun.epoch]
  · rw [hends.cursor]
    exact hbegun.started

theorem finish_entry : ∀ e ∈ enqueued, ∃ o, o.ticket = e.ticket ∧
    Begun s' (extend s history (finishNews final) e.device) o ∧
    (Ongoing s' (extend s history (finishNews final) e.device) o ∨ o ∈ finals ++ [final]) := by
  intro e he
  obtain ⟨⟨e₀, he₀, hticket₀⟩, -, -, -⟩ := h.of_running hretained hends.mem hends.running
  have hticket : final.ticket = e₀.ticket := hends.ticket.trans hticket₀.symm
  by_cases hsame : e.job.id = final.id
  · obtain rfl := List.inj_on_of_nodup_map hretained.enqueued_ids he he₀
      (hsame.trans (congrArg Ticket.id hticket))
    have hdevice : e.device = final.deviceId := (congrArg Ticket.device hticket).symm
    refine ⟨final, hticket, ?_, .inr (by simp)⟩
    rw [hdevice]
    exact (h.begun_final hretained hends).mono hends.epoch
  · obtain ⟨o, hoticket, hbegun, hstate⟩ := h.entry e he
    have hne : o.id ≠ final.id := fun heq => hsame ((congrArg Ticket.id hoticket).symm.trans heq)
    refine ⟨o, hoticket, hbegun.mono hends.epoch, ?_⟩
    rcases hstate with hongoing | hfinal
    · have hmem := (hends.operations o).mpr (.inl ⟨hongoing.mem, hne⟩)
      exact .inl (hongoing.mono hmem (filter_finishNews hne _ _))
    · exact .inr (List.mem_append_left _ hfinal)

/-- The final version is told by the last event of its device. -/
theorem final_final : Final s' (extend s history (finishNews final) final.deviceId) final where
  stopped := hends.stopped
  only o ho hid := by
    rcases (hends.operations o).mp ho with ⟨-, hne⟩ | rfl
    · exact absurd hid hne
    · rfl
  finished := by
    obtain ⟨-, -, -, hnone⟩ := h.of_running hretained hends.mem hends.running
    have hid : final.id = op.id := congrArg Ticket.id hends.ticket
    have hdevice : final.deviceId = op.deviceId := congrArg Ticket.device hends.ticket
    rw [← hid, ← hdevice] at hnone
    refine ⟨(s.devices final.deviceId).seq + 1, ?_, ?_⟩
    · exact Nat.lt_succ_of_le (h.start_le (h.begun_final hretained hends))
    · rw [extend, List.filter_append, hnone, finishNews, newsOn_self, numberFrom, numberFrom]
      simp [finishes_toValue]

theorem finish :
    Chronicle s' enqueued (extend s history (finishNews final)) (finals ++ [final]) := by
  obtain ⟨⟨e₀, he₀, hticket₀⟩, hother, -, -⟩ := h.of_running hretained hends.mem hends.running
  have hid : final.id = op.id := congrArg Ticket.id hends.ticket
  have hid₀ : e₀.job.id = final.id := (congrArg Ticket.id hticket₀).trans hid.symm
  constructor
  · exact h.numbered_extend _
  · intro device
    rw [extend, List.length_append, length_numberFrom, h.length, hends.seq]
  · intro device e he id hfinishes
    rcases List.mem_append.mp he with he | he
    · exact h.closed device e he id hfinishes
    · by_cases hfinal : id = final.id
      · exact ⟨e₀, he₀, hid₀.trans hfinal.symm⟩
      · have hnone := List.filter_eq_nil_iff.mp (filter_finishNews hfinal _ device) e he
        exact absurd hfinishes hnone
  · exact h.finish_entry hretained hends
  · intro o ho
    rcases List.mem_append.mp ho with ho | ho
    · obtain ⟨hfinal, hentry⟩ := h.final o ho
      have hne : o.id ≠ final.id := hid ▸ hother o ho
      refine ⟨hfinal.mono (fun o' ho' hsame => ?_) (filter_finishNews hne _ _), hentry⟩
      rcases (hends.operations o').mp ho' with ⟨hold, -⟩ | rfl
      · exact hold
      · exact absurd hsame.symm hne
    · obtain rfl := List.mem_singleton.mp ho
      exact ⟨h.final_final hretained hends, e₀, he₀, hid₀⟩

end

end Chronicle

/-- A running operation is replaced by its final version, which is announced. -/
theorem Store.conclude_spec (host : Host) {s : Store} {devices : List DeviceId}
    {enqueued : List Enqueued} (h : Retained s devices enqueued) (device : DeviceId) {id : String}
    (hrunning : s.isRunning id = true) (finish : Operation → Operation)
    (complete : DeviceState → DeviceState) :
    ∃ op ∈ s.operations, op.id = id ∧ op.isRunning = true ∧
      s.concludeNews id finish = [("operation_finished", (finish op).toValue)] ∧
      ∀ o, o ∈ (s.conclude host device id finish complete).operations ↔
        o ∈ s.operations ∧ o.id ≠ id ∨ o = finish op := by
  have hids := h.ids
  rw [Store.tickets, List.map_map] at hids
  obtain ⟨op, hfind, hstatus⟩ := h.find?_running hrunning
  have hop := List.mem_of_find?_eq_some hfind
  have hid : op.id = id := by simpa using List.find?_some hfind
  have hops : (s.conclude host device id finish complete).operations =
      s.operations.map fun op => if op.id = id then finish op else op := by
    rw [← updateFirst_eq_map hids, Store.conclude, hfind]
    rfl
  refine ⟨op, hop, hid, by simp [Operation.isRunning, hstatus], ?_, fun o => ?_⟩
  · rw [Store.concludeNews, hfind]
  · rw [hops, List.mem_map]
    constructor
    · rintro ⟨before, hbefore, rfl⟩
      by_cases hsame : before.id = id
      · rw [if_pos hsame]
        rw [List.inj_on_of_nodup_map hids hbefore hop (hsame.trans hid.symm)]
        exact .inr rfl
      · rw [if_neg hsame]
        exact .inl ⟨hbefore, hsame⟩
    · rintro (⟨ho, hne⟩ | rfl)
      · exact ⟨o, ho, if_neg hne⟩
      · exact ⟨op, hop, if_pos hid⟩

namespace Chronicle
variable {s : Store} {enqueued : List Enqueued} {history : DeviceId → List Event}
  {finals : List Operation} {device : DeviceId} {duties : List Duty} {devices : List DeviceId}

theorem conclude (h : Chronicle s enqueued history finals) (host : Host)
    (hretained : Retained s devices enqueued) {id : String} {lane : Option Lane}
    (hfits : Fits s enqueued device ((id, lane) :: duties)) {finish : Operation → Operation}
    (hfinish : Finishes finish) (hcursor : ∀ op, (finish op).startCursor = op.startCursor)
    {complete : DeviceState → DeviceState}
    (hcomplete : ∀ state, (complete state).ring = state.ring) :
    ∃ final, Chronicle (s.conclude host device id finish complete) enqueued
      (extend s history (newsOn device (s.concludeNews id finish))) (finals ++ [final]) := by
  obtain ⟨e, he, hdevice, hrunning, hduty⟩ := hfits.entry List.mem_cons_self
  have heid : e.job.id = id := congrArg Prod.fst hduty
  rw [heid] at hrunning
  have hannounces := s.announces_conclude host device id finish hcomplete
  obtain ⟨op, hop, hid, hoprunning, hnews, hops⟩ :=
    s.conclude_spec host hretained device hrunning finish complete
  rw [hnews] at hannounces ⊢
  have hopdevice : (finish op).deviceId = device := by
    obtain ⟨e₀, he₀, hticket⟩ := hretained.entry _ (List.mem_map_of_mem hop)
    have hsame : e₀.job.id = e.job.id := (congrArg Ticket.id hticket).trans (hid.trans heid.symm)
    obtain rfl := List.inj_on_of_nodup_map hretained.enqueued_ids he₀ he hsame
    rw [← hdevice]
    exact (congrArg Ticket.device (hfinish.ticket op)).trans (congrArg Ticket.device hticket).symm
  have hfinalid : (finish op).id = id := (congrArg Ticket.id (hfinish.ticket op)).trans hid
  refine ⟨finish op, ?_⟩
  rw [← hopdevice] at hannounces ⊢
  have hevolves := s.evolves_conclude host (finish op).deviceId id hfinish.ticket fun state =>
    DeviceState.seq_of_ring (hcomplete state)
  have hreplaced : ∀ o, o ∈ (s.conclude host (finish op).deviceId id finish complete).operations ↔
      o ∈ s.operations ∧ o.id ≠ (finish op).id ∨ o = finish op := by
    rw [hfinalid, hopdevice]
    exact hops
  exact h.finish hretained ⟨hop, hoprunning, hfinish.done op, hfinish.ticket op, hcursor op,
    hevolves.epoch, hreplaced, hannounces.seq⟩

theorem finishCompletion (h : Chronicle s enqueued history finals) (host : Host)
    (hretained : Retained s devices enqueued) (c : Completion) (hasReader : Bool)
    (hfits : Fits s enqueued device (streamDuty (c.key, c.lane) :: duties)) :
    ∃ final, Chronicle (s.finishCompletion host device hasReader c) enqueued
      (extend s history (newsOn device (s.concludeNews c.key (·.finish c.result))))
      (finals ++ [final]) :=
  h.conclude host hretained hfits (finishes_finish c.result)
    (fun op => by cases c.result <;> rfl) fun state => by cases c.lane <;> rfl

theorem finishStream (h : Chronicle s enqueued history finals) (host : Host)
    (hretained : Retained s devices enqueued) (done : List Completion) (hasReader : Bool)
    (hfits : Fits s enqueued device ((Completion.discharges done).map streamDuty ++ duties)) :
    ∃ more, Chronicle (s.finishStream host device done hasReader) enqueued
      (extend s history (newsOn device (s.streamNews host device hasReader done)))
      (finals ++ more) := by
  induction done generalizing s history finals with
  | nil =>
      refine ⟨[], ?_⟩
      rw [List.append_nil, Store.streamNews, funext (newsOn_nil device), extend_nil]
      exact h
  | cons c done ih =>
      obtain ⟨final, hfirst⟩ := h.finishCompletion host hretained c hasReader hfits
      obtain ⟨more, hrest⟩ := ih hfirst
        (hretained.evolve (s.evolves_finishCompletion host device hasReader c))
        (hfits.finishCompletion host hretained c hasReader).own
      refine ⟨final :: more, ?_⟩
      rw [extend_extend (s.announces_finishCompletion host device hasReader c)] at hrest
      rw [List.append_assoc] at hrest
      exact hrest

theorem finishExclusive (h : Chronicle s enqueued history finals) (host : Host)
    (hretained : Retained s devices enqueued) {id : String} (result : Result Value)
    (artifact : Option ArtifactRecord) (hasReader : Bool)
    (hfits : Fits s enqueued device ((id, none) :: duties)) :
    ∃ more, Chronicle (s.finishExclusive host device id result artifact hasReader) enqueued
      (extend s history (newsOn device (s.concludeNews id (Store.finished result artifact))))
      (finals ++ more) := by
  have hkeep : Chronicle (s.keepArtifact id result artifact) enqueued history finals := by
    apply h.keep_silent
    · exact (s.evolves_keepArtifact id result artifact).epoch
    · exact s.operations_keepArtifact id result artifact
    · simp
  have hring : ∀ state : DeviceState,
      (state.completeExclusive result.isOk hasReader).ring = state.ring := fun _ => rfl
  obtain ⟨final, hfinish⟩ := hkeep.conclude host
    (hretained.evolve (s.evolves_keepArtifact id result artifact))
    (hfits.settle (s.settled_keepArtifact id result artifact)) (finishes_finished result artifact)
    (fun op => by cases result <;> rfl) hring
  unfold extend Store.concludeNews at hfinish
  rw [Store.operations_keepArtifact, Store.devices_keepArtifact] at hfinish
  exact ⟨_, hfinish⟩

theorem exec (h : Chronicle s enqueued history finals) (host : Host)
    (hretained : Retained s devices enqueued) (i : Inputs) (w : Worker) {instr : Instr}
    (hordinary : instr.ordinary = true)
    (hfits : Fits s enqueued device (instr.duties ++ duties)) :
    ∃ more, Chronicle (Worker.exec host device i s w instr).1 enqueued
      (extend s history (newsOn device (w.news host device i s instr))) (finals ++ more) := by
  cases hcompletes : instr.completes with
  | true =>
      cases instr with
      | finishStream done hasReader => exact h.finishStream host hretained done hasReader hfits
      | finishExclusive id result artifact hasReader =>
          exact h.finishExclusive host hretained result artifact hasReader hfits
      | _ => cases hcompletes
  | false =>
      have htouches := (Worker.exec_touches host device i s w hcompletes).1
      have hnews := w.news_ordinary host device i s hcompletes hordinary
      have hannounces := Worker.announces_exec host device i s w instr
      generalize (Worker.exec host device i s w instr).1 = s' at *
      rw [Store.Touches] at htouches
      have hops : s'.operations = s.operations := by rw [htouches]
      refine ⟨[], ?_⟩
      rw [List.append_nil]
      apply h.keep
      · rw [htouches]
      · exact fun op hop => hops ▸ hop
      · exact fun op hop _ => hops ▸ hop
      · exact hannounces.seq
      · intro d n hn hkind
        have hkinds := hnews n (mem_of_mem_newsOn hn)
        rw [hkind] at hkinds
        cases hkinds

theorem push (h : Chronicle s enqueued history finals) (op : Operation) (e : Enqueued)
    (hticket : op.ticket = e.ticket) (hrunning : op.isRunning = true)
    (hfresh : ∀ e' ∈ enqueued, e'.job.id ≠ op.id) (hbegun : Begun s (history e.device) op)
    (fingerprint : String) :
    Chronicle (s.push op fingerprint) (enqueued ++ [e]) history finals where
  numbered := h.numbered
  length := h.length
  closed device ev hev id hfinishes := by
    obtain ⟨e', he', hid⟩ := h.closed device ev hev id hfinishes
    exact ⟨e', List.mem_append_left _ he', hid⟩
  entry e' he' := by
    rcases List.mem_append.mp he' with he' | he'
    · obtain ⟨o, hoticket, hobegun, hstate⟩ := h.entry e' he'
      refine ⟨o, hoticket, ⟨hobegun.id, hobegun.epoch, hobegun.started⟩, ?_⟩
      exact hstate.imp_left fun ho =>
        ⟨List.mem_append_left _ ho.mem, ho.running, ho.unfinished⟩
    · obtain rfl := List.mem_singleton.mp he'
      refine ⟨op, hticket, ⟨hbegun.id, hbegun.epoch, hbegun.started⟩, .inl ⟨?_, hrunning, ?_⟩⟩
      · exact List.mem_append_right _ List.mem_cons_self
      · apply List.filter_eq_nil_iff.mpr
        intro ev hev hfinishes
        obtain ⟨e', he', hid⟩ := h.closed _ ev hev op.id hfinishes
        exact hfresh e' he' hid
  final o ho := by
    obtain ⟨hfinal, e', he', hid⟩ := h.final o ho
    refine ⟨⟨hfinal.stopped, fun o' ho' hsame => ?_, hfinal.finished⟩,
      e', List.mem_append_left _ he', hid⟩
    rcases List.mem_append.mp ho' with ho' | ho'
    · exact hfinal.only o' ho' hsame
    · rw [List.mem_singleton.mp ho'] at hsame
      exact absurd (hid.trans hsame.symm) (hfresh e' he')

variable {host : Host} {action : Action} {identity : RequestIdentity} {accepted : Store}
  {op : Operation}

theorem cleared (h : Chronicle s enqueued history finals)
    (hretained : Retained s devices enqueued) (host : Host) (device : DeviceId)
    (action : Action) : Chronicle (s.cleared host device action) enqueued
      (extend s history (newsOn device [("operation_started", .object [])])) finals := by
  have hsheds := hretained.cleared_sheds host device action
  apply h.keep
  · exact hsheds.epoch
  · exact fun op hop => hsheds.sublist.mem hop
  · intro op hop hrunning
    have hmem : op ∈ s.operations.filter Operation.isRunning :=
      List.mem_filter.mpr ⟨hop, hrunning⟩
    have hsame : (s.cleared host device action).operations.filter Operation.isRunning =
        s.operations.filter Operation.isRunning := hsheds.running
    exact (List.mem_filter.mp (hsame ▸ hmem)).1
  · exact (Store.announces_cleared hretained host device action).seq
  · intro d n hn
    rw [List.mem_singleton.mp (mem_of_mem_newsOn hn)]
    decide

theorem modifyDevice (h : Chronicle s enqueued history finals) (device : DeviceId)
    {f : DeviceState → DeviceState} (hf : ∀ state, (f state).ring = state.ring) :
    Chronicle (s.modifyDevice device f) enqueued history finals := by
  apply h.keep_silent
  · rfl
  · rfl
  · intro d
    have hannounce : s.Announces (fun _ => 0) device [] (s.modifyDevice device f) :=
      s.announces_modifyDevice device hf
    have hseq := hannounce.seq d
    rwa [newsOn_nil] at hseq

/-- The event that announces an operation has the number of its cursor. -/
theorem accept (h : Chronicle s enqueued history finals)
    (hretained : Retained s devices enqueued)
    (haccept : s.accept host device action identity = .ok (accepted, op)) {e : Enqueued}
    (hid : e.job.id = op.id) (hdevice : e.device = device) (hidentity : e.identity = identity) :
    Chronicle accepted (enqueued ++ [e])
      (extend s history (newsOn device [("operation_started", .object [])])) finals := by
  obtain ⟨-, rfl, rfl⟩ := Store.accept_cases haccept
  have hsheds := hretained.cleared_sheds host device action
  have hepoch : (s.cleared host device action).epoch = s.epoch := hsheds.epoch
  have hseq : ((s.occupy host device action).devices device).seq = (s.devices device).seq + 1 := by
    simp [Store.occupy, Store.emit, DeviceState.occupy]
  have hpush := (h.cleared hretained host device action).push
    ((s.occupy host device action).started device identity) e ?_ rfl
    (hretained.started_fresh host device action identity) ?_ identity.fingerprint
  · exact hpush.modifyDevice (f := (·.setActivity .busy)) device fun _ => rfl
  · simp [Enqueued.ticket, Operation.ticket, Store.started, hid, hdevice, hidentity]
  · constructor
    · rw [Store.operationId, hepoch]
      rfl
    · exact hepoch.symm
    · rw [hdevice, extend, newsOn_self, Store.started, Store.cursor, hseq]
      exact List.mem_append_right _ List.mem_cons_self

theorem withdraw (h : Chronicle s enqueued history finals)
    (hretained : Retained s devices enqueued) (hreplay : s.replay identity = .ok none)
    (haccept : s.accept host device action identity = .ok (accepted, op)) :
    Chronicle (accepted.withdraw device action identity) enqueued
      (extend s history (newsOn device [("operation_started", .object [])])) finals := by
  obtain ⟨-, rfl, rfl⟩ := Store.accept_cases haccept
  rw [Store.withdraw_push _ device action identity _ rfl
    (hretained.idempotency_cleared host device action hreplay)]
  exact (h.cleared hretained host device action).modifyDevice device fun _ => rfl

end Chronicle

namespace Chronicle
variable {s : System} {history : DeviceId → List Event} {finals : List Operation}

/-- Each section of the lock may finish operations of one device. -/
theorem step {host : Host} (h : Chronicle s.store s.enqueued history finals)
    (hconsistent : s.Consistent) (hbalanced : s.Balanced) (hordinary : s.Ordinary)
    (hfresh : s.Fresh) {step : Step} {store : Store} {enqueued : List Enqueued}
    {devices : List DeviceId} {news : DeviceId → List News}
    (hstep : StoreStep host s step store enqueued devices news) :
    ∃ more, Chronicle store enqueued (extend s.store history news) (finals ++ more) := by
  have hretained := hconsistent.retained
  have hsilent : ∀ {store : Store} {enqueued : List Enqueued} {news : DeviceId → List News},
      Chronicle store enqueued (extend s.store history news) finals →
      ∃ more, Chronicle store enqueued (extend s.store history news) (finals ++ more) := by
    intro store enqueued news hchronicle
    refine ⟨[], ?_⟩
    rwa [List.append_nil]
  cases hstep with
  | idle =>
      apply hsilent
      rwa [extend_nil]
  | availability device availability =>
      apply hsilent
      rw [extend_nil]
      exact h.modifyDevice (f := (·.setAvailability availability)) device fun _ => rfl
  | admission sub accepted op hknown hreplay haccept hroom =>
      exact hsilent (h.accept hretained haccept rfl rfl rfl)
  | withdrawal sub accepted op hknown hreplay haccept hroom =>
      exact hsilent (h.withdraw hretained hreplay haccept)
  | instruction device i instr rest hknown htodo =>
      obtain ⟨-, hfits⟩ := hbalanced.fits_todo htodo
      exact h.exec host hretained i _ (hordinary device instr (htodo ▸ List.mem_cons_self)) hfits
  | discovery descriptor hnew =>
      apply hsilent
      rw [extend_nil]
      apply h.keep_silent
      · rfl
      · rfl
      · intro d
        by_cases hd : d = descriptor.id
        · rw [hd, Store.modifyDevice_self]
          exact (DeviceState.seq_of_ring (hfresh descriptor.id hnew)).symm
        · rw [Store.modifyDevice_of_ne _ _ _ hd]

end Chronicle
end IdfRemote
