import IdfRemote.Daemon

/-!
# What the daemon announces

The ring of a device forgets its oldest events. To speak about all of them, every
section of the lock is given here together with what it announces on its device,
in order. The ring after a section is what emitting these announcements one by one
makes of the ring before.
-/
namespace IdfRemote

/-- The kind and the data of an event that has no number yet. -/
abbrev News := String × Value

namespace DeviceState

def emitAll (size : Event → ℕ) (state : DeviceState) (news : List News) : DeviceState :=
  news.foldl (fun state n => state.emit size n.1 n.2) state

/-- The part of a device that its events make up. -/
def ring (state : DeviceState) : ℕ × List (Event × ℕ) × ℕ :=
  (state.seq, state.events, state.eventBytes)

theorem seq_of_ring {state state' : DeviceState} (h : state.ring = state'.ring) :
    state.seq = state'.seq := congrArg Prod.fst h

theorem emitAll_append (size : Event → ℕ) (state : DeviceState) (news more : List News) :
    state.emitAll size (news ++ more) = (state.emitAll size news).emitAll size more :=
  List.foldl_append

theorem ring_emit {size : Event → ℕ} {state state' : DeviceState} (h : state.ring = state'.ring)
    (kind : String) (data : Value) :
    (state.emit size kind data).ring = (state'.emit size kind data).ring := by
  simp only [ring, Prod.mk.injEq] at h
  obtain ⟨hseq, hevents, hbytes⟩ := h
  simp only [ring, emit, hseq, hevents, hbytes]

theorem ring_emitAll {size : Event → ℕ} {state state' : DeviceState}
    (h : state.ring = state'.ring) (news : List News) :
    (state.emitAll size news).ring = (state'.emitAll size news).ring := by
  induction news generalizing state state' with
  | nil => exact h
  | cons n news ih => exact ih (ring_emit h n.1 n.2)

@[simp] theorem seq_emitAll (size : Event → ℕ) (state : DeviceState) (news : List News) :
    (state.emitAll size news).seq = state.seq + news.length := by
  induction news generalizing state with
  | nil => rfl
  | cons n news ih =>
      have hrest := ih (state.emit size n.1 n.2)
      rw [emit_seq, Nat.add_assoc, Nat.add_comm 1] at hrest
      exact hrest

end DeviceState

/-- The ring of one device takes these events up, and the others stay. -/
structure Store.Announces (size : Event → ℕ) (s : Store) (device : DeviceId) (news : List News)
    (s' : Store) : Prop where
  own : (s'.devices device).ring = ((s.devices device).emitAll size news).ring
  other : ∀ d, d ≠ device → (s'.devices d).ring = (s.devices d).ring

namespace Store

def concludeNews (s : Store) (id : String) (finish : Operation → Operation) : List News :=
  match s.operations.find? fun op => op.id = id with
  | none => []
  | some op => [("operation_finished", (finish op).toValue)]

def streamNews (host : Host) (device : DeviceId) (hasReader : Bool) :
    Store → List Completion → List News
  | _, [] => []
  | s, c :: done =>
      s.concludeNews c.key (·.finish c.result) ++
        streamNews host device hasReader (s.finishCompletion host device hasReader c) done

def publishNews (host : Host) (hostTime : ℕ → ℕ) (decoder : LineDecoder) (bytes : List UInt8) :
    List News :=
  ("raw", .object [("base64", .string (host.base64 bytes))]) ::
    (decoder.feed host.logText hostTime bytes).2.map fun r => ("log", r.toValue)

def outputNews (host : Host) (hostTime : ℕ → ℕ) (s : Store) (device : DeviceId)
    (decoder : LineDecoder) (output : Application.Output) : List News :=
  if (s.devices device).discardMonitorRead then []
  else
    match output with
    | .console bytes => publishNews host hostTime decoder bytes
    | .event value => [("application_event", value)]
    | .corruptFrame =>
        [("application_protocol_error", reason "invalid or oversized mux frame")]

end Store

/-- The instructions that record completions. -/
def Instr.completes : Instr → Bool
  | .finishStream .. | .finishExclusive .. => true
  | _ => false

def Worker.news (w : Worker) (host : Host) (device : DeviceId) (i : Inputs) (s : Store) :
    Instr → List News
  | .finishStream done hasReader => s.streamNews host device hasReader done
  | .finishExclusive id result artifact _ => s.concludeNews id (Store.finished result artifact)
  | .emit kind data => [(kind, data)]
  | .describe _ | .setAvailability _ => []
  | .beginMonitorReconnect baud text =>
      [("reconnecting", .object [("reason", .string text), ("monitor_baud", natValue baud)])]
  | .finishMonitorReconnect baud attempts =>
      [("reconnected", .object [("attempts", natValue attempts), ("monitor_baud", natValue baud)])]
  | .output output => s.outputNews host i.hostTime device w.decoder output
  | .raw bytes _ _ =>
      if (s.devices device).discardMonitorRead then []
      else Store.publishNews host i.hostTime w.decoder bytes

namespace Store
variable {size : Event → ℕ} {s s' s'' : Store} {device : DeviceId} {news more : List News}

theorem Announces.trans (h : s.Announces size device news s')
    (h' : s'.Announces size device more s'') : s.Announces size device (news ++ more) s'' where
  own := by
    rw [h'.own, DeviceState.emitAll_append]
    exact DeviceState.ring_emitAll h.own more
  other d hd := (h'.other d hd).trans (h.other d hd)

theorem announces_of_ring (h : ∀ d, (s'.devices d).ring = (s.devices d).ring) :
    s.Announces size device [] s' := ⟨h device, fun d _ => h d⟩

theorem announces_refl (s : Store) : s.Announces size device [] s :=
  announces_of_ring fun _ => rfl

theorem announces_modifyDevice (s : Store) (device : DeviceId) {f : DeviceState → DeviceState}
    (hf : ∀ state, (f state).ring = state.ring) :
    s.Announces size device [] (s.modifyDevice device f) := by
  apply announces_of_ring
  intro d
  by_cases hd : d = device
  · rw [hd, modifyDevice_self, hf]
  · rw [modifyDevice_of_ne _ _ _ hd]

theorem announces_emit (size : Event → ℕ) (s : Store) (device : DeviceId) (kind : String)
    (data : Value) : s.Announces size device [(kind, data)] (s.emit size device kind data) where
  own := by
    rw [emit, modifyDevice_self]
    rfl
  other d hd := by rw [emit, modifyDevice_of_ne _ _ _ hd]

theorem announces_conclude (host : Host) (s : Store) (device : DeviceId) (id : String)
    (finish : Operation → Operation) {complete : DeviceState → DeviceState}
    (hcomplete : ∀ state, (complete state).ring = state.ring) :
    s.Announces host.eventSize device (s.concludeNews id finish)
      (s.conclude host device id finish complete) := by
  unfold conclude concludeNews
  cases s.operations.find? fun op => op.id = id with
  | none => exact announces_refl s
  | some op =>
    have hmodify : ({ s with
        operations := updateFirst (fun op => op.id = id) finish s.operations } : Store).Announces
        host.eventSize device [] _ := announces_modifyDevice _ device hcomplete
    have hfirst : s.Announces host.eventSize device [] _ := ⟨hmodify.own, hmodify.other⟩
    exact hfirst.trans (announces_emit _ _ _ _ _)

theorem announces_finishCompletion (host : Host) (s : Store) (device : DeviceId)
    (hasReader : Bool) (c : Completion) :
    s.Announces host.eventSize device (s.concludeNews c.key (·.finish c.result))
      (s.finishCompletion host device hasReader c) :=
  s.announces_conclude host device c.key _ fun state => by cases c.lane <;> rfl

theorem announces_finishStream (host : Host) (s : Store) (device : DeviceId)
    (done : List Completion) (hasReader : Bool) :
    s.Announces host.eventSize device (s.streamNews host device hasReader done)
      (s.finishStream host device done hasReader) := by
  induction done generalizing s with
  | nil => exact announces_refl s
  | cons c done ih => exact (s.announces_finishCompletion host device hasReader c).trans (ih _)

theorem announces_finishExclusive (host : Host) (s : Store) (device : DeviceId) (id : String)
    (result : Result Value) (artifact : Option ArtifactRecord) (hasReader : Bool) :
    s.Announces host.eventSize device (s.concludeNews id (finished result artifact))
      (s.finishExclusive host device id result artifact hasReader) := by
  have hring : ∀ state : DeviceState,
      (state.completeExclusive result.isOk hasReader).ring = state.ring := fun _ => rfl
  have hconclude := (s.keepArtifact id result artifact).announces_conclude host device id
    (finished result artifact) hring
  unfold concludeNews at hconclude ⊢
  rw [operations_keepArtifact] at hconclude
  have hdevices := s.devices_keepArtifact id result artifact
  exact ⟨hdevices ▸ hconclude.own, hdevices ▸ hconclude.other⟩

def emitAll (size : Event → ℕ) (s : Store) (device : DeviceId) (news : List News) : Store :=
  news.foldl (fun s n => s.emit size device n.1 n.2) s

/-- What relates a store to the one with another event relates it to the one with many. -/
theorem related_emitAll {R : Store → Store → Prop} (hrefl : ∀ s, R s s)
    (htrans : ∀ {s s' s''}, R s s' → R s' s'' → R s s'')
    (hemit : ∀ s kind data, R s (s.emit size device kind data)) (s : Store) (news : List News) :
    R s (s.emitAll size device news) := by
  induction news generalizing s with
  | nil => exact hrefl s
  | cons n news ih => exact htrans (hemit s n.1 n.2) (ih _)

theorem announces_emitAll (size : Event → ℕ) (s : Store) (device : DeviceId)
    (news : List News) : s.Announces size device news (s.emitAll size device news) := by
  induction news generalizing s with
  | nil => exact announces_refl s
  | cons n news ih => exact (announces_emit size s device n.1 n.2).trans (ih _)

theorem publish_eq (host : Host) (hostTime : ℕ → ℕ) (s : Store) (device : DeviceId)
    (decoder : LineDecoder) (bytes : List UInt8) :
    (s.publish host hostTime device decoder bytes).1 =
      s.emitAll host.eventSize device (publishNews host hostTime decoder bytes) := by
  unfold emitAll publishNews
  rw [List.foldl_cons, List.foldl_map]
  rfl

theorem applicationOutput_eq (host : Host) (hostTime : ℕ → ℕ) (s : Store) (device : DeviceId)
    (decoder : LineDecoder) (output : Application.Output) :
    (s.applicationOutput host hostTime device decoder output).1 =
      s.emitAll host.eventSize device (s.outputNews host hostTime device decoder output) := by
  unfold applicationOutput outputNews
  split_ifs
  · rfl
  · cases output with
    | console bytes => exact s.publish_eq host hostTime device decoder bytes
    | event value => rfl
    | corruptFrame => rfl

end Store

namespace Worker
variable (host : Host) (device : DeviceId) (i : Inputs) (s : Store) (w : Worker)

theorem exec_output (output : Application.Output) :
    (exec host device i s w (.output output)).1 =
      s.emitAll host.eventSize device (w.news host device i s (.output output)) :=
  s.applicationOutput_eq host i.hostTime device w.decoder output

theorem exec_raw (bytes : List UInt8) (reopens : Bool) (deadline : ℕ) :
    (exec host device i s w (.raw bytes reopens deadline)).1 =
      s.emitAll host.eventSize device (w.news host device i s (.raw bytes reopens deadline)) := by
  unfold exec news
  split_ifs
  · rfl
  · exact s.publish_eq host i.hostTime device w.decoder bytes

end Worker

/-- What an instruction announces is all that it does to the events. -/
theorem Worker.announces_exec (host : Host) (device : DeviceId) (i : Inputs) (s : Store)
    (w : Worker) (instr : Instr) :
    s.Announces host.eventSize device (w.news host device i s instr)
      (Worker.exec host device i s w instr).1 := by
  cases instr with
  | finishStream done hasReader => exact s.announces_finishStream host device done hasReader
  | finishExclusive id result artifact hasReader =>
      exact s.announces_finishExclusive host device id result artifact hasReader
  | emit kind data => exact Store.announces_emit _ s _ _ _
  | describe descriptor => exact Store.announces_refl s
  | setAvailability availability =>
      exact s.announces_modifyDevice (f := (·.setAvailability availability)) device fun _ => rfl
  | beginMonitorReconnect baud text =>
      refine Store.Announces.trans (s.announces_modifyDevice device ?_)
        (Store.announces_emit _ _ _ _ _)
      exact fun _ => rfl
  | finishMonitorReconnect baud attempts =>
      refine Store.Announces.trans (s.announces_modifyDevice device ?_)
        (Store.announces_emit _ _ _ _ _)
      exact fun _ => rfl
  | output output =>
      rw [exec_output]
      exact s.announces_emitAll _ device _
  | raw bytes reopens deadline =>
      rw [exec_raw]
      exact s.announces_emitAll _ device _

/-- One device announces something. -/
def newsOn (device : DeviceId) (news : List News) (d : DeviceId) : List News :=
  if d = device then news else []

@[simp] theorem newsOn_self (device : DeviceId) (news : List News) :
    newsOn device news device = news := if_pos rfl

@[simp] theorem newsOn_of_ne {device d : DeviceId} (h : d ≠ device) (news : List News) :
    newsOn device news d = [] := if_neg h

theorem mem_of_mem_newsOn {device d : DeviceId} {news : List News} {n : News}
    (h : n ∈ newsOn device news d) : n ∈ news := by
  unfold newsOn at h
  split_ifs at h
  · exact h
  · cases h

@[simp] theorem newsOn_nil (device d : DeviceId) : newsOn device [] d = [] := ite_self []

theorem Store.Announces.seq {size : Event → ℕ} {s s' : Store} {device : DeviceId}
    {news : List News} (h : s.Announces size device news s') (d : DeviceId) :
    (s'.devices d).seq = (s.devices d).seq + (newsOn device news d).length := by
  by_cases hd : d = device
  · subst hd
    rw [newsOn_self, DeviceState.seq_of_ring h.own, DeviceState.seq_emitAll]
  · rw [newsOn_of_ne hd]
    exact DeviceState.seq_of_ring (h.other d hd)

namespace System

/-- The section that starts an operation gets as far as the hand-over of its job. -/
def starts (host : Host) (s : System) (sub : Submission) : Bool :=
  match s.store.replay sub.identity with
  | .ok none => (s.store.accept host sub.request.deviceId sub.action sub.identity).isOk
  | _ => false

/-- The next step of this submission is that section, and it gets as far. -/
def admits (host : Host) (s : System) (sub : Submission) : Bool :=
  match sub.phase with
  | .check descriptor => (sub.precheck descriptor).isOk && s.starts host sub
  | _ => false

def news (host : Host) (s : System) : Step → DeviceId → List News
  | .advance n _ =>
      match s.submissions[n]? with
      | none => fun _ => []
      | some sub =>
          if s.admits host sub then
            newsOn sub.request.deviceId [("operation_started", .object [])]
          else fun _ => []
  | .work device i =>
      if (s.runtimes.lookup device).isNone then fun _ => []
      else
        match (s.workers device).todo with
        | instr :: rest =>
            newsOn device ({ s.workers device with todo := rest }.news host device i s.store instr)
        | [] => fun _ => []
  | _ => fun _ => []

/-- Everything that a run announces on a device, in order. -/
def announced (host : Host) (device : DeviceId) : System → List Step → List News
  | _, [] => []
  | s, step :: steps => s.news host step device ++ announced host device (s.next host step) steps

end System

/-- Events are numbered in the order in which they are emitted. -/
def numberFrom (n : ℕ) : List News → List Event
  | [] => []
  | (kind, data) :: news => ⟨n + 1, kind, data⟩ :: numberFrom (n + 1) news

/-- All events that a run emits on a device. -/
def System.history (host : Host) (s : System) (steps : List Step) (device : DeviceId) :
    List Event :=
  numberFrom (s.store.devices device).seq (s.announced host device steps)

end IdfRemote
