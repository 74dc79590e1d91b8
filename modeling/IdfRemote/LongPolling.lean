import IdfRemote.EventPolling

/-!
# Waiting for events

A client may let the daemon wait until there is an event behind its cursor. The handler
enables a future of the device's notifier, looks into the ring under the lock of the
store, and waits for the future if it has found nothing. An emit pushes its event,
notifies, and makes room, all under the lock. Any number of handlers and emits take
their steps in any order, and time passes between them.
-/
namespace IdfRemote
open BoundedLog Polling

/-- A notifier, such as tokio's `Notify`. To enable a future may change the notifier as well;
`enabled` says which futures have been enabled on it. All of them are woken by
`notify_waiters`. -/
structure Notifier where
  Notify : Type
  Notified : Type
  new : Notify
  notified : Notify → Notified × Notify
  notifyWaiters : Notify → Notify
  ready : Notified → Notify → Bool
  enabled : Notified → Notify → Prop
  enabled_notified : ∀ changed, enabled (notified changed).1 (notified changed).2
  enabled_mono : ∀ future changed, enabled future changed → enabled future (notified changed).2
  enabled_notifyWaiters : ∀ future changed, enabled future changed →
    enabled future (notifyWaiters changed)
  ready_notifyWaiters : ∀ future changed, enabled future changed →
    ready future (notifyWaiters changed) = true
  ready_mono : ∀ future changed, enabled future changed → ready future changed = true →
    ready future (notified changed).2 = true

/-- A future is ready when the waiters have been notified since it was enabled. -/
def Notifier.counting : Notifier where
  Notify := ℕ
  Notified := ℕ
  new := 0
  notified calls := (calls, calls)
  notifyWaiters calls := calls + 1
  ready seen calls := seen < calls
  enabled seen calls := seen ≤ calls
  enabled_notified _ := le_rfl
  enabled_mono _ _ h := h
  enabled_notifyWaiters _ _ h := Nat.le_succ_of_le h
  ready_notifyWaiters _ _ h := decide_eq_true (Nat.lt_succ_of_le h)
  ready_mono _ _ _ h := h

namespace DeviceState

def push (size : Event → ℕ) (state : DeviceState) (event : Event) : DeviceState :=
  { state with seq := state.seq + 1, events := state.events ++ [(event, size event)] }

def makeRoom (state : DeviceState) (bytes : ℕ) : DeviceState :=
  let kept := trim maxEvents maxEventBytes state.events (state.eventBytes + bytes)
  { state with events := kept.1, eventBytes := kept.2 }

theorem emit_eq_push (size : Event → ℕ) (state : DeviceState) (kind : String) (data : Value) :
    state.emit size kind data =
      (state.push size ⟨state.seq + 1, kind, data⟩).makeRoom
        (size ⟨state.seq + 1, kind, data⟩) := rfl

end DeviceState

structure EventPollQuery where
  deviceId : DeviceId
  epoch : String
  after : ℕ
  waitMs : ℕ

/-- The variables of a request that has been accepted. -/
structure Poll where
  device : DeviceId
  cursor : Cursor
  deadline : ℕ

/-- Where a request stands in the loop of the handler. -/
inductive Poller (notifier : Notifier)
  | idle
  | polling (p : Poll)
  | enabled (p : Poll) (notified : notifier.Notified)
  | checked (p : Poll) (notified : notifier.Notified) (batch : EventBatch)
  | waiting (p : Poll) (notified : notifier.Notified)
  | answered (result : ApiResult EventBatch)

/-- An emit that has the lock, with its event in the ring. -/
structure Emission where
  device : DeviceId
  event : Event
  notified : Bool := false

structure LongPolls (notifier : Notifier) (ι : Type*) where
  store : Store
  devices : List DeviceId
  changed : DeviceId → notifier.Notify := fun _ => notifier.new
  published : DeviceId → List Event := fun _ => []
  emission : Option Emission := none
  running : Bool := true
  now : ℕ := 0
  pollers : ι → Poller notifier := fun _ => .idle

inductive PollStep (ι : Type*)
  | elapse (ms : ℕ)
  | stop
  | discover (device : DeviceId)
  | request (i : ι) (query : EventPollQuery)
  | enable (i : ι)
  | check (i : ι)
  | judge (i : ι)
  | wake (i : ι)
  | abandon (i : ι)
  | push (device : DeviceId) (kind : String) (data : Value)
  | notify
  | makeRoom

namespace LongPolls
variable {notifier : Notifier} {ι : Type*}

def setPoller [DecidableEq ι] (s : LongPolls notifier ι) (i : ι) (poller : Poller notifier) :
    LongPolls notifier ι :=
  { s with pollers := Function.update s.pollers i poller }

/-- The part of the handler before its loop. -/
def accept (s : LongPolls notifier ι) (query : EventPollQuery) : ApiResult Poll :=
  if query.deviceId ∉ s.devices then
    .error ⟨.forbidden, "device_not_allowed: device is not in the daemon inventory"⟩
  else if 1000 < query.waitMs then .error (.bad "event wait must be 0..1000 ms")
  else
    .ok {
      device := query.deviceId
      cursor := ⟨query.epoch, query.after⟩
      deadline := s.now + query.waitMs }

/-- A step that is not possible now changes nothing. The lock is free while no emit has it. -/
def next [DecidableEq ι] (size : Event → ℕ) (s : LongPolls notifier ι) :
    PollStep ι → LongPolls notifier ι
  | .elapse ms => { s with now := s.now + ms }
  | .stop => { s with running := false }
  | .discover device => { s with devices := s.devices ++ [device] }
  | .request i query =>
      match s.accept query with
      | .error e => s.setPoller i (.answered (.error e))
      | .ok p => s.setPoller i (.polling p)
  | .enable i =>
      match s.pollers i with
      | .polling p =>
          let (notified, changed) := notifier.notified (s.changed p.device)
          { s with changed := Function.update s.changed p.device changed }.setPoller i
            (.enabled p notified)
      | _ => s
  | .check i =>
      match s.pollers i, s.emission with
      | .enabled p notified, none =>
          match s.store.eventsAfter p.device p.cursor with
          | .error e => s.setPoller i (.answered (.error e))
          | .ok batch => s.setPoller i (.checked p notified batch)
      | _, _ => s
  | .judge i =>
      match s.pollers i with
      | .checked p notified batch =>
          if !batch.events.isEmpty || p.deadline ≤ s.now || !s.running then
            s.setPoller i (.answered (.ok batch))
          else s.setPoller i (.waiting p notified)
      | _ => s
  | .wake i =>
      match s.pollers i with
      | .waiting p notified =>
          if notifier.ready notified (s.changed p.device) || p.deadline ≤ s.now then
            s.setPoller i (.polling p)
          else s
      | _ => s
  | .abandon i => s.setPoller i .idle
  | .push device kind data =>
      match s.emission with
      | some _ => s
      | none =>
          let event : Event :=
            { seq := (s.store.devices device).seq + 1, kind := kind, data := data }
          { s with
            store := s.store.modifyDevice device fun state => state.push size event
            published := Function.update s.published device (s.published device ++ [event])
            emission := some { device := device, event := event } }
  | .notify =>
      match s.emission with
      | some ⟨device, event, false⟩ =>
          { s with
            changed := Function.update s.changed device
              (notifier.notifyWaiters (s.changed device))
            emission := some ⟨device, event, true⟩ }
      | _ => s
  | .makeRoom =>
      match s.emission with
      | some ⟨device, event, true⟩ =>
          { s with
            store := s.store.modifyDevice device fun state => state.makeRoom (size event)
            emission := none }
      | _ => s

def run [DecidableEq ι] (size : Event → ℕ) (s : LongPolls notifier ι)
    (steps : List (PollStep ι)) : LongPolls notifier ι :=
  steps.foldl (next size) s

def init (notifier : Notifier) (ι : Type*) (epoch : String) (devices : List DeviceId)
    (status : DeviceId → DeviceStatus) : LongPolls notifier ι where
  store := .new epoch status
  devices := devices

/-- The ring of a device while the size of its last event may still be missing in the total. -/
structure Holds (size : Event → ℕ) (state : DeviceState) (published : List Event)
    (unsettled : ℕ) : Prop where
  numbered : Numbered Event.seq published
  seq_eq : state.seq = published.length
  suffix : state.events <:+ published.map fun e => (e, size e)
  bytes_eq : state.eventBytes + unsettled = weight state.events
  newest : ∀ e ∈ published.getLast?, size e ≤ maxEventBytes → (e, size e) ∈ state.events

namespace Holds
variable {size : Event → ℕ} {state : DeviceState} {published : List Event}

theorem push (h : Holds size state published 0) (kind : String) (data : Value) :
    Holds size (state.push size ⟨state.seq + 1, kind, data⟩)
      (published ++ [⟨state.seq + 1, kind, data⟩]) (size ⟨state.seq + 1, kind, data⟩) where
  numbered := numbered_concat.mpr ⟨h.numbered, by rw [h.seq_eq]⟩
  seq_eq := by simp [DeviceState.push, h.seq_eq]
  suffix := by
    obtain ⟨front, hfront⟩ := h.suffix
    refine ⟨front, ?_⟩
    rw [List.map_append, ← hfront, List.append_assoc]
    rfl
  bytes_eq := by
    have hbytes := h.bytes_eq
    simp only [DeviceState.push, weight_append, weight_cons, weight_nil]
    omega
  newest e he _ := by
    rw [List.getLast?_concat, Option.mem_some_iff] at he
    subst he
    exact List.mem_append_right _ List.mem_cons_self

theorem concat {unsettled : ℕ} (h : Holds size state published unsettled) {e : Event}
    (he : e ∈ published.getLast?) (hfits : size e ≤ maxEventBytes) :
    ∃ log, state.events = log ++ [(e, size e)] := by
  have hne : state.events ≠ [] := List.ne_nil_of_mem (h.newest e he hfits)
  obtain ⟨front, hfront⟩ := h.suffix
  have hlast : (front ++ state.events).getLast? = some (e, size e) := by
    rw [hfront, List.getLast?_map, Option.mem_def.mp he]
    rfl
  rw [List.getLast?_append_of_ne_nil _ hne] at hlast
  exact List.getLast?_eq_some_iff.mp hlast

theorem makeRoom {unsettled : ℕ} (h : Holds size state published unsettled) :
    Holds size (state.makeRoom unsettled) published 0 where
  numbered := h.numbered
  seq_eq := h.seq_eq
  suffix := (trim_suffix _ _).trans h.suffix
  bytes_eq := by
    rw [DeviceState.makeRoom, h.bytes_eq]
    exact trim_total _
  newest e he hfits := by
    rw [DeviceState.makeRoom, h.bytes_eq]
    obtain ⟨log, hlog⟩ := h.concat he hfits
    rw [hlog]
    have hkept : (trim maxEvents maxEventBytes (log ++ [(e, size e)])
        (weight (log ++ [(e, size e)]))).1 ≠ [] :=
      trim_newest log (e, size e) (by decide) hfits
    have hsuffix : (trim maxEvents maxEventBytes (log ++ [(e, size e)])
        (weight (log ++ [(e, size e)]))).1 <:+ log ++ [(e, size e)] := trim_suffix _ _
    have hmem := List.getLast_mem hkept
    rw [hsuffix.getLast hkept, List.getLast_concat] at hmem
    exact hmem

end Holds

section
variable {size : Event → ℕ} {s : LongPolls notifier ι}

/-- The bytes of an event for which no room has been made. -/
def unsettled (size : Event → ℕ) (s : LongPolls notifier ι) (device : DeviceId) : ℕ :=
  match s.emission with
  | some emission => if emission.device = device then size emission.event else 0
  | none => 0

/-- The event of an emit that has still to notify. -/
def Unannounced (s : LongPolls notifier ι) (device : DeviceId) (event : Event) : Prop :=
  s.emission = some ⟨device, event, false⟩

def Announced (s : LongPolls notifier ι) (device : DeviceId) : Prop :=
  ∃ event, s.emission = some ⟨device, event, true⟩

/-- What is behind the cursor is about to be announced. Events too large for any ring
leave it as they come. -/
structure Behind (size : Event → ℕ) (s : LongPolls notifier ι) (p : Poll) : Prop where
  ring : ∀ x ∈ (s.store.devices p.device).events, p.cursor.after < x.1.seq →
    s.Unannounced p.device x.1
  published : (∀ e ∈ s.published p.device, size e ≤ maxEventBytes) →
    ∀ e ∈ s.published p.device, p.cursor.after < e.seq → s.Unannounced p.device e

/-- What a request may rely on as long as its future is not ready. -/
def Relies (size : Event → ℕ) (s : LongPolls notifier ι) : Poller notifier → Prop
  | .enabled p notified => notifier.enabled notified (s.changed p.device)
  | .checked p notified batch => notifier.enabled notified (s.changed p.device) ∧
      (notifier.ready notified (s.changed p.device) = false →
        ¬ s.Announced p.device ∧ (batch.events = [] → Behind size s p))
  | .waiting p notified => notifier.enabled notified (s.changed p.device) ∧
      (notifier.ready notified (s.changed p.device) = false →
        ¬ s.Announced p.device ∧ Behind size s p)
  | _ => True

structure Consistent (size : Event → ℕ) (s : LongPolls notifier ι) : Prop where
  rings : ∀ device, Holds size (s.store.devices device) (s.published device)
    (s.unsettled size device)
  pollers : ∀ i, Relies size s (s.pollers i)

/-- A step that leaves requests in place, and loses no future. What a request relies on is kept
for those whose future is not ready afterwards. -/
theorem Relies.step {s' : LongPolls notifier ι} {poller : Poller notifier}
    (h : Relies size s poller)
    (henabled : ∀ device notified, notifier.enabled notified (s.changed device) →
      notifier.enabled notified (s'.changed device) ∧
        (notifier.ready notified (s'.changed device) = false →
          notifier.ready notified (s.changed device) = false))
    (hstep : ∀ p notified, notifier.enabled notified (s.changed p.device) →
      notifier.ready notified (s'.changed p.device) = false → ¬ s.Announced p.device →
      ¬ s'.Announced p.device ∧ (Behind size s p → Behind size s' p)) :
    Relies size s' poller := by
  cases poller with
  | enabled p notified => exact (henabled p.device notified h).1
  | checked p notified batch =>
      obtain ⟨hkept, hquiet⟩ := henabled p.device notified h.1
      refine ⟨hkept, fun hready => ?_⟩
      obtain ⟨hannounced, hbehind⟩ := h.2 (hquiet hready)
      obtain ⟨hannounced', hstep⟩ := hstep p notified h.1 hready hannounced
      exact ⟨hannounced', fun hempty => hstep (hbehind hempty)⟩
  | waiting p notified =>
      obtain ⟨hkept, hquiet⟩ := henabled p.device notified h.1
      refine ⟨hkept, fun hready => ?_⟩
      obtain ⟨hannounced, hbehind⟩ := h.2 (hquiet hready)
      obtain ⟨hannounced', hstep⟩ := hstep p notified h.1 hready hannounced
      exact ⟨hannounced', hstep hbehind⟩
  | _ => trivial

theorem Relies.unnotified {s' : LongPolls notifier ι} {poller : Poller notifier}
    (h : Relies size s poller) (hchanged : s'.changed = s.changed)
    (hstep : ∀ p : Poll, ¬ s.Announced p.device →
      ¬ s'.Announced p.device ∧ (Behind size s p → Behind size s' p)) :
    Relies size s' poller := by
  refine h.step (fun device notified hkept => ?_) fun p _ _ _ => hstep p
  rw [hchanged]
  exact ⟨hkept, id⟩

/-- Time, the flag of the daemon and the requests of others do not matter, nor does a future that
is enabled. -/
theorem Relies.congr {s' : LongPolls notifier ι} {poller : Poller notifier}
    (h : Relies size s poller) (hstore : s'.store = s.store)
    (hchanged : ∀ device, s'.changed device = s.changed device ∨
      s'.changed device = (notifier.notified (s.changed device)).2)
    (hpublished : s'.published = s.published) (hemission : s'.emission = s.emission) :
    Relies size s' poller := by
  refine h.step (fun device notified hkept => ?_) fun p _ _ _ hannounced =>
    ⟨?_, fun hbehind => ?_⟩
  · rcases hchanged device with hsame | henabled
    · rw [hsame]
      exact ⟨hkept, id⟩
    · rw [henabled]
      refine ⟨notifier.enabled_mono notified _ hkept, fun hready => ?_⟩
      by_contra hnotified
      rw [Bool.not_eq_false] at hnotified
      rw [notifier.ready_mono notified _ hkept hnotified] at hready
      cases hready
  · unfold Announced
    rw [hemission]
    exact hannounced
  · constructor
    · unfold Unannounced
      rw [hstore, hemission]
      exact hbehind.ring
    · unfold Unannounced
      rw [hpublished, hemission]
      exact hbehind.published

/-- Without an emit under way, nothing is behind the cursor. -/
theorem Behind.step {s' : LongPolls notifier ι} {p : Poll} (h : Behind size s p)
    (hnone : ∀ e, ¬ s.Unannounced p.device e)
    (hring : (s'.store.devices p.device).events = (s.store.devices p.device).events)
    (hpublished : s'.published p.device = s.published p.device) : Behind size s' p where
  ring x hx hlt := absurd (h.ring x (hring ▸ hx) hlt) (hnone _)
  published hfits e he hlt := by
    rw [hpublished] at hfits he
    exact absurd (h.published hfits e he hlt) (hnone e)

theorem events_of_eventsAfter {store : Store} {device : DeviceId} {cursor : Cursor}
    {batch : EventBatch} (h : store.eventsAfter device cursor = .ok batch) :
    batch.events =
      ((store.devices device).events.filter fun e => cursor.after < e.1.seq).map Prod.fst := by
  unfold Store.eventsAfter at h
  dsimp only at h
  split_ifs at h
  cases h
  rfl

/-- A look into the ring that finds nothing. -/
theorem Consistent.behind (h : Consistent size s) {p : Poll}
    {batch : EventBatch} (hbatch : s.store.eventsAfter p.device p.cursor = .ok batch)
    (hempty : batch.events = []) : Behind size s p := by
  have hring : ∀ x ∈ (s.store.devices p.device).events, ¬ p.cursor.after < x.1.seq := by
    intro x hx hlt
    have hmem : x.1 ∈ batch.events := by
      rw [events_of_eventsAfter hbatch]
      exact List.mem_map_of_mem (List.mem_filter.mpr ⟨hx, decide_eq_true hlt⟩)
    rw [hempty] at hmem
    cases hmem
  refine ⟨fun x hx hlt => absurd hlt (hring x hx), fun hfits e he hlt => ?_⟩
  have hholds := h.rings p.device
  -- The newest event is in the ring, and no other number is higher.
  obtain ⟨last, hlast⟩ : ∃ last, last ∈ (s.published p.device).getLast? :=
    ⟨_, List.getLast?_eq_getLast_of_ne_nil (List.ne_nil_of_mem he)⟩
  have hnewest := hring _ (hholds.newest last hlast (hfits last (List.mem_of_getLast? hlast)))
  have hnumbered := hholds.numbered
  obtain ⟨front, hfront⟩ := List.getLast?_eq_some_iff.mp hlast
  have hhigh := (hnumbered.mem_le he).2
  rw [hfront] at hnumbered hhigh
  have hnumber := (numbered_concat.mp hnumbered).2
  rw [List.length_append, List.length_singleton] at hhigh
  dsimp only at hnewest
  omega

/-- A new event is behind every cursor, and its emit has the lock until it has notified. -/
theorem Consistent.push (h : Consistent size s) (hnone : s.emission = none) (device : DeviceId)
    (kind : String) (data : Value) :
    Consistent size { s with
      store := s.store.modifyDevice device fun state =>
        state.push size ⟨(s.store.devices device).seq + 1, kind, data⟩
      published := Function.update s.published device
        (s.published device ++ [⟨(s.store.devices device).seq + 1, kind, data⟩])
      emission := some ⟨device, ⟨(s.store.devices device).seq + 1, kind, data⟩, false⟩ } where
  rings d := by
    have hring := h.rings d
    rw [unsettled, hnone] at hring
    by_cases hd : d = device
    · subst hd
      simpa [unsettled] using hring.push kind data
    · simpa [unsettled, hd, Ne.symm hd] using hring
  pollers i := by
    have hquiet : ∀ d e, ¬ s.Unannounced d e := by
      intro d e hevent
      rw [Unannounced, hnone] at hevent
      cases hevent
    refine (h.pollers i).unnotified rfl fun p _ => ⟨?_, fun hbehind => ?_⟩
    · rintro ⟨event, hevent⟩
      cases hevent
    · by_cases hd : p.device = device
      · subst hd
        constructor
        · intro x hx hlt
          simp only [Store.modifyDevice_self, DeviceState.push, List.mem_append,
            List.mem_singleton] at hx
          rcases hx with hx | rfl
          · exact absurd (hbehind.ring x hx hlt) (hquiet _ _)
          · rfl
        · intro hfits e he hlt
          simp only [Function.update_self, List.mem_append, List.mem_singleton] at hfits he
          rcases he with he | rfl
          · exact absurd (hbehind.published (fun e he => hfits e (.inl he)) e he hlt) (hquiet _ _)
          · rfl
      · exact hbehind.step (hquiet _) (by simp [hd]) (by simp [hd])

/-- Whoever has enabled a future before is notified. -/
theorem Consistent.notify (h : Consistent size s) {device : DeviceId} {event : Event}
    (hemission : s.emission = some ⟨device, event, false⟩) :
    Consistent size { s with
      changed := Function.update s.changed device (notifier.notifyWaiters (s.changed device))
      emission := some ⟨device, event, true⟩ } where
  rings d := by
    have hring := h.rings d
    rw [unsettled, hemission] at hring
    exact hring
  pollers i := by
    refine (h.pollers i).step (fun d notified hkept => ?_) fun p notified hkept hready _ => ?_
    · dsimp only
      by_cases hd : d = device
      · subst hd
        rw [Function.update_self, notifier.ready_notifyWaiters notified _ hkept]
        exact ⟨notifier.enabled_notifyWaiters notified _ hkept, fun hready => by cases hready⟩
      · rw [Function.update_of_ne hd]
        exact ⟨hkept, id⟩
    · have hd : p.device ≠ device := by
        intro hd
        dsimp only at hready
        rw [hd] at hready hkept
        rw [Function.update_self, notifier.ready_notifyWaiters notified _ hkept] at hready
        cases hready
      constructor
      · rintro ⟨other, hother⟩
        cases hother
        exact hd rfl
      · intro hbehind
        refine hbehind.step (fun e he => ?_) rfl rfl
        rw [Unannounced, hemission] at he
        cases he
        exact hd rfl

theorem Consistent.makeRoom (h : Consistent size s) {device : DeviceId} {event : Event}
    (hemission : s.emission = some ⟨device, event, true⟩) :
    Consistent size { s with
      store := s.store.modifyDevice device fun state => state.makeRoom (size event)
      emission := none } where
  rings d := by
    have hring := h.rings d
    rw [unsettled, hemission] at hring
    by_cases hd : d = device
    · subst hd
      simpa [unsettled] using hring.makeRoom
    · simpa [unsettled, hd, Ne.symm hd] using hring
  pollers i := by
    refine (h.pollers i).unnotified rfl fun p hannounced => ⟨?_, fun hbehind => ?_⟩
    · rintro ⟨other, hother⟩
      cases hother
    · have hd : p.device ≠ device := fun hd => hannounced ⟨event, by rw [hd]; exact hemission⟩
      refine hbehind.step (fun e he => ?_) (by simp [hd]) rfl
      rw [Unannounced, hemission] at he
      cases he

/-- A future that is enabled costs nobody anything. -/
theorem Consistent.enable (h : Consistent size s) (device : DeviceId) :
    Consistent size { s with
      changed := Function.update s.changed device (notifier.notified (s.changed device)).2 } where
  rings := h.rings
  pollers i := by
    refine (h.pollers i).congr rfl (fun d => ?_) rfl rfl
    by_cases hd : d = device
    · subst hd
      exact .inr (Function.update_self ..)
    · exact .inl (Function.update_of_ne hd ..)

section
variable [DecidableEq ι]

theorem Consistent.setPoller (h : Consistent size s) (i : ι) {poller : Poller notifier}
    (hpoller : Relies size s poller) : Consistent size (s.setPoller i poller) where
  rings := h.rings
  pollers j := by
    have hpollers : (s.setPoller i poller).pollers j = Function.update s.pollers i poller j := rfl
    rw [hpollers]
    by_cases hj : j = i
    · rw [hj, Function.update_self]
      exact hpoller.congr rfl (fun _ => .inl rfl) rfl rfl
    · rw [Function.update_of_ne hj]
      exact (h.pollers j).congr rfl (fun _ => .inl rfl) rfl rfl

theorem Consistent.next (h : Consistent size s) (step : PollStep ι) :
    Consistent size (s.next size step) := by
  cases step with
  | elapse ms => exact ⟨h.rings, fun i => (h.pollers i).congr rfl (fun _ => .inl rfl) rfl rfl⟩
  | stop => exact ⟨h.rings, fun i => (h.pollers i).congr rfl (fun _ => .inl rfl) rfl rfl⟩
  | discover device => exact ⟨h.rings, fun i => (h.pollers i).congr rfl (fun _ => .inl rfl) rfl rfl⟩
  | request i query =>
      rw [LongPolls.next]
      split
      · exact h.setPoller i trivial
      · exact h.setPoller i trivial
  | enable i =>
      rw [LongPolls.next]
      split
      · next p hpoller =>
        refine (h.enable p.device).setPoller i ?_
        dsimp only [Relies]
        rw [Function.update_self]
        exact notifier.enabled_notified _
      · exact h
  | check i =>
      rw [LongPolls.next]
      split
      · next p notified hpoller hnone =>
        split
        · exact h.setPoller i trivial
        · next batch hbatch =>
          have henabled := h.pollers i
          rw [hpoller] at henabled
          refine h.setPoller i ⟨henabled, fun _ => ⟨?_, h.behind hbatch⟩⟩
          rintro ⟨event, hevent⟩
          rw [hnone] at hevent
          cases hevent
      · exact h
  | judge i =>
      rw [LongPolls.next]
      split
      · next p notified batch hpoller =>
        split_ifs with hreturns
        · exact h.setPoller i trivial
        · have hchecked := h.pollers i
          rw [hpoller] at hchecked
          refine h.setPoller i ⟨hchecked.1, fun hready => ?_⟩
          obtain ⟨hannounced, hbehind⟩ := hchecked.2 hready
          refine ⟨hannounced, hbehind ?_⟩
          simp only [Bool.or_eq_true, Bool.not_eq_true', not_or, Bool.not_eq_false] at hreturns
          exact List.isEmpty_iff.mp hreturns.1.1
      · exact h
  | wake i =>
      rw [LongPolls.next]
      split
      · split_ifs
        · exact h.setPoller i trivial
        · exact h
      · exact h
  | abandon i => exact h.setPoller i trivial
  | push device kind data =>
      rw [LongPolls.next]
      split
      · exact h
      · next hnone => exact h.push hnone device kind data
  | notify =>
      rw [LongPolls.next]
      split
      · next device event hemission => exact h.notify hemission
      · exact h
  | makeRoom =>
      rw [LongPolls.next]
      split
      · next device event hemission => exact h.makeRoom hemission
      · exact h

/-- A request that waits and has not been notified has all events of its device, but for one
of which the emit has still to notify. -/
def NoLostWakeUp (size : Event → ℕ) (s : LongPolls notifier ι) : Prop :=
  ∀ i p notified, s.pollers i = .waiting p notified →
    notifier.ready notified (s.changed p.device) = false → Behind size s p

theorem no_lost_wake_up (notifier : Notifier) (size : Event → ℕ) (epoch : String)
    (devices : List DeviceId) (status : DeviceId → DeviceStatus) (steps : List (PollStep ι)) :
    ((init notifier ι epoch devices status).run size steps).NoLostWakeUp size := by
  have hinit : Consistent size (init notifier ι epoch devices status) :=
    ⟨fun _ => ⟨rfl, rfl, List.suffix_refl _, rfl, by simp [init]⟩, fun _ => trivial⟩
  have hrun :=
    List.foldlRecOn steps (next size) hinit fun _ h step _ => Consistent.next h step
  intro i p notified hpoller hready
  have hwaits := hrun.pollers i
  rw [run] at hpoller
  rw [hpoller] at hwaits
  exact (hwaits.2 hready).2

/-- A request finds nothing and waits, and an emit has pushed its event. -/
def waitSteps : List (PollStep (Fin 1)) :=
  [.request 0 ⟨"dev-1", "1-1", 0, 500⟩, .enable 0, .check 0, .judge 0, .push "dev-1" "log" .null]

theorem no_lost_wake_up_counting :
    ((init .counting (Fin 1) "1-1" ["dev-1"] fun _ => .availableIdle).run Event.plainSize
      waitSteps).NoLostWakeUp Event.plainSize :=
  no_lost_wake_up .counting Event.plainSize "1-1" ["dev-1"] (fun _ => .availableIdle) waitSteps

end
end
end LongPolls
end IdfRemote
