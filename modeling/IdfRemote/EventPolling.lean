import IdfRemote.Store

/-!
# Polling the events of a device

Any number of clients poll while devices emit. A client keeps the cursor of its
last batch. Beside the store we keep what was ever published, which numbers the
events of a device from one, and for each client what it has received.
-/
namespace IdfRemote
open BoundedLog

structure Client where
  device : DeviceId
  start : Cursor
  cursor : Cursor
  received : List Event := []

structure Polling (ι : Type*) where
  store : Store
  published : DeviceId → List Event := fun _ => []
  clients : ι → Client

/-- A device emits, a client begins at some cursor, or it polls with the one it has. -/
inductive PollCall (ι : Type*)
  | emit (device : DeviceId) (kind : String) (data : Value)
  | follow (client : ι) (device : DeviceId) (cursor : Cursor)
  | poll (client : ι)

namespace Polling
variable {ι : Type*} [DecidableEq ι]

def next (size : Event → ℕ) (s : Polling ι) : PollCall ι → Polling ι
  | .emit device kind data =>
      let event : Event :=
        { seq := (s.store.devices device).seq + 1, kind := kind, data := data }
      { s with
        store := s.store.emit size device kind data
        published := Function.update s.published device (s.published device ++ [event]) }
  | .follow client device cursor =>
      { s with
        clients := Function.update s.clients client
          { device := device, start := cursor, cursor := cursor } }
  | .poll client =>
      let c := s.clients client
      match s.store.eventsAfter c.device c.cursor with
      | .error _ => s
      | .ok batch =>
          { s with
            clients := Function.update s.clients client
              { c with cursor := batch.cursor, received := c.received ++ batch.events } }

def run (size : Event → ℕ) (s : Polling ι) (calls : List (PollCall ι)) : Polling ι :=
  calls.foldl (next size) s

@[simp] theorem next_emit_store (size : Event → ℕ) (s : Polling ι) (device : DeviceId)
    (kind : String) (data : Value) :
    (s.next size (.emit device kind data)).store = s.store.emit size device kind data := rfl

@[simp] theorem next_emit_published (size : Event → ℕ) (s : Polling ι) (device : DeviceId)
    (kind : String) (data : Value) :
    (s.next size (.emit device kind data)).published =
      Function.update s.published device
        (s.published device ++ [⟨(s.store.devices device).seq + 1, kind, data⟩]) := rfl

@[simp] theorem next_poll_store (size : Event → ℕ) (s : Polling ι) (client : ι) :
    (s.next size (.poll client)).store = s.store := by
  simp only [next]
  split <;> rfl

@[simp] theorem next_poll_published (size : Event → ℕ) (s : Polling ι) (client : ι) :
    (s.next size (.poll client)).published = s.published := by
  simp only [next]
  split <;> rfl

/-- The ring of a device keeps the last of what was published, with the sizes. -/
structure Retains (size : Event → ℕ) (state : DeviceState) (published : List Event) : Prop where
  numbered : Numbered Event.seq published
  seq_eq : state.seq = published.length
  keeps : Keeps maxEvents maxEventBytes (published.map fun e => (e, size e)) state.events
    state.eventBytes

theorem Retains.emit {size : Event → ℕ} {state : DeviceState} {published : List Event}
    (h : Retains size state published) {kind : String} {data : Value}
    (hsize : size ⟨state.seq + 1, kind, data⟩ ≤ maxEventBytes) :
    Retains size (state.emit size kind data) (published ++ [⟨state.seq + 1, kind, data⟩]) where
  numbered := numbered_concat.mpr ⟨h.numbered, by rw [h.seq_eq]⟩
  seq_eq := by rw [DeviceState.emit_seq, h.seq_eq, List.length_append, List.length_singleton]
  keeps := by
    rw [List.map_append, List.map_singleton]
    exact h.keeps.append _ (by decide) hsize

section
variable {size : Event → ℕ} {state : DeviceState} {published : List Event}
  (h : Retains size state published)
include h

theorem Retains.split : ∃ pre, published = pre ++ state.events.map Prod.fst := by
  obtain ⟨pre, hpre⟩ := h.keeps.suffix
  have hfst := congrArg (List.map Prod.fst) hpre
  rw [List.map_append, List.map_map, Function.comp_def, List.map_id'] at hfst
  exact ⟨pre.map Prod.fst, hfst.symm⟩

theorem Retains.consecutive : state.events.map (fun e => e.1.seq) =
    List.range' (state.seq + 1 - state.events.length) state.events.length := by
  obtain ⟨pre, hpre⟩ := h.split
  have hsuffix := h.numbered.suffix ⟨pre, hpre.symm⟩
  rwa [List.map_map, List.length_map, ← h.seq_eq] at hsuffix

theorem Retains.sizes : ∀ e ∈ state.events, e.2 = size e.1 := by
  intro e he
  obtain ⟨event, -, rfl⟩ := List.mem_map.mp (h.keeps.suffix.mem he)
  rfl

/-- The gap test compares the cursor with what has left the ring. -/
theorem Retains.gap_iff {pre : List Event} (hpre : published = pre ++ state.events.map Prod.fst)
    {n : ℕ} :
    (state.events.head?.any fun e => n < e.1.seq - 1) = true ↔ n < pre.length := by
  cases hevents : state.events with
  | nil =>
      have hnone : published = [] := by
        by_contra hne
        exact h.keeps.newest (by simpa using hne) hevents
      have hseq : state.seq = 0 := by rw [h.seq_eq, hnone, List.length_nil]
      rw [hevents, hnone] at hpre
      have hempty : pre = [] := by simpa using hpre.symm
      simp [hempty]
  | cons front rest =>
      rw [hevents, List.map_cons] at hpre
      have hnumbered := h.numbered
      rw [hpre] at hnumbered
      simp [hnumbered.front]

end

/-- What a poll returns: everything after its cursor, or word of a gap. -/
inductive Answer (published ring : List Event) (cursor : Cursor) (after : ℕ) :
    ApiResult EventBatch → Prop
  | gone (event : Event) (hpublished : event ∈ published) (hafter : after < event.seq)
      (hevicted : event ∉ ring) :
      Answer published ring cursor after
        (.error ⟨.gone, "log_gap: requested events have been evicted"⟩)
  | batch (batch : EventBatch) (hcursor : batch.cursor = cursor)
      (hevents : batch.events = between Event.seq after batch.cursor.after published) :
      Answer published ring cursor after (.ok batch)

theorem eventsAfter_answer {size : Event → ℕ} {store : Store} {device : DeviceId}
    {published : List Event} (h : Retains size (store.devices device) published) {n : ℕ}
    (hn : n ≤ (store.devices device).seq) :
    Answer published ((store.devices device).events.map Prod.fst) (store.cursor device) n
      (store.eventsAfter device ⟨store.epoch, n⟩) := by
  obtain ⟨pre, hpre⟩ := h.split
  have hgap := h.gap_iff hpre (n := n)
  have hnumbered := h.numbered
  rw [hpre] at hnumbered
  simp only [Store.eventsAfter, ne_eq, not_true_eq_false, if_false, if_neg (Nat.not_lt.mpr hn)]
  split_ifs with hfront
  · obtain ⟨event, hmem, hseq, hevicted⟩ := hnumbered.misses (hgap.mp hfront)
    rw [← hpre] at hmem
    exact .gone event hmem (by omega) hevicted
  · have hall := hnumbered.serves (Nat.le_of_not_lt fun hlt => hfront (hgap.mpr hlt))
    rw [← hpre, List.filter_map, ← h.seq_eq] at hall
    exact .batch _ rfl hall

/-- Only a cursor of this run, at or behind the newest event, is served. -/
theorem cursor_of_eventsAfter {store : Store} {device : DeviceId} {cursor : Cursor}
    {batch : EventBatch} (h : store.eventsAfter device cursor = .ok batch) :
    cursor = ⟨store.epoch, cursor.after⟩ ∧ cursor.after ≤ (store.devices device).seq := by
  obtain ⟨epoch, after⟩ := cursor
  unfold Store.eventsAfter at h
  by_cases hepoch : epoch = store.epoch
  · by_cases hahead : (store.devices device).seq < after
    · simp [hepoch, hahead] at h
    · exact ⟨by rw [hepoch], Nat.le_of_not_lt hahead⟩
  · simp [hepoch] at h

/-- A client has received what lies between its start and its cursor. -/
structure Follows (published : List Event) (c : Client) : Prop where
  received : c.received = between Event.seq c.start.after c.cursor.after published
  reach : c.cursor = c.start ∨
    c.start.after ≤ c.cursor.after ∧ c.cursor.after ≤ published.length

theorem Follows.start (published : List Event) (device : DeviceId) (cursor : Cursor) :
    Follows published { device := device, start := cursor, cursor := cursor } where
  received := (between_self _).symm
  reach := .inl rfl

theorem Follows.publish {published : List Event} {c : Client} (h : Follows published c)
    {event : Event} (hnumbered : Numbered Event.seq (published ++ [event])) :
    Follows (published ++ [event]) c where
  received := by
    rcases h.reach with hstart | ⟨-, hle⟩
    · rw [h.received, hstart, between_self, between_self]
    · rw [h.received, hnumbered.between_concat hle]
  reach := by
    refine h.reach.imp_right fun ⟨hfirst, hle⟩ => ⟨hfirst, ?_⟩
    rw [List.length_append]
    omega

theorem Follows.poll {size : Event → ℕ} {store : Store} {published : List Event} {c : Client}
    (h : Follows published c) (hring : Retains size (store.devices c.device) published)
    {batch : EventBatch} (hpoll : store.eventsAfter c.device c.cursor = .ok batch) :
    Follows published
      { c with cursor := batch.cursor, received := c.received ++ batch.events } := by
  obtain ⟨hcursor, hle⟩ := cursor_of_eventsAfter hpoll
  have hanswer := eventsAfter_answer hring hle
  rw [← hcursor, hpoll] at hanswer
  cases hanswer with
  | batch _ hnext hevents =>
    have hafter : batch.cursor.after = published.length := by
      rw [hnext, ← hring.seq_eq]
      rfl
    have hfirst : c.start.after ≤ c.cursor.after :=
      h.reach.elim (fun heq => le_of_eq (by rw [heq])) And.left
    rw [hring.seq_eq] at hle
    constructor
    · rw [h.received, hevents, hafter]
      exact hring.numbered.between_append hfirst hle le_rfl
    · exact .inr ⟨hfirst.trans (hle.trans hafter.ge), hafter.le⟩

structure Sound (size : Event → ℕ) (s : Polling ι) : Prop where
  retains : ∀ device, Retains size (s.store.devices device) (s.published device)
  follows : ∀ client, Follows (s.published (s.clients client).device) (s.clients client)

variable {size : Event → ℕ}

theorem Sound.next {s : Polling ι} (h : Sound size s) (call : PollCall ι)
    (hsize : ∀ device, ∀ e ∈ (s.next size call).published device, size e ≤ maxEventBytes) :
    Sound size (s.next size call) := by
  cases call with
  | emit device kind data =>
      have hring : ∀ d, Retains size ((s.next size (.emit device kind data)).store.devices d)
          ((s.next size (.emit device kind data)).published d) := by
        intro d
        by_cases hd : d = device
        · subst hd
          have hevent := hsize d ⟨(s.store.devices d).seq + 1, kind, data⟩
            (by simp [Polling.next])
          simpa [Polling.next, Store.emit] using (h.retains d).emit hevent
        · simpa [Polling.next, Store.emit, hd] using h.retains d
      refine ⟨hring, fun client => ?_⟩
      by_cases hd : (s.clients client).device = device
      · subst hd
        have hnumbered := (hring (s.clients client).device).numbered
        simp only [Polling.next, Function.update_self] at hnumbered ⊢
        exact (h.follows client).publish hnumbered
      · simpa [Polling.next, hd] using h.follows client
  | follow client device cursor =>
      refine ⟨h.retains, fun other => ?_⟩
      by_cases hc : other = client
      · subst hc
        simpa [Polling.next] using Follows.start (s.published device) device cursor
      · simpa [Polling.next, hc] using h.follows other
  | poll client =>
      simp only [Polling.next]
      split
      · exact h
      · next batch hpoll =>
        refine ⟨h.retains, fun other => ?_⟩
        by_cases hc : other = client
        · subst hc
          simpa using (h.follows other).poll (h.retains _) hpoll
        · simpa [hc] using h.follows other

theorem published_mono (s : Polling ι) (call : PollCall ι) (device : DeviceId) :
    s.published device <+: (s.next size call).published device := by
  cases call with
  | emit d kind data =>
      by_cases hd : device = d
      · subst hd
        simp [Polling.next]
      · simp [Polling.next, hd]
  | follow client d cursor => exact List.prefix_refl _
  | poll client => rw [next_poll_published]

theorem Sound.run {s : Polling ι} (h : Sound size s) (calls : List (PollCall ι))
    (hsize : ∀ device, ∀ e ∈ (s.run size calls).published device, size e ≤ maxEventBytes) :
    Sound size (s.run size calls) := by
  induction calls using List.reverseRecOn with
  | nil => exact h
  | append_singleton calls call ih =>
      have hrun : s.run size (calls ++ [call]) = (s.run size calls).next size call := by
        rw [Polling.run, List.foldl_append]
        rfl
      rw [hrun] at hsize ⊢
      refine (ih fun device e he => hsize device e ?_).next call hsize
      exact (published_mono _ call device).mem he

/-- A fresh store that nobody has polled. -/
def init (epoch : String) (status : DeviceId → DeviceStatus) (clients : ι → DeviceId × Cursor) :
    Polling ι where
  store := .new epoch status
  clients client :=
    { device := (clients client).1, start := (clients client).2, cursor := (clients client).2 }

/-- What holds after any emits and polls. -/
structure NoSilentGap (size : Event → ℕ) (s : Polling ι) : Prop where
  published_seq : ∀ device, (s.published device).map Event.seq =
    List.range' 1 (s.store.devices device).seq
  ring_seq : ∀ device, (s.store.devices device).events.map (fun e => e.1.seq) =
    List.range' ((s.store.devices device).seq + 1 - (s.store.devices device).events.length)
      (s.store.devices device).events.length
  ring_length : ∀ device, (s.store.devices device).events.length ≤ maxEvents
  ring_bytes : ∀ device, (s.store.devices device).eventBytes ≤ maxEventBytes
  bytes_eq : ∀ device, (s.store.devices device).eventBytes =
    ((s.store.devices device).events.map fun e => size e.1).sum
  poll : ∀ device n, n ≤ (s.store.devices device).seq →
    Answer (s.published device) ((s.store.devices device).events.map Prod.fst)
      (s.store.cursor device) n (s.store.eventsAfter device ⟨s.store.epoch, n⟩)
  received : ∀ client, (s.clients client).received =
    between Event.seq (s.clients client).start.after (s.clients client).cursor.after
      (s.published (s.clients client).device)

theorem no_silent_gap (size : Event → ℕ) (epoch : String) (status : DeviceId → DeviceStatus)
    (clients : ι → DeviceId × Cursor) (calls : List (PollCall ι))
    (hsize : ∀ device, ∀ e ∈ ((init epoch status clients).run size calls).published device,
      size e ≤ maxEventBytes) :
    NoSilentGap size ((init epoch status clients).run size calls) := by
  have hinit : Sound size (init epoch status clients) :=
    ⟨fun _ => ⟨rfl, rfl, Keeps.nil⟩, fun _ => Follows.start _ _ _⟩
  have h := hinit.run calls hsize
  constructor
  · intro device
    rw [(h.retains device).seq_eq]
    exact (h.retains device).numbered
  · exact fun device => (h.retains device).consecutive
  · exact fun device => (h.retains device).keeps.length_le
  · exact fun device => (h.retains device).keeps.total_le
  · intro device
    rw [(h.retains device).keeps.total_eq, weight]
    exact congrArg List.sum (List.map_congr_left (h.retains device).sizes)
  · exact fun device n hn => eventsAfter_answer (h.retains device) hn
  · exact fun client => (h.follows client).received

end Polling

mutual

/-- The size of a document without floats or negative numbers and without characters to
escape. -/
def Value.plainSize : Value → ℕ
  | .null => 4
  | .bool b => if b then 4 else 5
  | .number (.posInt n) => (toString n.toNat).length
  | .number _ => 0
  | .string text => text.utf8ByteSize + 2
  | .array values => max 2 (1 + plainSizes values)
  | .object fields => max 2 (1 + plainFieldSizes fields)

def Value.plainSizes : List Value → ℕ
  | [] => 0
  | value :: values => value.plainSize + 1 + plainSizes values

def Value.plainFieldSizes : List (String × Value) → ℕ
  | [] => 0
  | (key, value) :: fields => key.utf8ByteSize + 3 + value.plainSize + 1 + plainFieldSizes fields

end

def Event.plainSize (e : Event) : ℕ :=
  (Value.object [("seq", natValue e.seq), ("kind", .string e.kind), ("data", e.data)]).plainSize

example : Event.plainSize ⟨1, "log", .null⟩ =
    "\x7b'seq':1,'kind':'log','data':null\x7d".length := by
  decide +kernel

namespace Polling

/-- One client polls after each of two events of one device. -/
def twoEvents : List (PollCall String) :=
  [.emit "dev-1" "log" .null, .poll "cli", .emit "dev-1" "log" .null, .poll "cli"]

theorem published_twoEvents (clients : String → DeviceId × Cursor) :
    ((init "1-1" (fun _ => .availableIdle) clients).run Event.plainSize twoEvents).published =
      Function.update (fun _ => []) "dev-1" [⟨1, "log", .null⟩, ⟨2, "log", .null⟩] := by
  simp [twoEvents, run, init, Store.new, Store.emit]

theorem no_silent_gap_twoEvents :
    NoSilentGap Event.plainSize
      ((init "1-1" (fun _ => .availableIdle) fun _ => ("dev-1", ⟨"1-1", 0⟩)).run Event.plainSize
        twoEvents) := by
  apply no_silent_gap Event.plainSize "1-1" _ _ twoEvents
  intro device e he
  rw [published_twoEvents] at he
  by_cases hd : device = "dev-1"
  · subst hd
    simp only [Function.update_self, List.mem_cons, List.not_mem_nil, or_false] at he
    rcases he with rfl | rfl <;> decide +kernel
  · simp [hd] at he

end Polling
end IdfRemote
