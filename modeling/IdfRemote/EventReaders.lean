import IdfRemote.CaptureLoop
import IdfRemote.EventPolling

/-!
# Waiting for output and streaming events

Two handlers read the ring of a device again and again. `wait` looks for a log event whose
text matches, and sleeps 20 ms between two looks; `stream` sends every event, and sleeps
50 ms. Between two steps of a handler devices emit, time passes, the daemon may stop, and
other handlers take their steps.
-/
namespace IdfRemote.EventReaders
open BoundedLog Polling

/-- The regular expression of a pattern, or why it is none. -/
structure Regexes where
  new : String → Except String (String → Bool)

structure WaitRequest where
  deviceId : DeviceId
  cursor : Cursor
  pattern : String
  timeoutMs : ℕ

structure EventQuery where
  deviceId : DeviceId
  epoch : String
  after : ℕ

def EventQuery.cursor (query : EventQuery) : Cursor := ⟨query.epoch, query.after⟩

/-- The answer `wait_timeout` has a status of its own. -/
inductive WaitError
  | api (error : ApiError)
  | timeout

/-- The variables of `wait`, with the cursor of the request. -/
structure Wait where
  device : DeviceId
  start : Cursor
  pattern : String → Bool
  cursor : Cursor
  deadline : ℕ

def Wait.isMatch (w : Wait) (event : Event) : Bool :=
  event.kind = "log" && (Monitor.textOf event.data "text").any w.pattern

/-- Where a request stands in the loop of `wait`. -/
inductive WaitPlace
  | check
  | look
  | judge
  | sleep (wake : ℕ)
  | answered (result : Except WaitError Event)

/-- What is sent to a client of `stream`. -/
inductive SseEvent
  | event (event : Event)
  | gap (message : String)

/-- The variables of `stream`, with the cursor of the request and what has been sent. -/
structure Stream where
  device : DeviceId
  start : Cursor
  cursor : Cursor
  sent : List SseEvent := []

inductive StreamPlace
  | check
  | look
  | send (events : List Event) (cursor : Cursor)
  | sleep (wake : ℕ)
  | closed

inductive Reader
  | idle
  | refused (error : ApiError)
  | wait (w : Wait) (place : WaitPlace)
  | stream (s : Stream) (place : StreamPlace)

structure Readers (ι : Type*) where
  store : Store
  devices : List DeviceId
  published : DeviceId → List Event := fun _ => []
  running : Bool := true
  now : ℕ := 0
  readers : ι → Reader := fun _ => .idle

inductive ReaderStep (ι : Type*)
  | elapse (ms : ℕ)
  | stop
  | discover (device : DeviceId)
  | emit (device : DeviceId) (kind : String) (data : Value)
  | wait (i : ι) (request : WaitRequest)
  | stream (i : ι) (query : EventQuery)
  | turn (i : ι)
  | abandon (i : ι)

namespace Readers
variable {ι : Type*}

def authorize (s : Readers ι) (device : DeviceId) : ApiResult Unit :=
  if device ∈ s.devices then .ok ()
  else .error ⟨.forbidden, "device_not_allowed: device is not in the daemon inventory"⟩

/-- The part of `wait` in front of its loop. -/
def acceptWait (regexes : Regexes) (s : Readers ι) (request : WaitRequest) : ApiResult Wait := do
  s.authorize request.deviceId
  if request.timeoutMs = 0 ∨ 300000 < request.timeoutMs ∨ 4096 < request.pattern.utf8ByteSize then
    .error (.bad "invalid wait bounds")
  else
    match regexes.new request.pattern with
    | .error message => .error (.bad message)
    | .ok pattern =>
        if pattern "" then .error (.bad "wait pattern must not match empty output")
        else
          .ok {
            device := request.deviceId
            start := request.cursor
            pattern := pattern
            cursor := request.cursor
            deadline := s.now + request.timeoutMs }

/-- The part of `stream` in front of its loop: a cursor that cannot be served is refused. -/
def acceptStream (s : Readers ι) (query : EventQuery) : ApiResult Stream := do
  s.authorize query.deviceId
  let _ ← s.store.eventsAfter query.deviceId query.cursor
  return { device := query.deviceId, start := query.cursor, cursor := query.cursor }

def turnWait (s : Readers ι) (w : Wait) : WaitPlace → Wait × WaitPlace
  | .check =>
      if s.running then (w, .look)
      else (w, .answered (.error (.api ⟨.serviceUnavailable, "daemon shutting down"⟩)))
  | .look =>
      match s.store.eventsAfter w.device w.cursor with
      | .error e => (w, .answered (.error (.api e)))
      | .ok batch =>
          match batch.events.find? w.isMatch with
          | some event => (w, .answered (.ok event))
          | none => ({ w with cursor := batch.cursor }, .judge)
  | .judge =>
      if w.deadline ≤ s.now then (w, .answered (.error .timeout)) else (w, .sleep (s.now + 20))
  | .sleep wake => if wake ≤ s.now then (w, .check) else (w, .sleep wake)
  | .answered result => (w, .answered result)

def turnStream (s : Readers ι) (t : Stream) : StreamPlace → Stream × StreamPlace
  | .check => if s.running then (t, .look) else (t, .closed)
  | .look =>
      match s.store.eventsAfter t.device t.cursor with
      | .error e => ({ t with sent := t.sent ++ [.gap e.message] }, .closed)
      | .ok batch => (t, .send batch.events batch.cursor)
  | .send [] cursor => ({ t with cursor := cursor }, .sleep (s.now + 50))
  | .send (event :: events) cursor =>
      ({ t with sent := t.sent ++ [.event event] }, .send events cursor)
  | .sleep wake => if wake ≤ s.now then (t, .check) else (t, .sleep wake)
  | .closed => (t, .closed)

def turnReader (s : Readers ι) : Reader → Reader
  | .wait w place => .wait (s.turnWait w place).1 (s.turnWait w place).2
  | .stream t place => .stream (s.turnStream t place).1 (s.turnStream t place).2
  | reader => reader

variable [DecidableEq ι]

def setReader (s : Readers ι) (i : ι) (reader : Reader) : Readers ι :=
  { s with readers := Function.update s.readers i reader }

def next (size : Event → ℕ) (regexes : Regexes) (s : Readers ι) : ReaderStep ι → Readers ι
  | .elapse ms => { s with now := s.now + ms }
  | .stop => { s with running := false }
  | .discover device => { s with devices := s.devices ++ [device] }
  | .emit device kind data =>
      let event : Event :=
        { seq := (s.store.devices device).seq + 1, kind := kind, data := data }
      { s with
        store := s.store.emit size device kind data
        published := Function.update s.published device (s.published device ++ [event]) }
  | .wait i request =>
      match s.acceptWait regexes request with
      | .error e => s.setReader i (.refused e)
      | .ok w => s.setReader i (.wait w .check)
  | .stream i query =>
      match s.acceptStream query with
      | .error e => s.setReader i (.refused e)
      | .ok t => s.setReader i (.stream t .check)
  | .turn i => s.setReader i (s.turnReader (s.readers i))
  | .abandon i => s.setReader i .idle

def run (size : Event → ℕ) (regexes : Regexes) (s : Readers ι) (steps : List (ReaderStep ι)) :
    Readers ι :=
  steps.foldl (next size regexes) s

def init (epoch : String) (devices : List DeviceId) (status : DeviceId → DeviceStatus) :
    Readers ι where
  store := .new epoch status
  devices := devices

end Readers

theorem between_cons {α : Type*} {number : α → ℕ} {history rest : List α} {item : α}
    (h : Numbered number history) {n m : ℕ} (hm : m ≤ history.length)
    (hbetween : between number n m history = item :: rest) :
    n + 1 ≤ m ∧ between number n (n + 1) history = [item] ∧
      between number (n + 1) m history = rest := by
  have hsplit := hbetween
  rw [h.between_eq] at hsplit
  have hlt : n < m := by
    by_contra hle
    rw [List.drop_of_length_le (by rw [List.length_take]; omega)] at hsplit
    cases hsplit
  have hlength : n < (history.take m).length := by
    rw [List.length_take]
    omega
  rw [List.drop_eq_getElem_cons hlength] at hsplit
  obtain ⟨hitem, hrest⟩ := List.cons.inj hsplit
  refine ⟨hlt, ?_, by rw [h.between_eq, hrest]⟩
  rw [h.between_eq, ← hitem, List.getElem_take, ← List.take_append_getElem (by omega),
    List.drop_append, List.drop_of_length_le (List.length_take_le ..), List.nil_append,
    List.length_take, Nat.min_eq_left (by omega), Nat.sub_self, List.drop_zero]

/-- The event behind number `n` has left the ring. -/
def Missed (published ring : List Event) (n : ℕ) : Prop :=
  ∃ event ∈ published, event.seq = n + 1 ∧ event ∉ ring

/-- The request has looked at everything between its cursor and where it stands now. -/
structure Wait.Searched (epoch : String) (published : List Event) (w : Wait) : Prop where
  reach : w.cursor = w.start ∨ w.cursor.epoch = epoch ∧
    w.start.after ≤ w.cursor.after ∧ w.cursor.after ≤ published.length
  unmatched : ∀ event ∈ between Event.seq w.start.after w.cursor.after published,
    w.isMatch event = false

/-- The first event behind the cursor of the request that matches. -/
structure Wait.First (published : List Event) (w : Wait) (event : Event) : Prop where
  mem : event ∈ published
  after : w.start.after < event.seq
  isMatch : w.isMatch event = true
  first : ∀ other ∈ published, w.start.after < other.seq → other.seq < event.seq →
    w.isMatch other = false

/-- Why a request is answered as it is. -/
def Wait.Justified (published ring : List Event) (running : Bool) (now : ℕ) (w : Wait) :
    Except WaitError Event → Prop
  | .ok event => w.First published event
  | .error .timeout => w.deadline ≤ now
  | .error (.api e) =>
      if e.status = .gone then Missed published ring w.cursor.after
      else running = false ∨ w.cursor = w.start

def Wait.Sound (epoch : String) (published ring : List Event) (running : Bool) (now : ℕ)
    (w : Wait) : WaitPlace → Prop
  | .answered result =>
      w.Searched epoch published ∧ w.Justified published ring running now result
  | _ => w.Searched epoch published

/-- All events from the cursor of the request up to this number have been sent. -/
structure Stream.Sent (published : List Event) (t : Stream) (sent : List SseEvent) (reached : ℕ) :
    Prop where
  first : t.start.after ≤ reached
  last : reached ≤ published.length
  sent : sent = (between Event.seq t.start.after reached published).map .event

/-- What a client of `stream` has been sent: consecutive events, and at the end possibly word of a
gap, when the next one is no longer there. -/
def Stream.Sound (epoch : String) (published ring : List Event) (t : Stream) : StreamPlace → Prop
  | .send events cursor =>
      ∃ reached, t.Sent published t.sent reached ∧ reached ≤ cursor.after ∧
        cursor.epoch = epoch ∧ cursor.after ≤ published.length ∧
        events = between Event.seq reached cursor.after published
  | .closed =>
      ∃ reached, t.Sent published t.sent reached ∨
        ∃ sent message, t.sent = sent ++ [.gap message] ∧ t.Sent published sent reached ∧
          Missed published ring reached
  | _ => t.cursor.epoch = epoch ∧ t.Sent published t.sent t.cursor.after

def Reader.Sound {ι : Type*} (s : Readers ι) : Reader → Prop
  | .wait w place =>
      w.Sound s.store.epoch (s.published w.device)
        ((s.store.devices w.device).events.map Prod.fst) s.running s.now place
  | .stream t place =>
      t.Sound s.store.epoch (s.published t.device)
        ((s.store.devices t.device).events.map Prod.fst) place
  | _ => True

structure Readers.Sound {ι : Type*} (size : Event → ℕ) (s : Readers ι) : Prop where
  retains : ∀ device, Retains size (s.store.devices device) (s.published device)
  readers : ∀ i, (s.readers i).Sound s

section
variable {size : Event → ℕ} {state : DeviceState} {published : List Event} {event : Event}

theorem Missed.publish {ring ring' : List Event} {n : ℕ} (h : Missed published ring n)
    (hnumbered : Numbered Event.seq (published ++ [event])) (hring : ring' ⊆ ring ++ [event]) :
    Missed (published ++ [event]) ring' n := by
  obtain ⟨missed, hmem, hnext, hevicted⟩ := h
  refine ⟨missed, List.mem_append_left _ hmem, hnext, fun hin => ?_⟩
  rcases List.mem_append.mp (hring hin) with hin | hin
  · exact hevicted hin
  · obtain ⟨hold, hseq⟩ := numbered_concat.mp hnumbered
    have hle := (hold.mem_le hmem).2
    rw [List.mem_singleton.mp hin] at hle
    omega

theorem Wait.Searched.publish {epoch : String} {w : Wait} (h : w.Searched epoch published)
    (hnumbered : Numbered Event.seq (published ++ [event])) :
    w.Searched epoch (published ++ [event]) where
  reach := h.reach.imp_right fun ⟨hepoch, hfirst, hlast⟩ =>
    ⟨hepoch, hfirst, by rw [List.length_append]; omega⟩
  unmatched := by
    rcases h.reach with hstart | ⟨-, -, hlast⟩
    · rw [hstart, between_self]
      exact fun e he => by cases he
    · rw [hnumbered.between_concat hlast]
      exact h.unmatched

theorem Wait.First.publish {w : Wait} {found : Event} (h : w.First published found)
    (hnumbered : Numbered Event.seq (published ++ [event])) :
    w.First (published ++ [event]) found where
  mem := List.mem_append_left _ h.mem
  after := h.after
  isMatch := h.isMatch
  first other hother hafter hbefore := by
    rcases List.mem_append.mp hother with hother | hother
    · exact h.first other hother hafter hbefore
    · obtain ⟨hold, hseq⟩ := numbered_concat.mp hnumbered
      have hle := (hold.mem_le h.mem).2
      rw [List.mem_singleton.mp hother] at hbefore
      omega

theorem Wait.Sound.publish {epoch : String} {w : Wait} {place : WaitPlace}
    {ring ring' : List Event} {running : Bool} {now : ℕ}
    (h : w.Sound epoch published ring running now place)
    (hnumbered : Numbered Event.seq (published ++ [event])) (hring : ring' ⊆ ring ++ [event]) :
    w.Sound epoch (published ++ [event]) ring' running now place := by
  cases place with
  | answered result =>
      refine ⟨h.1.publish hnumbered, ?_⟩
      have hjustified := h.2
      cases result with
      | ok found => exact Wait.First.publish hjustified hnumbered
      | error e =>
          cases e with
          | timeout => exact hjustified
          | api e =>
              unfold Wait.Justified at hjustified ⊢
              dsimp only at hjustified ⊢
              split_ifs at hjustified ⊢ with hgone
              · exact hjustified.publish hnumbered hring
              · exact hjustified
  | _ => exact Wait.Searched.publish h hnumbered

theorem Stream.Sent.publish {t : Stream} {sent : List SseEvent} {reached : ℕ}
    (h : t.Sent published sent reached) (hnumbered : Numbered Event.seq (published ++ [event])) :
    t.Sent (published ++ [event]) sent reached where
  first := h.first
  last := by
    have hlast := h.last
    rw [List.length_append]
    omega
  sent := by rw [hnumbered.between_concat h.last, h.sent]

theorem Stream.Sound.publish {t : Stream} {place : StreamPlace} {epoch : String}
    {ring ring' : List Event} (h : t.Sound epoch published ring place)
    (hnumbered : Numbered Event.seq (published ++ [event])) (hring : ring' ⊆ ring ++ [event]) :
    t.Sound epoch (published ++ [event]) ring' place := by
  cases place with
  | send events cursor =>
      obtain ⟨reached, hsent, hle, hepoch, hlast, hevents⟩ := h
      refine ⟨reached, hsent.publish hnumbered, hle, hepoch, ?_, ?_⟩
      · rw [List.length_append]
        omega
      · rw [hnumbered.between_concat hlast, hevents]
  | closed =>
      obtain ⟨reached, hsent | ⟨sent, message, htail, hsent, hmissed⟩⟩ := h
      · exact ⟨reached, .inl (hsent.publish hnumbered)⟩
      · exact ⟨reached, .inr ⟨sent, message, htail, hsent.publish hnumbered,
          hmissed.publish hnumbered hring⟩⟩
  | _ => exact ⟨h.1, h.2.publish hnumbered⟩

theorem Wait.Searched.start_le {epoch : String} {w : Wait} (h : w.Searched epoch published) :
    w.start.after ≤ w.cursor.after := by
  rcases h.reach with hstart | ⟨-, hfirst, -⟩
  · rw [hstart]
  · exact hfirst

theorem ordered_of_numbered (h : Numbered Event.seq published) :
    published.Pairwise fun e f => e.seq < f.seq := by
  rw [← List.pairwise_map, h]
  exact List.pairwise_lt_range'

/-- The first match of a look is the first one since the request. -/
theorem Wait.Searched.found {epoch : String} {w : Wait} (h : w.Searched epoch published)
    (hnumbered : Numbered Event.seq published) {found : Event}
    (hfind : (between Event.seq w.cursor.after published.length published).find? w.isMatch =
      some found) : w.First published found := by
  obtain ⟨hmatch, before, behind, hsplit, hbefore⟩ := List.find?_eq_some_iff_append.mp hfind
  have hordered : (before ++ found :: behind).Pairwise fun e f => e.seq < f.seq := by
    rw [← hsplit]
    exact (ordered_of_numbered hnumbered).filter _
  have hfound : found ∈ between Event.seq w.cursor.after published.length published := by
    rw [hsplit]
    exact List.mem_append_right _ List.mem_cons_self
  obtain ⟨hmem, hbounds⟩ := List.mem_filter.mp hfound
  have hafter := (of_decide_eq_true hbounds).1
  refine ⟨hmem, lt_of_le_of_lt h.start_le hafter, hmatch, fun other hother hstart hless => ?_⟩
  by_cases hseen : other.seq ≤ w.cursor.after
  · exact h.unmatched other (List.mem_filter.mpr ⟨hother, decide_eq_true ⟨hstart, hseen⟩⟩)
  · have hbetween : other ∈ before ++ found :: behind := by
      rw [← hsplit]
      exact List.mem_filter.mpr
        ⟨hother, decide_eq_true ⟨by omega, (hnumbered.mem_le hother).2⟩⟩
    rcases List.mem_append.mp hbetween with hin | hin
    · simpa using hbefore other hin
    · have hbehind := (List.pairwise_append.mp hordered).2.1
      rcases List.mem_cons.mp hin with rfl | hin
      · exact absurd hless (lt_irrefl _)
      · exact absurd (List.rel_of_pairwise_cons hbehind hin) (by omega)

/-- A look without a match moves the cursor on. -/
theorem Wait.Searched.look {epoch : String} {w : Wait} (h : w.Searched epoch published)
    (hnumbered : Numbered Event.seq published) {cursor : Cursor} (hepoch : cursor.epoch = epoch)
    (hcursor : cursor.after = published.length) (hle : w.cursor.after ≤ published.length)
    (hfind : (between Event.seq w.cursor.after published.length published).find? w.isMatch = none) :
    Wait.Searched epoch published { w with cursor := cursor } where
  reach := .inr ⟨hepoch, h.start_le.trans (by rwa [hcursor]), hcursor.le⟩
  unmatched := by
    rw [hcursor, ← hnumbered.between_append h.start_le hle le_rfl]
    exact List.forall_mem_append.mpr
      ⟨h.unmatched, fun e he => Bool.eq_false_iff.mpr (List.find?_eq_none.mp hfind e he)⟩

variable {ι : Type*} {s : Readers ι}

/-- Where a later event has left the ring, so has the next one. -/
theorem missed_of_evicted {state : DeviceState} (hring : Retains size state published) {n : ℕ}
    (hmem : event ∈ published) (hafter : n < event.seq)
    (hevicted : event ∉ state.events.map Prod.fst) :
    Missed published (state.events.map Prod.fst) n := by
  obtain ⟨pre, hpre⟩ := hring.split
  have hnumbered := hring.numbered
  rw [hpre] at hnumbered
  have hin : event ∈ pre := by
    rw [hpre] at hmem
    exact (List.mem_append.mp hmem).resolve_right hevicted
  have hle := (hnumbered.append_left.mem_le hin).2
  have hmissed := hnumbered.misses (show n < pre.length by omega)
  rwa [← hpre] at hmissed

/-- Word of a gap comes with a cursor that has been served before, or that can be served. -/
theorem missed_of_eventsAfter {store : Store} {device : DeviceId} {cursor : Cursor}
    (hring : Retains size (store.devices device) published) {e : ApiError}
    (hlook : store.eventsAfter device cursor = .error e)
    (hcursor : e.status = .gone ∨ cursor.epoch = store.epoch ∧ cursor.after ≤ published.length) :
    e.status = .gone ∧ Missed published ((store.devices device).events.map Prod.fst)
      cursor.after := by
  have hserved : cursor.epoch = store.epoch ∧ cursor.after ≤ (store.devices device).seq := by
    rcases hcursor with hgone | hserved
    · unfold Store.eventsAfter at hlook
      by_cases hepoch : cursor.epoch = store.epoch
      · by_cases hahead : (store.devices device).seq < cursor.after
        · simp only [hepoch, hahead, ne_eq, not_true_eq_false, if_false, if_true] at hlook
          cases hlook
          cases hgone
        · exact ⟨hepoch, Nat.le_of_not_lt hahead⟩
      · simp only [hepoch, ne_eq, not_false_eq_true, if_true] at hlook
        cases hlook
        cases hgone
    · rwa [hring.seq_eq]
  have hanswer := eventsAfter_answer hring hserved.2
  rw [show (⟨store.epoch, cursor.after⟩ : Cursor) = cursor by rw [← hserved.1], hlook] at hanswer
  cases hanswer with
  | gone event hpublished hafter hevicted =>
      exact ⟨rfl, missed_of_evicted hring hpublished hafter hevicted⟩

theorem Readers.turnWait_sound (h : ∀ device, Retains size (s.store.devices device)
    (s.published device)) {w : Wait} {place : WaitPlace} (hw : (Reader.wait w place).Sound s) :
    (s.turnReader (.wait w place)).Sound s := by
  have hring := h w.device
  unfold turnReader turnWait
  cases place with
  | check =>
      dsimp only
      split_ifs with hrunning
      · exact hw
      · refine ⟨hw, ?_⟩
        unfold Wait.Justified
        exact .inl (by simpa using hrunning)
  | look =>
      have hsearched : w.Searched s.store.epoch (s.published w.device) := hw
      dsimp only
      cases hlook : s.store.eventsAfter w.device w.cursor with
      | error e =>
          refine ⟨hsearched, ?_⟩
          unfold Wait.Justified
          dsimp only
          split_ifs with hgone
          · exact (missed_of_eventsAfter hring hlook (.inl hgone)).2
          · rcases hsearched.reach with hstart | ⟨hepoch, -, hlast⟩
            · exact .inr hstart
            · exact absurd (missed_of_eventsAfter hring hlook (.inr ⟨hepoch, hlast⟩)).1 hgone
      | ok batch =>
          obtain ⟨hcursor, hle⟩ := cursor_of_eventsAfter hlook
          have hanswer := eventsAfter_answer hring hle
          rw [← hcursor, hlook] at hanswer
          cases hanswer with
          | batch _ hnext hevents =>
            have hafter : batch.cursor.after = (s.published w.device).length := by
              rw [hnext, ← hring.seq_eq]
              rfl
            rw [hafter] at hevents
            rw [hring.seq_eq] at hle
            dsimp only
            rw [hevents]
            cases hfind : (between Event.seq w.cursor.after (s.published w.device).length
                (s.published w.device)).find? w.isMatch with
            | some found => exact ⟨hsearched, hsearched.found hring.numbered hfind⟩
            | none => exact hsearched.look hring.numbered (by rw [hnext]; rfl) hafter hle hfind
  | judge =>
      dsimp only
      split_ifs with hlate
      · exact ⟨hw, hlate⟩
      · exact hw
  | sleep wake =>
      dsimp only
      split_ifs <;> exact hw
  | answered result => exact hw

theorem Stream.Sent.next {t : Stream} {reached : ℕ} (h : t.Sent published t.sent reached)
    (hnumbered : Numbered Event.seq published) {last : ℕ} (hlast : last ≤ published.length)
    {events : List Event}
    (hevents : event :: events = between Event.seq reached last published) :
    t.Sent published (t.sent ++ [.event event]) (reached + 1) ∧ reached + 1 ≤ last ∧
      events = between Event.seq (reached + 1) last published := by
  obtain ⟨hle, hone, hrest⟩ := between_cons hnumbered hlast hevents.symm
  refine ⟨⟨Nat.le_succ_of_le h.first, hle.trans hlast, ?_⟩, hle, hrest.symm⟩
  rw [h.sent, ← hnumbered.between_append h.first (Nat.le_succ _) (hle.trans hlast), hone,
    List.map_append, List.map_singleton]

theorem Readers.turnStream_sound (h : ∀ device, Retains size (s.store.devices device)
    (s.published device)) {t : Stream} {place : StreamPlace}
    (ht : (Reader.stream t place).Sound s) : (s.turnReader (.stream t place)).Sound s := by
  have hring := h t.device
  unfold turnReader turnStream
  cases place with
  | check =>
      dsimp only
      split_ifs
      · exact ht
      · exact ⟨_, .inl ht.2⟩
  | look =>
      obtain ⟨hepoch, hsent⟩ := ht
      dsimp only
      cases hlook : s.store.eventsAfter t.device t.cursor with
      | error e =>
          have hmissed := (missed_of_eventsAfter hring hlook (.inr ⟨hepoch, hsent.last⟩)).2
          exact ⟨t.cursor.after, .inr ⟨t.sent, e.message, rfl,
            ⟨hsent.first, hsent.last, hsent.sent⟩, hmissed⟩⟩
      | ok batch =>
          obtain ⟨hcursor, hle⟩ := cursor_of_eventsAfter hlook
          have hanswer := eventsAfter_answer hring hle
          rw [← hcursor, hlook] at hanswer
          cases hanswer with
          | batch _ hnext hevents =>
            have hafter : batch.cursor.after = (s.published t.device).length := by
              rw [hnext, ← hring.seq_eq]
              rfl
            refine ⟨t.cursor.after, hsent, ?_, by rw [hnext]; rfl, hafter.le, hevents⟩
            rw [hafter]
            exact hsent.last
  | send events cursor =>
      obtain ⟨reached, hsent, hle, hepoch, hlast, hevents⟩ := ht
      cases events with
      | nil =>
          refine ⟨hepoch, ⟨hsent.first.trans hle, hlast, ?_⟩⟩
          rw [← hring.numbered.between_append hsent.first hle hlast, ← hevents, List.append_nil]
          exact hsent.sent
      | cons event events =>
          obtain ⟨hnext, hle', hrest⟩ := hsent.next hring.numbered hlast hevents
          exact ⟨reached + 1, ⟨hnext.first, hnext.last, hnext.sent⟩, hle', hepoch, hlast, hrest⟩
  | sleep wake =>
      dsimp only
      split_ifs <;> exact ht
  | closed => exact ht

/-- Nothing but the events of a device matters for its readers, and time only goes on. -/
theorem Reader.Sound.later {s' : Readers ι} {reader : Reader} (h : reader.Sound s)
    (hstore : s'.store = s.store) (hpublished : s'.published = s.published)
    (hrunning : s.running = false → s'.running = false) (hnow : s.now ≤ s'.now) :
    reader.Sound s' := by
  cases reader with
  | wait w place =>
      unfold Sound at h ⊢
      dsimp only at h ⊢
      rw [hstore, hpublished]
      cases place with
      | answered result =>
          refine ⟨h.1, ?_⟩
          have hjustified := h.2
          cases result with
          | ok event => exact hjustified
          | error e =>
              cases e with
              | timeout => exact Nat.le_trans hjustified hnow
              | api e =>
                  unfold Wait.Justified at hjustified ⊢
                  dsimp only at hjustified ⊢
                  split_ifs at hjustified ⊢
                  · exact hjustified
                  · exact hjustified.imp_left hrunning
      | _ => exact h
  | stream t place =>
      unfold Sound at h ⊢
      dsimp only at h ⊢
      rw [hstore, hpublished]
      exact h
  | _ => trivial

theorem Reader.Sound.emit {reader : Reader} (h : reader.Sound s) {device : DeviceId}
    {kind : String} {data : Value} (hnumbered : Numbered Event.seq
      (s.published device ++ [⟨(s.store.devices device).seq + 1, kind, data⟩])) :
    reader.Sound { s with
      store := s.store.emit size device kind data
      published := Function.update s.published device
        (s.published device ++ [⟨(s.store.devices device).seq + 1, kind, data⟩]) } := by
  have hring : ((s.store.devices device).emit size kind data).events.map Prod.fst ⊆
      (s.store.devices device).events.map Prod.fst ++
        [⟨(s.store.devices device).seq + 1, kind, data⟩] := by
    have hsuffix := (@trim_suffix _ maxEvents maxEventBytes
      ((s.store.devices device).events ++ [(⟨(s.store.devices device).seq + 1, kind, data⟩,
        size ⟨(s.store.devices device).seq + 1, kind, data⟩)])
      ((s.store.devices device).eventBytes +
        size ⟨(s.store.devices device).seq + 1, kind, data⟩)).map Prod.fst
    rw [List.map_append] at hsuffix
    exact hsuffix.subset
  cases reader with
  | wait w place =>
      by_cases hdevice : w.device = device
      · subst hdevice
        have hpublish := Wait.Sound.publish h hnumbered hring
        simpa [Sound, Store.emit, Store.modifyDevice] using hpublish
      · simpa [Sound, Store.emit, Store.modifyDevice, hdevice] using h
  | stream t place =>
      by_cases hdevice : t.device = device
      · subst hdevice
        have hpublish := Stream.Sound.publish h hnumbered hring
        simpa [Sound, Store.emit, Store.modifyDevice] using hpublish
      · simpa [Sound, Store.emit, Store.modifyDevice, hdevice] using h
  | _ => trivial

theorem Readers.acceptWait_sound {regexes : Regexes} {request : WaitRequest} {w : Wait}
    (h : s.acceptWait regexes request = .ok w) : (Reader.wait w .check).Sound s := by
  have hstart : w.cursor = w.start := by
    unfold acceptWait at h
    cases hdevice : s.authorize request.deviceId with
    | error e =>
        rw [hdevice] at h
        cases h
    | ok allowed =>
        rw [hdevice] at h
        dsimp only [bind, Except.bind] at h
        split_ifs at h
        split at h
        · cases h
        · split_ifs at h
          cases h
          rfl
  refine ⟨.inl hstart, ?_⟩
  rw [hstart, between_self]
  exact fun e he => by cases he

theorem Readers.acceptStream_sound (h : ∀ device, Retains size (s.store.devices device)
    (s.published device)) {query : EventQuery} {t : Stream} (ht : s.acceptStream query = .ok t) :
    (Reader.stream t .check).Sound s := by
  unfold acceptStream authorize at ht
  split_ifs at ht
  · dsimp only [bind, Except.bind] at ht
    cases hlook : s.store.eventsAfter query.deviceId query.cursor with
    | error e =>
        rw [hlook] at ht
        cases ht
    | ok batch =>
        rw [hlook] at ht
        cases ht
        obtain ⟨hcursor, hle⟩ := cursor_of_eventsAfter hlook
        rw [(h query.deviceId).seq_eq] at hle
        refine ⟨congrArg Cursor.epoch hcursor, le_rfl, hle, ?_⟩
        rw [between_self]
        rfl
  · cases ht

theorem sound_init (size : Event → ℕ) (epoch : String) (devices : List DeviceId)
    (status : DeviceId → DeviceStatus) :
    (Readers.init epoch devices status : Readers ι).Sound size where
  retains _ := ⟨rfl, rfl, Keeps.nil⟩
  readers _ := trivial

variable [DecidableEq ι]

theorem Readers.Sound.setReader (h : s.Sound size) (i : ι) {reader : Reader}
    (hreader : reader.Sound s) : (s.setReader i reader).Sound size := by
  refine ⟨h.retains, fun j => ?_⟩
  change (Function.update s.readers i reader j).Sound (s.setReader i reader)
  by_cases hj : j = i
  · subst hj
    rw [Function.update_self]
    exact hreader.later rfl rfl id le_rfl
  · rw [Function.update_of_ne hj]
    exact (h.readers j).later rfl rfl id le_rfl

theorem Readers.Sound.next (h : s.Sound size) (regexes : Regexes) (step : ReaderStep ι)
    (hsize : ∀ device, ∀ e ∈ (s.next size regexes step).published device,
      size e ≤ maxEventBytes) : (s.next size regexes step).Sound size := by
  cases step with
  | elapse ms =>
      exact ⟨h.retains, fun i => (h.readers i).later rfl rfl id (Nat.le_add_right _ _)⟩
  | stop => exact ⟨h.retains, fun i => (h.readers i).later rfl rfl (fun _ => rfl) le_rfl⟩
  | discover device => exact ⟨h.retains, fun i => (h.readers i).later rfl rfl id le_rfl⟩
  | emit device kind data =>
      have hretains : ∀ d, Retains size ((s.store.emit size device kind data).devices d)
          (Function.update s.published device (s.published device ++
            [⟨(s.store.devices device).seq + 1, kind, data⟩]) d) := by
        intro d
        by_cases hd : d = device
        · subst hd
          have hevent := hsize d ⟨(s.store.devices d).seq + 1, kind, data⟩
            (by simp [Readers.next])
          simpa [Store.emit] using (h.retains d).emit hevent
        · simpa [Store.emit, hd] using h.retains d
      refine ⟨hretains, fun i => (h.readers i).emit ?_⟩
      have hnumbered := (hretains device).numbered
      rwa [Function.update_self] at hnumbered
  | wait i request =>
      unfold Readers.next
      dsimp only
      split
      · exact h.setReader i trivial
      · next w hw => exact h.setReader i (Readers.acceptWait_sound hw)
  | stream i query =>
      unfold Readers.next
      dsimp only
      split
      · exact h.setReader i trivial
      · next t ht => exact h.setReader i (Readers.acceptStream_sound h.retains ht)
  | turn i =>
      refine h.setReader i ?_
      have hreader := h.readers i
      cases hturn : s.readers i with
      | wait w place =>
          rw [hturn] at hreader
          exact Readers.turnWait_sound h.retains hreader
      | stream t place =>
          rw [hturn] at hreader
          exact Readers.turnStream_sound h.retains hreader
      | _ => trivial
  | abandon i => exact h.setReader i trivial

theorem Readers.next_cases (s : Readers ι) (size : Event → ℕ) (regexes : Regexes)
    (step : ReaderStep ι) :
    (∃ device kind data, step = .emit device kind data) ∨
      (s.next size regexes step).store = s.store ∧
        (s.next size regexes step).published = s.published := by
  cases step with
  | emit device kind data => exact .inl ⟨device, kind, data, rfl⟩
  | wait i request =>
      unfold Readers.next
      dsimp only
      split <;> exact .inr ⟨rfl, rfl⟩
  | stream i query =>
      unfold Readers.next
      dsimp only
      split <;> exact .inr ⟨rfl, rfl⟩
  | _ => exact .inr ⟨rfl, rfl⟩

theorem Readers.published_mono (s : Readers ι) (regexes : Regexes) (step : ReaderStep ι)
    (device : DeviceId) : s.published device <+: (s.next size regexes step).published device := by
  rcases s.next_cases size regexes step with ⟨d, kind, data, rfl⟩ | ⟨-, hsame⟩
  · by_cases hd : device = d
    · subst hd
      simp [Readers.next]
    · simp [Readers.next, hd]
  · rw [hsame]

theorem Readers.Sound.run (h : s.Sound size) (regexes : Regexes) (steps : List (ReaderStep ι))
    (hsize : ∀ device, ∀ e ∈ (s.run size regexes steps).published device,
      size e ≤ maxEventBytes) : (s.run size regexes steps).Sound size := by
  induction steps using List.reverseRecOn with
  | nil => exact h
  | append_singleton steps step ih =>
      have hrun : s.run size regexes (steps ++ [step]) =
          (s.run size regexes steps).next size regexes step := by
        rw [Readers.run, List.foldl_append]
        rfl
      rw [hrun] at hsize ⊢
      refine (ih fun device e he => hsize device e ?_).next regexes step hsize
      exact (Readers.published_mono _ regexes step device).mem he

theorem Readers.published_of_silent (regexes : Regexes) (steps : List (ReaderStep ι))
    {device : DeviceId} (hsilent : ∀ kind data, .emit device kind data ∉ steps) :
    (s.run size regexes steps).published device = s.published device := by
  induction steps generalizing s with
  | nil => rfl
  | cons step steps ih =>
      refine (ih fun kind data hmem => hsilent kind data (List.mem_cons_of_mem _ hmem)).trans ?_
      rcases s.next_cases size regexes step with ⟨d, kind, data, rfl⟩ | ⟨-, hsame⟩
      · refine Function.update_of_ne (fun hd => ?_) ..
        exact hsilent kind data (hd ▸ List.mem_cons_self)
      · rw [hsame]

end

variable {ι : Type*} [DecidableEq ι]

/-- In whatever order devices emit and handlers take their steps: `wait` answers with the first
matching event behind the cursor of the request, of all that were ever published; it times out only
after the deadline and when nothing up to its last look matches; and it reports a gap only if the
next event to look at has left the ring. -/
theorem waits_find_first (size : Event → ℕ) (regexes : Regexes) (epoch : String)
    (devices : List DeviceId) (status : DeviceId → DeviceStatus) (steps : List (ReaderStep ι))
    (hsize : ∀ device, ∀ e ∈ ((Readers.init epoch devices status).run size regexes
      steps).published device, size e ≤ maxEventBytes) :
    let s := (Readers.init epoch devices status).run size regexes steps
    ∀ i w result, s.readers i = .wait w (.answered result) →
      w.Searched s.store.epoch (s.published w.device) ∧
      w.Justified (s.published w.device) ((s.store.devices w.device).events.map Prod.fst) s.running
        s.now result := by
  intro s i w result hreader
  have h := ((sound_init size epoch devices status).run regexes steps hsize).readers i
  rw [hreader] at h
  exact h

/-- In whatever order devices emit and handlers take their steps: what a client of `stream` has
been sent are the events behind its cursor, each once and in order, and at the end possibly word of
a gap; then the next event has left the ring. -/
theorem streams_consecutive (size : Event → ℕ) (regexes : Regexes) (epoch : String)
    (devices : List DeviceId) (status : DeviceId → DeviceStatus) (steps : List (ReaderStep ι))
    (hsize : ∀ device, ∀ e ∈ ((Readers.init epoch devices status).run size regexes
      steps).published device, size e ≤ maxEventBytes) :
    let s := (Readers.init epoch devices status).run size regexes steps
    ∀ i t place, s.readers i = .stream t place → ∃ reached,
      t.Sent (s.published t.device) t.sent reached ∨
      place = .closed ∧ ∃ sent message, t.sent = sent ++ [.gap message] ∧
        t.Sent (s.published t.device) sent reached ∧
        Missed (s.published t.device) ((s.store.devices t.device).events.map Prod.fst) reached := by
  intro s i t place hreader
  have h := ((sound_init size epoch devices status).run regexes steps hsize).readers i
  rw [hreader] at h
  cases place with
  | send events cursor =>
      obtain ⟨reached, hsent, -⟩ := h
      exact ⟨reached, .inl hsent⟩
  | closed =>
      obtain ⟨reached, hsent | hcut⟩ := h
      · exact ⟨reached, .inl hsent⟩
      · exact ⟨reached, .inr ⟨rfl, hcut⟩⟩
  | _ => exact ⟨_, .inl h.2⟩

/-- A pattern without operators is found where it occurs. -/
def plainRegexes : Regexes where
  new pattern := .ok fun text => decide (pattern.toList <:+: text.toList)

def logOf (text : String) : Value := .object [("text", .string text)]

/-- One client waits for a text and one gets the stream, while the text is printed late. -/
def watchSteps : List (ReaderStep Bool) :=
  [.emit "dev-1" "log" (logOf "boot"), .stream false ⟨"dev-1", "1-1", 0⟩,
    .wait true ⟨"dev-1", ⟨"1-1", 0⟩, "ready", 1000⟩, .turn true, .turn true, .turn true,
    .turn false, .turn false, .turn false, .turn false, .emit "dev-1" "log" (logOf "ready"),
    .elapse 50, .turn true, .turn true, .turn true, .turn false, .turn false, .turn false,
    .turn false]

def watched : Readers Bool :=
  (Readers.init "1-1" ["dev-1"] fun _ => .availableIdle).run Event.plainSize plainRegexes watchSteps

theorem size_watched (device : DeviceId) :
    ∀ e ∈ watched.published device, e.plainSize ≤ maxEventBytes := by
  by_cases hd : device = "dev-1"
  · subst hd
    have hall : (watched.published "dev-1").all (fun e => e.plainSize ≤ maxEventBytes) = true := by
      decide +kernel
    simpa using hall
  · intro e he
    rw [watched, Readers.published_of_silent plainRegexes watchSteps] at he
    · cases he
    · intro kind data hmem
      simp [watchSteps, hd] at hmem

def isAnswered : Reader → Bool
  | .wait _ (.answered (.ok _)) => true
  | _ => false

theorem waits_find_first_watched :
    ∃ w event, watched.readers true = .wait w (.answered (.ok event)) ∧
    w.First (watched.published w.device) event := by
  have hanswered : isAnswered (watched.readers true) = true := by decide +kernel
  unfold isAnswered at hanswered
  split at hanswered
  · next w event hreader =>
    have hfirst := waits_find_first Event.plainSize plainRegexes "1-1" ["dev-1"]
      (fun _ => .availableIdle) watchSteps size_watched true w (.ok event) hreader
    exact ⟨w, event, hreader, hfirst.2⟩
  · cases hanswered

def isStreaming : Reader → Bool
  | .stream _ (.send ..) => true
  | _ => false

theorem streams_consecutive_watched : ∃ t reached place, watched.readers false = .stream t place ∧
    t.Sent (watched.published t.device) t.sent reached := by
  have hstreaming : isStreaming (watched.readers false) = true := by decide +kernel
  unfold isStreaming at hstreaming
  split at hstreaming
  · next t events cursor hreader =>
    obtain ⟨reached, hsent | ⟨hclosed, -⟩⟩ := streams_consecutive Event.plainSize plainRegexes
      "1-1" ["dev-1"] (fun _ => .availableIdle) watchSteps size_watched false t
      (.send events cursor) hreader
    · exact ⟨t, reached, _, hreader, hsent⟩
    · cases hclosed
  · cases hstreaming

end IdfRemote.EventReaders
