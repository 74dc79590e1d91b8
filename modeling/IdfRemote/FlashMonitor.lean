import IdfRemote.CaptureLoop
import IdfRemote.EventHistory

/-!
# Flash and monitor

The command waits for its flash operation while it writes the events of the device, and
then a capture begins again where the operation began, so that the raw log and the pattern
miss nothing. With JSON output the capture leaves out what the wait has printed. The server
answers every poll without a gap, and which branch of a select is taken is open.
-/
namespace IdfRemote.Monitor
open BoundedLog

/-- The variables of the wait, and what has been written. -/
structure Flash where
  operation : Operation
  cursor : Cursor
  place : Place := .top
  outcome : Option (Result (Operation × Cursor)) := none
  shown : List Display := []

/-- The writes for the events of a batch. -/
def flashWrites (jsonOutput : Bool) (events : List Event) : List Display :=
  events.map fun event => if jsonOutput then .json event else .progress event

namespace Flash

def start (submitted : Operation) : Flash where
  operation := submitted
  cursor := submitted.startCursor

def fail (f : Flash) (e : Error) : Flash := { f with outcome := some (.error e) }

/-- The top of the loop. -/
def turn (expired : Bool) (f : Flash) : Flash :=
  if expired then
    f.fail (.msg ("operation polling timed out; query operation " ++ f.operation.id ++
      " to resume"))
  else { f with place := .select }

/-- The events of an answer are written, with what comes after the last ones. -/
def write (jsonOutput : Bool) (answer : Result EventBatch) (last : List Display)
    (failure : Option (ℕ × Error)) (f : Flash) : Flash :=
  match answer with
  | .error e => f.fail e
  | .ok batch =>
      match perform (flashWrites jsonOutput batch.events ++ last) failure with
      | (displays, .error e) => { f with shown := f.shown ++ displays }.fail e
      | (displays, .ok ()) =>
          { f with shown := f.shown ++ displays, cursor := batch.cursor, place := .top }

def poll (result : Result Operation) (f : Flash) : Flash :=
  match result with
  | .error e => f.fail e
  | .ok operation => { f with operation := operation, place := .top }

def cancel (running : Bool) (f : Flash) : Flash :=
  if running then { f with place := .top }
  else f.fail (.msg ("client interrupted; operation " ++ f.operation.id ++
    " continues on the server"))

def conclude (f : Flash) : Flash :=
  if f.operation.status = .succeeded then
    { f with outcome := some (.ok (f.operation, f.cursor)) }
  else
    f.fail (.msg ("operation " ++ f.operation.id ++ " failed: " ++
      f.operation.error.getD "unknown error"))

/-- What follows the loop: the last events are taken without waiting. -/
def drain (jsonOutput : Bool) (answer : Result EventBatch) (failure : Option (ℕ × Error))
    (f : Flash) : Flash :=
  let f := f.write jsonOutput answer [.finishLine] failure
  if f.outcome.isNone then f.conclude else f

end Flash

/-- What the wait does next. The server answers a poll from a device and a cursor. -/
inductive FlashStep
  | turn (expired : Bool)
  | batch (answer : DeviceId → Cursor → Result EventBatch) (failure : Option (ℕ × Error))
  | poll (result : Result Operation)
  | cancel (running : Bool)
  | drain (answer : DeviceId → Cursor → Result EventBatch) (failure : Option (ℕ × Error))

namespace Flash

def atTop (f : Flash) : Bool := f.outcome.isNone && f.place = .top

def selects (f : Flash) : Bool := f.outcome.isNone && f.place = .select

/-- A step that is not possible now changes nothing. -/
def next (jsonOutput : Bool) (f : Flash) : FlashStep → Flash
  | .turn expired => if f.atTop && f.operation.isRunning then f.turn expired else f
  | .batch answer failure =>
      if f.selects then
        f.write jsonOutput (answer f.operation.deviceId f.cursor) [] failure
      else f
  | .poll result => if f.selects then f.poll result else f
  | .cancel running => if f.selects then f.cancel running else f
  | .drain answer failure =>
      if f.atTop && !f.operation.isRunning then
        f.drain jsonOutput (answer f.operation.deviceId f.cursor) failure
      else f

def run (jsonOutput : Bool) (f : Flash) (steps : List FlashStep) : Flash :=
  steps.foldl (next jsonOutput) f

end Flash

def Config.requested (config : Config) : Bool :=
  config.wait.isSome || config.timeout.isSome || config.rawLog

/-- The options of the capture after an operation that has printed up to a cursor. -/
def Config.afterFlash (config : Config) (progress : Cursor) : Config :=
  { config with jsonPrintedThrough := if config.jsonOutput then some progress else none }

/-- The wait and the capture that follows it, if it succeeds and a capture is asked for. -/
def flashMonitor (config : Config) (monitor : Bool) (stdin : List UInt8) (submitted : Operation)
    (flashSteps : List FlashStep) (captureSteps : List Step) : Flash × Option Capture :=
  let flash := (Flash.start submitted).run config.jsonOutput flashSteps
  match flash.outcome with
  | some (.ok (_, progress)) =>
      if monitor || config.requested then
        (flash, some ((State.start monitor stdin submitted.startCursor).run
          (config.afterFlash progress) captureSteps).capture)
      else (flash, none)
  | _ => (flash, none)

/-- A batch holds what lies between the cursor of the poll and its own. -/
structure GapFree (history : List Event) (cursor : Cursor) (batch : EventBatch) : Prop where
  epoch : batch.cursor.epoch = cursor.epoch
  reach : cursor.after ≤ batch.cursor.after ∧ batch.cursor.after ≤ history.length
  events : batch.events = between Event.seq cursor.after batch.cursor.after history

def Answers (history : List Event) (answer : Cursor → Result EventBatch) : Prop :=
  ∀ cursor batch, answer cursor = .ok batch → GapFree history cursor batch

/-- The operation keeps its device, and the polls of the device have no gap. -/
def FlashStep.Served (history : List Event) (device : DeviceId) : FlashStep → Prop
  | .batch answer _ => Answers history (answer device)
  | .drain answer _ => Answers history (answer device)
  | .poll result => ∀ operation, result = .ok operation → operation.deviceId = device
  | _ => True

def Step.Served (history : List Event) : Step → Prop
  | .batch answer _ => Answers history answer
  | _ => True

theorem between_published {published history : List Event} (hnumbered : Numbered Event.seq history)
    (hpublished : published <+: history) {n m : ℕ} (hm : m ≤ published.length) :
    between Event.seq n m published = between Event.seq n m history := by
  obtain ⟨later, rfl⟩ := hpublished
  rw [hnumbered.between_eq, hnumbered.append_left.between_eq, List.take_append_of_le_length hm]

/-- The store answers without a gap, however much of the history there is when it is asked. -/
theorem gapFree_of_eventsAfter {size : Event → ℕ} {store : Store} {device : DeviceId}
    {published history : List Event} (hring : Polling.Retains size (store.devices device) published)
    (hpublished : published <+: history) (hnumbered : Numbered Event.seq history)
    {cursor : Cursor} {batch : EventBatch}
    (hpoll : store.eventsAfter device cursor = .ok batch) : GapFree history cursor batch := by
  obtain ⟨hcursor, hle⟩ := Polling.cursor_of_eventsAfter hpoll
  have hanswer := Polling.eventsAfter_answer hring hle
  rw [← hcursor, hpoll] at hanswer
  cases hanswer with
  | batch _ hnext hevents =>
      have hafter : batch.cursor.after = published.length := by
        rw [hnext, ← hring.seq_eq]
        rfl
      refine ⟨?_, ⟨?_, ?_⟩, ?_⟩
      · rw [hnext, hcursor]
        rfl
      · rw [hafter, ← hring.seq_eq]
        exact hle
      · rw [hafter]
        exact hpublished.length_le
      · rw [hevents, between_published hnumbered hpublished hafter.le]

/-- The answers of a store, with the text that the client makes of a refusal. -/
def answerOf (report : ApiError → Error) (store : Store) (device : DeviceId) (cursor : Cursor) :
    Result EventBatch :=
  (store.eventsAfter device cursor).mapError report

theorem answers_of_retains {size : Event → ℕ} {store : Store} {device : DeviceId}
    {published history : List Event} (hring : Polling.Retains size (store.devices device) published)
    (hpublished : published <+: history) (hnumbered : Numbered Event.seq history)
    (report : ApiError → Error) : Answers history (answerOf report store device) := by
  intro cursor batch hanswer
  unfold answerOf at hanswer
  cases hpoll : store.eventsAfter device cursor with
  | error e =>
      rw [hpoll] at hanswer
      cases hanswer
  | ok served =>
      rw [hpoll] at hanswer
      cases hanswer
      exact gapFree_of_eventsAfter hring hpublished hnumbered hpoll

/-- The daemon answers without a gap at every moment of a run. -/
theorem answers_of_run (host : Host) (epoch : String)
    (runtimes : List (DeviceId × DeviceDescriptor)) (steps more : List IdfRemote.Step)
    (device : DeviceId)
    (hsize : ∀ e ∈ (System.init epoch runtimes).history host (steps ++ more) device,
      host.eventSize e ≤ maxEventBytes) (report : ApiError → Error) :
    Answers ((System.init epoch runtimes).history host (steps ++ more) device)
      (answerOf report ((System.init epoch runtimes).run host steps).store device) := by
  have hinitial : (System.init epoch runtimes).history host steps device <+:
      (System.init epoch runtimes).history host (steps ++ more) device := by
    rw [System.history_append host (.init epoch runtimes) (.init epoch runtimes)]
    exact List.prefix_append _ _
  have hall := System.retains_history host epoch runtimes (steps ++ more) device hsize
  exact answers_of_retains (System.retains_history host epoch runtimes steps device
    fun e he => hsize e (hinitial.mem he)) hinitial hall.numbered report

/-- The events among the JSON lines. -/
def printedEvents (displays : List Display) : List Event :=
  displays.filterMap fun
    | .json event => some event
    | _ => none

/-- The bytes in the raw log. -/
def loggedBytes (displays : List Display) : List UInt8 :=
  displays.flatMap fun
    | .raw data => data
    | _ => []

/-- The writes at the end of a capture. -/
def Display.Closes (display : Display) : Prop :=
  display = .finish ∨ ∃ text cursor, display = .found text cursor

/-- The bytes of an event for the raw log. -/
def Config.logged (config : Config) (event : Event) : List UInt8 :=
  if event.kind = "raw" ∧ config.rawLog then (config.rawBytes event).toOption.getD [] else []

/-- All writes for events that come from one epoch. -/
def Config.writes (config : Config) (epoch : String) (events : List Event) : List Display :=
  events.flatMap fun event =>
    (config.rawWrites event).toOption.getD [] ++ config.statusWrites epoch event

section
variable {config : Config} {epoch : String}

theorem printedEvents_append (displays displays' : List Display) :
    printedEvents (displays ++ displays') = printedEvents displays ++ printedEvents displays' :=
  List.filterMap_append

theorem loggedBytes_append (displays displays' : List Display) :
    loggedBytes (displays ++ displays') = loggedBytes displays ++ loggedBytes displays' :=
  List.flatMap_append

theorem printedEvents_closing {tail : List Display} (h : ∀ d ∈ tail, d.Closes) :
    printedEvents tail = [] := by
  refine List.filterMap_eq_nil_iff.mpr fun d hd => ?_
  obtain rfl | ⟨text, cursor, rfl⟩ := h d hd <;> rfl

theorem loggedBytes_closing {tail : List Display} (h : ∀ d ∈ tail, d.Closes) :
    loggedBytes tail = [] := by
  refine List.flatMap_eq_nil_iff.mpr fun d hd => ?_
  obtain rfl | ⟨text, cursor, rfl⟩ := h d hd <;> rfl

@[simp] theorem writes_append (events events' : List Event) :
    config.writes epoch (events ++ events') =
      config.writes epoch events ++ config.writes epoch events' :=
  List.flatMap_append

theorem writes_mono {events events' : List Event} (h : events <+: events') :
    config.writes epoch events <+: config.writes epoch events' := h.flatMap _

theorem printedEvents_writes (hjson : config.jsonOutput = true) (events : List Event) :
    printedEvents (config.writes epoch events) = events.filter (config.unprinted epoch) := by
  induction events with
  | nil => rfl
  | cons event events ih =>
      have hraw : printedEvents ((config.rawWrites event).toOption.getD []) = [] := by
        unfold Config.rawWrites
        split
        · split
          · rfl
          · cases config.rawLog <;> rfl
        · rfl
      have hcons : config.writes epoch (event :: events) =
          (config.rawWrites event).toOption.getD [] ++ config.statusWrites epoch event ++
            config.writes epoch events := List.flatMap_cons
      rw [hcons, printedEvents_append, printedEvents_append, ih, hraw, List.filter_cons,
        Config.statusWrites, if_pos hjson]
      split_ifs <;> rfl

theorem loggedBytes_writes (events : List Event) :
    loggedBytes (config.writes epoch events) = events.flatMap config.logged := by
  induction events with
  | nil => rfl
  | cons event events ih =>
      have hstatus : loggedBytes (config.statusWrites epoch event) = [] := by
        unfold Config.statusWrites
        split_ifs <;> rfl
      have hraw : loggedBytes ((config.rawWrites event).toOption.getD []) =
          config.logged event := by
        unfold Config.rawWrites Config.logged
        by_cases hkind : event.kind = "raw"
        · rw [if_pos hkind]
          cases config.rawBytes event with
          | error e => cases config.rawLog <;> simp [hkind, loggedBytes, Except.toOption]
          | ok data =>
              cases config.rawLog <;> cases config.jsonOutput <;>
                simp [hkind, loggedBytes, Except.toOption]
        · rw [if_neg hkind, if_neg fun h => hkind h.1]
          rfl
      have hcons : config.writes epoch (event :: events) =
          (config.rawWrites event).toOption.getD [] ++ config.statusWrites epoch event ++
            config.writes epoch events := List.flatMap_cons
      rw [hcons, loggedBytes_append, loggedBytes_append, ih, hraw, hstatus, List.append_nil,
        List.flatMap_cons]

theorem perform_take (displays : List Display) (failure : Option (ℕ × Error)) :
    ∃ n, (perform displays failure).1 = displays.take n := by
  unfold perform
  split
  · next n e =>
    split_ifs
    · exact ⟨n, rfl⟩
    · exact ⟨displays.length, (List.take_length).symm⟩
  · exact ⟨displays.length, (List.take_length).symm⟩

theorem perform_ok {displays displays' : List Display} {failure : Option (ℕ × Error)}
    (h : perform displays failure = (displays', .ok ())) : displays' = displays := by
  unfold perform at h
  split at h
  · split_ifs at h
    · cases h
    · exact (Prod.mk.inj h).1.symm
  · exact (Prod.mk.inj h).1.symm

/-- The loop over a batch writes for its first events, and for all of them when they can be
read. -/
theorem batchWrites_spec (config : Config) (epoch : String) (events : List Event) :
    (config.batchWrites epoch events).1 <+: config.writes epoch events ∧
      ((config.batchWrites epoch events).2 = .ok () →
        (config.batchWrites epoch events).1 = config.writes epoch events ∧
          ∀ e ∈ events, ∃ raw, config.rawWrites e = .ok raw) := by
  induction events with
  | nil => exact ⟨List.prefix_refl _, fun _ => ⟨rfl, by simp⟩⟩
  | cons event events ih =>
      have hcons : config.writes epoch (event :: events) =
          (config.rawWrites event).toOption.getD [] ++ config.statusWrites epoch event ++
            config.writes epoch events := List.flatMap_cons
      rw [hcons, Config.batchWrites]
      cases hraw : config.rawWrites event with
      | error e => exact ⟨List.nil_prefix, fun h => by cases h⟩
      | ok raw =>
          refine ⟨List.prefix_append_right_inj _ |>.mpr ih.1, fun h => ?_⟩
          obtain ⟨hall, hreadable⟩ := ih.2 h
          refine ⟨by rw [← hall]; rfl, ?_⟩
          intro e he
          obtain rfl | he := List.mem_cons.mp he
          · exact ⟨raw, hraw⟩
          · exact hreadable e he

end

/-- What a capture has handled and written since its start. -/
structure Watches (config : Config) (history : List Event) (start : Cursor) (c : Capture) :
    Prop where
  epoch : c.cursor.epoch = start.epoch
  reach : start.after ≤ c.cursor.after ∧ c.cursor.after ≤ history.length
  handled : c.handled = between Event.seq start.after c.cursor.after history
  readable : ∀ e ∈ c.handled, ∃ raw, config.rawWrites e = .ok raw
  shown : ∃ front tail, c.shown = front ++ tail ∧ (∀ d ∈ tail, d.Closes) ∧
    config.writes start.epoch c.handled <+: front ∧
      front <+: config.writes start.epoch (between Event.seq start.after history.length history)
  running : c.outcome = none →
    c.shown = config.writes start.epoch c.handled ∧ ∀ e ∈ c.handled, config.matchOf e = none
  found : c.outcome = some (.ok .found) → ∃ e ∈ c.handled, (config.matchOf e).isSome

/-- A part of the loop that handles no event. -/
structure Quiet (c c' : Capture) : Prop where
  cursor : c'.cursor = c.cursor
  handled : c'.handled = c.handled
  found : c'.outcome ≠ some (.ok .found)
  shown : ∃ tail, c'.shown = c.shown ++ tail ∧ (∀ d ∈ tail, d.Closes) ∧
    (c'.outcome = none → c.outcome = none ∧ tail = [])

namespace Quiet
variable {c c' c'' : Capture}

theorem trans (h : Quiet c c') (h' : Quiet c' c'') : Quiet c c'' where
  cursor := h'.cursor.trans h.cursor
  handled := h'.handled.trans h.handled
  found := h'.found
  shown := by
    obtain ⟨tail, hshown, hcloses, hnone⟩ := h.shown
    obtain ⟨tail', hshown', hcloses', hnone'⟩ := h'.shown
    refine ⟨tail ++ tail', ?_, ?_, fun hrunning => ?_⟩
    · rw [hshown', hshown, List.append_assoc]
    · intro d hd
      exact (List.mem_append.mp hd).elim (hcloses d) (hcloses' d)
    · obtain ⟨hmiddle, rfl⟩ := hnone' hrunning
      obtain ⟨hfirst, rfl⟩ := hnone hmiddle
      exact ⟨hfirst, rfl⟩

theorem of_running (hrunning : c.outcome = none) (hcursor : c'.cursor = c.cursor)
    (hhandled : c'.handled = c.handled) (hshown : c'.shown = c.shown)
    (hfound : c'.outcome ≠ some (.ok .found)) : Quiet c c' where
  cursor := hcursor
  handled := hhandled
  found := hfound
  shown := ⟨[], by rw [hshown, List.append_nil], by simp, fun _ => ⟨hrunning, rfl⟩⟩

theorem fail (hrunning : c.outcome = none) (e : Error) : Quiet c (c.fail e) :=
  of_running hrunning rfl rfl rfl (by simp [Capture.fail])

theorem finish (c : Capture) {ending : Ending} (hending : ending ≠ .found)
    (failure : Option (ℕ × Error)) : Quiet c (c.finish ending failure) := by
  obtain ⟨n, htake⟩ := perform_take [.finish] failure
  have hcloses : ∀ d ∈ (perform [.finish] failure).1, d.Closes := by
    rw [htake]
    intro d hd
    exact .inl (List.mem_singleton.mp (List.mem_of_mem_take hd))
  unfold Capture.finish
  generalize perform [.finish] failure = performed at hcloses
  obtain ⟨displays, _ | _⟩ := performed
  · exact ⟨rfl, rfl, by simp, displays, rfl, hcloses, by simp⟩
  · exact ⟨rfl, rfl, by simpa using hending, displays, rfl, hcloses, by simp⟩

theorem turn (config : Config) (running : Bool) (elapsed : ℕ) (failure : Option (ℕ × Error))
    (hrunning : c.outcome = none) : Quiet c (c.turn config running elapsed failure) := by
  unfold Capture.turn
  split
  · exact fail hrunning _
  · have hstarted : Quiet c c.startWrite ∧ c.startWrite.outcome = none := by
      unfold Capture.startWrite
      split_ifs
      · exact ⟨of_running hrunning rfl rfl rfl (by simp [hrunning]), hrunning⟩
      · exact ⟨of_running hrunning rfl rfl rfl (by simp [hrunning]), hrunning⟩
    refine hstarted.1.trans ?_
    have hnone := hstarted.2
    generalize c.startWrite = c₁ at hnone ⊢
    dsimp only
    split_ifs
    · exact finish c₁ (by simp) failure
    · exact fail hnone _
    · exact finish c₁ (by simp) failure
    · exact of_running hnone rfl rfl rfl (by simp [hnone])

theorem post (hrunning : c.outcome = none) : Quiet c c.post := by
  unfold Capture.post
  split <;> exact of_running hrunning rfl rfl rfl (by simp [hrunning])

theorem written (hrunning : c.outcome = none) (result : Result Unit) :
    Quiet c (c.written result) := by
  unfold Capture.written
  split
  · exact of_running hrunning rfl rfl rfl (by simp [hrunning])
  · exact fail hrunning _
  · exact of_running hrunning rfl rfl rfl (by simp [hrunning])

theorem receive {s : State} (hrunning : s.capture.outcome = none) :
    Quiet s.capture s.receive.capture := by
  unfold State.receive
  split
  · next message queue hqueue =>
    cases message with
    | bytes data => exact of_running hrunning rfl rfl rfl (by simp [Capture.receive, hrunning])
    | exit => exact of_running hrunning rfl rfl rfl (by simp [Capture.receive, hrunning])
    | error message => exact fail hrunning _
  · split
    · exact of_running hrunning rfl rfl rfl (by simp [State.withCapture, hrunning])
    · exact of_running hrunning rfl rfl rfl (by simp [hrunning])

end Quiet

section
variable {config : Config} {history : List Event} {start : Cursor} {c c' : Capture}

theorem Watches.quiet (h : Watches config history start c) (hrunning : c.outcome = none)
    (hquiet : Quiet c c') : Watches config history start c' := by
  obtain ⟨hshown, hmatch⟩ := h.running hrunning
  obtain ⟨tail, htail, hcloses, hnone⟩ := hquiet.shown
  obtain ⟨front, rest, hfront, -, hall, hbound⟩ := h.shown
  constructor
  · rw [hquiet.cursor]
    exact h.epoch
  · rw [hquiet.cursor]
    exact h.reach
  · rw [hquiet.handled, hquiet.cursor]
    exact h.handled
  · rw [hquiet.handled]
    exact h.readable
  · rw [hquiet.handled]
    refine ⟨config.writes start.epoch c.handled, tail, ?_, hcloses, List.prefix_refl _,
      hall.trans hbound⟩
    rw [htail, hshown]
  · intro hnext
    obtain ⟨-, rfl⟩ := hnone hnext
    rw [hquiet.handled, htail, List.append_nil]
    exact ⟨hshown, hmatch⟩
  · exact fun hfound => absurd hfound hquiet.found

theorem between_initial (hnumbered : Numbered Event.seq history) {n m : ℕ}
    (hn : n ≤ m) (hm : m ≤ history.length) :
    between Event.seq n m history <+: between Event.seq n history.length history :=
  ⟨_, hnumbered.between_append hn hm le_rfl⟩

theorem Watches.breaks (h : Watches config history start c) {shown front tail : List Display}
    (hshown : shown = front ++ tail) (hcloses : ∀ d ∈ tail, d.Closes)
    (hall : config.writes start.epoch c.handled <+: front)
    (hbound : front <+:
      config.writes start.epoch (between Event.seq start.after history.length history))
    (e : Error) : Watches config history start ({ c with shown := shown }.fail e) where
  epoch := h.epoch
  reach := h.reach
  handled := h.handled
  readable := h.readable
  shown := ⟨front, tail, hshown, hcloses, hall, hbound⟩
  running hnone := by cases hnone
  found hfound := by cases hfound

theorem matched_eq_none {events : List Event} :
    config.matched events = none ↔ ∀ e ∈ events, config.matchOf e = none := by
  rw [Config.matched, List.getLast?_eq_none_iff, List.filterMap_eq_nil_iff]

theorem matchOf_of_matched {events : List Event} {text : String}
    (h : config.matched events = some text) : ∃ e ∈ events, config.matchOf e = some text :=
  List.mem_filterMap.mp (List.mem_of_getLast? h)

section
variable {batch : EventBatch} (h : Watches config history start c) (hrunning : c.outcome = none)
  (hnumbered : Numbered Event.seq history) (hgap : GapFree history c.cursor batch)
include h hnumbered hgap

theorem Watches.handled_append :
    c.handled ++ batch.events = between Event.seq start.after batch.cursor.after history := by
  rw [h.handled, hgap.events]
  exact hnumbered.between_append h.reach.1 hgap.reach.1 hgap.reach.2

include hrunning

theorem Watches.part {d : List Display} (hd : d <+: config.writes start.epoch batch.events) :
    config.writes start.epoch c.handled <+: c.shown ++ d ∧ c.shown ++ d <+:
      config.writes start.epoch (between Event.seq start.after history.length history) := by
  have hbound : config.writes start.epoch (c.handled ++ batch.events) <+:
      config.writes start.epoch (between Event.seq start.after history.length history) := by
    rw [h.handled_append hnumbered hgap]
    exact writes_mono (between_initial hnumbered (h.reach.1.trans hgap.reach.1) hgap.reach.2)
  rw [writes_append] at hbound
  rw [(h.running hrunning).1]
  exact ⟨List.prefix_append _ _, ((List.prefix_append_right_inj _).mpr hd).trans hbound⟩

/-- The loop over a batch comes to its end, and the last match counts. -/
theorem Watches.advance (hreadable : ∀ e ∈ batch.events, ∃ raw, config.rawWrites e = .ok raw)
    {last : List Display} (hcloses : ∀ d ∈ last, d.Closes)
    (hlast : config.matched batch.events = none → last = []) :
    Watches config history start { c with
      shown := c.shown ++ (config.writes start.epoch batch.events ++ last)
      handled := c.handled ++ batch.events
      cursor := batch.cursor
      place := .top
      outcome := (config.matched batch.events).map fun _ => .ok .found } where
  epoch := hgap.epoch.trans h.epoch
  reach := ⟨h.reach.1.trans hgap.reach.1, hgap.reach.2⟩
  handled := h.handled_append hnumbered hgap
  readable e he := (List.mem_append.mp he).elim (h.readable e) (hreadable e)
  shown := by
    obtain ⟨-, hwithin⟩ := h.part hrunning hnumbered hgap (List.prefix_refl _)
    refine ⟨_, last, (List.append_assoc ..).symm, hcloses, ?_, hwithin⟩
    rw [writes_append, (h.running hrunning).1]
  running hnone := by
    have hmatched : config.matched batch.events = none := by simpa using hnone
    obtain ⟨hshown, hmatch⟩ := h.running hrunning
    refine ⟨?_, fun e he => (List.mem_append.mp he).elim (hmatch e)
      (matched_eq_none.mp hmatched e)⟩
    rw [hlast hmatched, List.append_nil, writes_append, hshown]
  found hfound := by
    obtain ⟨text, hmatched, -⟩ := Option.map_eq_some_iff.mp hfound
    obtain ⟨e, he, htext⟩ := matchOf_of_matched hmatched
    exact ⟨e, List.mem_append_right _ he, by rw [htext]; rfl⟩

end

/-- A batch is handled, or the loop over it stops inside and the capture fails. -/
theorem Watches.batch (h : Watches config history start c) (hrunning : c.outcome = none)
    (hnumbered : Numbered Event.seq history) {answer : Result EventBatch}
    (hanswer : ∀ batch, answer = .ok batch → GapFree history c.cursor batch)
    (failure : Option (ℕ × Error)) :
    Watches config history start (c.batch config answer failure) := by
  cases answer with
  | error e => exact h.quiet hrunning (.fail hrunning e)
  | ok batch =>
      have hgap := hanswer batch rfl
      have hepoch : batch.cursor.epoch = start.epoch := hgap.epoch.trans h.epoch
      obtain ⟨hinitial, hok⟩ := batchWrites_spec config start.epoch batch.events
      unfold Capture.batch
      simp only [hepoch]
      generalize config.batchWrites start.epoch batch.events = loop at hinitial hok
      obtain ⟨displays, e | ⟨⟩⟩ := loop
      · obtain ⟨n, htake⟩ := perform_take displays failure
        obtain ⟨hall, hwithin⟩ :=
          h.part hrunning hnumbered hgap ((List.take_prefix n displays).trans hinitial)
        dsimp only
        generalize perform displays failure = performed at htake ⊢
        obtain ⟨written, e' | ⟨⟩⟩ := performed <;>
          obtain rfl : written = displays.take n := htake <;>
          exact h.breaks (List.append_nil _).symm (List.forall_mem_nil _) hall hwithin _
      · obtain ⟨rfl, hreadable⟩ := hok rfl
        dsimp only
        generalize hlast : (config.matched batch.events).toList.flatMap
          (fun text => [Display.found text batch.cursor, .finish]) = last
        have hcloses : ∀ d ∈ last, d.Closes := by
          rw [← hlast]
          intro d hd
          obtain ⟨text, -, hd⟩ := List.mem_flatMap.mp hd
          rw [List.mem_pair] at hd
          exact hd.elim (fun hd => .inr ⟨_, _, hd⟩) .inl
        cases hperform : perform (config.writes start.epoch batch.events ++ last) failure with
        | mk written result =>
        cases result with
        | error e =>
            obtain ⟨n, htake⟩ :=
              perform_take (config.writes start.epoch batch.events ++ last) failure
            rw [hperform, List.take_append] at htake
            obtain ⟨hall, hwithin⟩ := h.part hrunning hnumbered hgap (List.take_prefix n _)
            have hwritten := (congrArg (c.shown ++ ·) htake).trans (List.append_assoc ..).symm
            exact h.breaks hwritten (fun d hd => hcloses d (List.mem_of_mem_take hd)) hall hwithin e
        | ok done =>
            obtain rfl := perform_ok hperform
            refine h.advance hrunning hnumbered hgap hreadable hcloses fun hmatched => ?_
            rw [← hlast, hmatched]
            rfl

/-- Whatever branch is taken, no event is missed. -/
theorem Watches.next {s : State} (h : Watches config history start s.capture)
    (hnumbered : Numbered Event.seq history) {step : Step} (hserved : step.Served history) :
    Watches config history start (s.next config step).capture := by
  cases step with
  | read n =>
      rw [State.next]
      split_ifs <;> exact h
  | readFails message =>
      rw [State.next]
      split_ifs <;> exact h
  | halt =>
      rw [State.next]
      split_ifs <;> exact h
  | send => exact h
  | turn running elapsed failure =>
      rw [State.next]
      split_ifs with hturn
      · rw [Bool.and_eq_true, Option.isNone_iff_eq_none] at hturn
        exact h.quiet hturn.1 (.turn config running elapsed failure hturn.1)
      · exact h
  | post =>
      rw [State.next]
      split_ifs with hselects
      · have hrunning := State.outcome_of_selects hselects
        exact h.quiet hrunning (.post hrunning)
      · exact h
  | receive =>
      rw [State.next]
      split_ifs with hselects
      · rw [Bool.and_eq_true] at hselects
        have hrunning := State.outcome_of_selects hselects.1
        exact h.quiet hrunning (.receive hrunning)
      · exact h
  | written result =>
      rw [State.next]
      split_ifs with hselects
      · have hrunning := State.outcome_of_selects hselects
        exact h.quiet hrunning (.written hrunning result)
      · exact h
  | batch answer failure =>
      rw [State.next]
      split_ifs with hselects
      · exact h.batch (State.outcome_of_selects hselects) hnumbered (hserved _) failure
      · exact h
  | tick =>
      rw [State.next]
      split_ifs with hselects
      · have hrunning := State.outcome_of_selects hselects
        exact h.quiet hrunning
          (.of_running hrunning rfl rfl rfl (by simp [State.withCapture, hrunning]))
      · exact h

theorem Watches.run (config : Config) (hnumbered : Numbered Event.seq history)
    (hstart : start.after ≤ history.length) (interactive : Bool) (stdin : List UInt8)
    {steps : List Step} (hserved : ∀ step ∈ steps, step.Served history) :
    Watches config history start
      ((State.start interactive stdin start).run config steps).capture := by
  refine List.foldlRecOn (motive := fun s : State => Watches config history start s.capture) steps
    _ ?_ fun s h step hstep => h.next hnumbered (hserved step hstep)
  refine ⟨rfl, ⟨le_rfl, hstart⟩, (between_self _).symm, ?_, ⟨[], [], rfl, ?_, ?_, ?_⟩, ?_, ?_⟩
  · simp [State.start]
  · simp
  · exact List.nil_prefix
  · exact List.nil_prefix
  · exact fun _ => ⟨rfl, by simp [State.start]⟩
  · intro hfound
    cases hfound

end

/-- What the wait has printed since the operation began. -/
structure Flash.Prints (history : List Event) (start : Cursor) (device : DeviceId) (f : Flash) :
    Prop where
  device : f.operation.deviceId = device
  epoch : f.cursor.epoch = start.epoch
  reach : start.after ≤ f.cursor.after ∧ f.cursor.after ≤ history.length
  bound : printedEvents f.shown <+: between Event.seq start.after history.length history
  running : f.outcome = none →
    printedEvents f.shown = between Event.seq start.after f.cursor.after history
  done : ∀ operation cursor, f.outcome = some (.ok (operation, cursor)) → cursor = f.cursor ∧
    printedEvents f.shown = between Event.seq start.after f.cursor.after history

theorem printedEvents_flashWrites (events : List Event) :
    printedEvents (flashWrites true events) = events := by
  rw [printedEvents, flashWrites, List.filterMap_map]
  exact List.filterMap_some

namespace Flash.Prints
variable {history : List Event} {start : Cursor} {device : DeviceId} {f f' : Flash}

theorem still (h : Prints history start device f) (hrunning : f.outcome = none)
    (hdevice : f'.operation.deviceId = device) (hcursor : f'.cursor = f.cursor)
    (hshown : f'.shown = f.shown) (hdone : ∀ done, f'.outcome ≠ some (.ok done)) :
    Prints history start device f' where
  device := hdevice
  epoch := by
    rw [hcursor]
    exact h.epoch
  reach := by
    rw [hcursor]
    exact h.reach
  bound := by
    rw [hshown]
    exact h.bound
  running _ := by
    rw [hshown, hcursor]
    exact h.running hrunning
  done operation cursor hout := absurd hout (hdone _)

theorem fail (h : Prints history start device f) (hrunning : f.outcome = none) (e : Error) :
    Prints history start device (f.fail e) :=
  h.still hrunning h.device rfl rfl (by simp [Flash.fail])

theorem write (h : Prints history start device f) (hrunning : f.outcome = none)
    (hnumbered : Numbered Event.seq history) {answer : Result EventBatch}
    (hanswer : ∀ batch, answer = .ok batch → GapFree history f.cursor batch)
    {last : List Display} (hlast : printedEvents last = []) (failure : Option (ℕ × Error)) :
    Prints history start device (f.write true answer last failure) ∧
      ∀ done, (f.write true answer last failure).outcome ≠ some (.ok done) := by
  cases answer with
  | error e => exact ⟨h.fail hrunning e, by simp [Flash.write, Flash.fail]⟩
  | ok batch =>
      have hgap := hanswer batch rfl
      have hprinted : printedEvents f.shown ++ batch.events =
          between Event.seq start.after batch.cursor.after history := by
        rw [h.running hrunning, hgap.events]
        exact hnumbered.between_append h.reach.1 hgap.reach.1 hgap.reach.2
      have hreach := h.reach.1.trans hgap.reach.1
      have hbound := between_initial hnumbered hreach hgap.reach.2
      rw [← hprinted] at hbound
      have hall : printedEvents (flashWrites true batch.events ++ last) = batch.events := by
        rw [printedEvents_append, printedEvents_flashWrites, hlast, List.append_nil]
      unfold Flash.write
      dsimp only
      cases hperform : perform (flashWrites true batch.events ++ last) failure with
      | mk displays result =>
      cases result with
      | error e =>
          obtain ⟨n, htake⟩ := perform_take (flashWrites true batch.events ++ last) failure
          rw [hperform] at htake
          have hsome : printedEvents displays <+: batch.events := by
            rw [← hall, show displays = _ from htake]
            exact (List.take_prefix n _).filterMap _
          refine ⟨⟨h.device, h.epoch, h.reach, ?_, ?_, ?_⟩, by simp [Flash.fail]⟩
          · change printedEvents (f.shown ++ displays) <+: _
            rw [printedEvents_append]
            exact ((List.prefix_append_right_inj _).mpr hsome).trans hbound
          · intro hnone
            cases hnone
          · intro operation cursor hout
            cases hout
      | ok done =>
          obtain rfl := perform_ok hperform
          have hshown : printedEvents (f.shown ++ (flashWrites true batch.events ++ last)) =
              between Event.seq start.after batch.cursor.after history := by
            rw [printedEvents_append, hall, hprinted]
          refine ⟨⟨h.device, hgap.epoch.trans h.epoch, ⟨hreach, hgap.reach.2⟩, ?_, ?_, ?_⟩, ?_⟩
          · change printedEvents (f.shown ++ _) <+: _
            rw [hshown, ← hprinted]
            exact hbound
          · exact fun _ => hshown
          · intro operation cursor hout
            change f.outcome = _ at hout
            rw [hrunning] at hout
            cases hout
          · intro result hout
            change f.outcome = _ at hout
            rw [hrunning] at hout
            cases hout

theorem conclude (h : Prints history start device f) (hrunning : f.outcome = none) :
    Prints history start device f.conclude := by
  unfold Flash.conclude
  split_ifs
  · refine ⟨h.device, h.epoch, h.reach, h.bound, ?_, ?_⟩
    · intro hnone
      cases hnone
    · rintro operation cursor ⟨⟩
      exact ⟨rfl, h.running hrunning⟩
  · exact h.fail hrunning _

theorem drain (h : Prints history start device f) (hrunning : f.outcome = none)
    (hnumbered : Numbered Event.seq history) {answer : Result EventBatch}
    (hanswer : ∀ batch, answer = .ok batch → GapFree history f.cursor batch)
    (failure : Option (ℕ × Error)) :
    Prints history start device (f.drain true answer failure) := by
  have hlast : printedEvents [.finishLine] = [] := rfl
  obtain ⟨hwrite, -⟩ := h.write hrunning hnumbered hanswer hlast failure
  unfold Flash.drain
  dsimp only
  split_ifs with hnone
  · exact hwrite.conclude (Option.isNone_iff_eq_none.mp hnone)
  · exact hwrite

theorem next (h : Prints history start device f) (hnumbered : Numbered Event.seq history)
    {step : FlashStep} (hserved : step.Served history device) :
    Prints history start device (f.next true step) := by
  cases step with
  | turn expired =>
      rw [Flash.next]
      split_ifs with hturn
      · simp only [Flash.atTop, Bool.and_eq_true, Option.isNone_iff_eq_none] at hturn
        unfold Flash.turn
        split_ifs
        · exact h.fail hturn.1.1 _
        · exact h.still hturn.1.1 h.device rfl rfl (by simp [hturn.1.1])
      · exact h
  | batch answer failure =>
      rw [Flash.next]
      split_ifs with hselects
      · simp only [Flash.selects, Bool.and_eq_true, Option.isNone_iff_eq_none] at hselects
        rw [h.device]
        exact (h.write hselects.1 hnumbered (hserved _) rfl failure).1
      · exact h
  | poll result =>
      rw [Flash.next]
      split_ifs with hselects
      · simp only [Flash.selects, Bool.and_eq_true, Option.isNone_iff_eq_none] at hselects
        cases result with
        | error e => exact h.fail hselects.1 e
        | ok operation =>
            exact h.still hselects.1 (hserved operation rfl) rfl rfl
              (by simp [Flash.poll, hselects.1])
      · exact h
  | cancel running =>
      rw [Flash.next]
      split_ifs with hselects
      · simp only [Flash.selects, Bool.and_eq_true, Option.isNone_iff_eq_none] at hselects
        unfold Flash.cancel
        split_ifs
        · exact h.still hselects.1 h.device rfl rfl (by simp [hselects.1])
        · exact h.fail hselects.1 _
      · exact h
  | drain answer failure =>
      rw [Flash.next]
      split_ifs with hdrain
      · simp only [Flash.atTop, Bool.and_eq_true, Option.isNone_iff_eq_none] at hdrain
        rw [h.device]
        exact h.drain hdrain.1.1 hnumbered (hserved _) failure
      · exact h

theorem run (hnumbered : Numbered Event.seq history) (submitted : Operation)
    (hstart : submitted.startCursor.after ≤ history.length) {steps : List FlashStep}
    (hserved : ∀ step ∈ steps, step.Served history submitted.deviceId) :
    Prints history submitted.startCursor submitted.deviceId
      ((Flash.start submitted).run true steps) := by
  refine List.foldlRecOn steps _ ?_ fun f h step hstep => h.next hnumbered (hserved step hstep)
  refine ⟨rfl, rfl, ⟨le_rfl, hstart⟩, List.nil_prefix, fun _ => (between_self _).symm, ?_⟩
  intro operation cursor hout
  cases hout

end Flash.Prints

/-- The events that the wait and the capture print. -/
def printedBy (run : Flash × Option Capture) : List Event :=
  printedEvents (run.1.shown ++ run.2.elim [] Capture.shown)

/-- What a flash operation with a capture behind it has printed, and what the capture has
seen. -/
structure PrintedOnce (config : Config) (history : List Event) (start : Cursor)
    (run : Flash × Option Capture) : Prop where
  printed : printedBy run <+: between Event.seq start.after history.length history
  numbers : (printedBy run).map Event.seq = List.range' (start.after + 1) (printedBy run).length
  complete : ∀ c ∈ run.2, between Event.seq start.after c.cursor.after history <+: printedBy run
  handled : ∀ c ∈ run.2, c.handled = between Event.seq start.after c.cursor.after history
  logged : ∀ c ∈ run.2, c.handled.flatMap config.logged <+: loggedBytes c.shown ∧
    loggedBytes c.shown <+:
      (between Event.seq start.after history.length history).flatMap config.logged
  running : ∀ c ∈ run.2, c.outcome = none →
    loggedBytes c.shown = c.handled.flatMap config.logged ∧
      ∀ e ∈ c.handled, config.matchOf e = none
  found : ∀ c ∈ run.2, c.outcome = some (.ok .found) →
    ∃ e ∈ c.handled, (config.matchOf e).isSome

section
variable {config : Config} {history : List Event}

theorem seq_initial (hnumbered : Numbered Event.seq history) {n : ℕ} {events : List Event}
    (h : events <+: between Event.seq n history.length history) :
    events.map Event.seq = List.range' (n + 1) events.length := by
  have hall : (between Event.seq n history.length history).map Event.seq =
      List.range' (n + 1) (history.length - n) := by
    rw [hnumbered.between_eq, List.take_length, List.map_drop, hnumbered, List.drop_range',
      Nat.mul_one, Nat.add_comm]
  have hcount : (between Event.seq n history.length history).length = history.length - n := by
    simpa using congrArg List.length hall
  have hmap := List.prefix_iff_eq_take.mp (h.map Event.seq)
  rwa [hall, List.length_map, List.take_range'_of_length_ge (hcount ▸ h.length_le)] at hmap

theorem filter_unprinted (hjson : config.jsonOutput = true) {progress : Cursor} {epoch : String}
    (hepoch : progress.epoch = epoch) {n : ℕ} (hn : n ≤ progress.after) (m : ℕ) :
    (between Event.seq n m history).filter ((config.afterFlash progress).unprinted epoch) =
      between Event.seq progress.after m history := by
  rw [between, between, List.filter_filter]
  refine List.filter_congr fun e _ => ?_
  simp only [Config.unprinted, Config.afterFlash, hjson, if_true, Option.all_some, hepoch,
    ne_eq, not_true_eq_false, decide_false, Bool.false_or]
  rw [← Bool.decide_and, decide_eq_decide]
  omega

/-- The capture prints what follows the events of the wait. -/
theorem Watches.printed {start progress : Cursor} {c : Capture}
    (h : Watches (config.afterFlash progress) history start c) (hjson : config.jsonOutput = true)
    (hepoch : progress.epoch = start.epoch) (hprogress : start.after ≤ progress.after) :
    between Event.seq progress.after c.cursor.after history <+: printedEvents c.shown ∧
      printedEvents c.shown <+: between Event.seq progress.after history.length history := by
  obtain ⟨front, tail, hshown, hcloses, hall, hbound⟩ := h.shown
  have hafter : (config.afterFlash progress).jsonOutput = true := hjson
  have hwrites : ∀ m, printedEvents ((config.afterFlash progress).writes start.epoch
      (between Event.seq start.after m history)) =
        between Event.seq progress.after m history := fun m =>
    (printedEvents_writes hafter _).trans (filter_unprinted hjson hepoch hprogress m)
  rw [hshown, printedEvents_append, printedEvents_closing hcloses, List.append_nil]
  refine ⟨?_, ?_⟩
  · rw [h.handled] at hall
    rw [← hwrites]
    exact hall.filterMap _
  · rw [← hwrites]
    exact hbound.filterMap _

theorem Watches.logged {start : Cursor} {c : Capture} (h : Watches config history start c) :
    c.handled.flatMap config.logged <+: loggedBytes c.shown ∧ loggedBytes c.shown <+:
      (between Event.seq start.after history.length history).flatMap config.logged := by
  obtain ⟨front, tail, hshown, hcloses, hall, hbound⟩ := h.shown
  have hwrites : ∀ events, loggedBytes (config.writes start.epoch events) =
      events.flatMap config.logged := loggedBytes_writes
  rw [hshown, loggedBytes_append, loggedBytes_closing hcloses, List.append_nil, ← hwrites,
    ← hwrites]
  exact ⟨hall.flatMap _, hbound.flatMap _⟩

theorem Watches.logged_running {start : Cursor} {c : Capture}
    (h : Watches config history start c) (hrunning : c.outcome = none) :
    loggedBytes c.shown = c.handled.flatMap config.logged := by
  rw [(h.running hrunning).1, loggedBytes_writes]

end

/-- With JSON output the events after the start of the operation are printed once and in
order, by the wait and then by the capture, wherever the operation ends between two polls.
The raw log and the pattern of the capture get all of them. -/
theorem flash_prints_once (config : Config) (hjson : config.jsonOutput = true) (monitor : Bool)
    (stdin : List UInt8) (submitted : Operation) (history : List Event)
    (hnumbered : Numbered Event.seq history)
    (hstart : submitted.startCursor.after ≤ history.length)
    (flashSteps : List FlashStep) (captureSteps : List Step)
    (hflash : ∀ step ∈ flashSteps, step.Served history submitted.deviceId)
    (hcapture : ∀ step ∈ captureSteps, step.Served history) :
    PrintedOnce config history submitted.startCursor
      (flashMonitor config monitor stdin submitted flashSteps captureSteps) := by
  have hwait := Flash.Prints.run hnumbered submitted hstart hflash
  have alone : PrintedOnce config history submitted.startCursor
      ((Flash.start submitted).run true flashSteps, none) := by
    have hprinted : printedBy ((Flash.start submitted).run true flashSteps, none) =
        printedEvents ((Flash.start submitted).run true flashSteps).shown := by
      rw [printedBy, Option.elim_none, List.append_nil]
    refine ⟨?_, ?_, by simp, by simp, by simp, by simp, by simp⟩ <;> rw [hprinted]
    · exact hwait.bound
    · exact seq_initial hnumbered hwait.bound
  unfold flashMonitor
  rw [hjson]
  dsimp only
  split
  · next operation progress hdone =>
    obtain ⟨rfl, hfirst⟩ := hwait.done operation progress hdone
    split_ifs
    · generalize (Flash.start submitted).run true flashSteps = f at hwait hfirst
      have hwatch := Watches.run (config.afterFlash f.cursor) hnumbered hstart monitor stdin
        hcapture
      generalize ((State.start monitor stdin submitted.startCursor).run
        (config.afterFlash f.cursor) captureSteps).capture = c at hwatch
      obtain ⟨hall, hbound⟩ := hwatch.printed hjson hwait.epoch hwait.reach.1
      have hboth : printedBy (f, some c) =
          between Event.seq submitted.startCursor.after f.cursor.after history ++
            printedEvents c.shown := by
        rw [← hfirst]
        exact printedEvents_append _ _
      have hprinted : printedBy (f, some c) <+:
          between Event.seq submitted.startCursor.after history.length history := by
        rw [hboth, ← hnumbered.between_append hwait.reach.1 hwait.reach.2 le_rfl]
        exact (List.prefix_append_right_inj _).mpr hbound
      refine ⟨hprinted, seq_initial hnumbered hprinted, ?_, ?_, ?_, ?_, ?_⟩ <;> rintro _ ⟨⟩
      · rw [hboth]
        rcases le_total c.cursor.after f.cursor.after with hbehind | hbeyond
        · rw [← hnumbered.between_append hwatch.reach.1 hbehind hwait.reach.2, List.append_assoc]
          exact List.prefix_append _ _
        · rw [← hnumbered.between_append hwait.reach.1 hbeyond hwatch.reach.2]
          exact (List.prefix_append_right_inj _).mpr hall
      · exact hwatch.handled
      · exact hwatch.logged
      · exact fun hrunning => ⟨hwatch.logged_running hrunning, (hwatch.running hrunning).2⟩
      · exact hwatch.found
    · exact alone
  · exact alone

/-- The wait sees the first two of these, and the third one comes after the operation. -/
def verifyingNews : List News :=
  [("progress", .object [("event", .string "verifying"), ("offset", natValue 0)]),
    ("raw", .object [("base64", .string "aGk=")]), ("log", .object [("text", .string "ready")])]

def verifyingStore (n : ℕ) : Store where
  epoch := "1-1"
  devices _ := DeviceState.emitAll Event.plainSize { status := .availableIdle }
    (verifyingNews.take n)

def verifyingOperation (status : OperationStatus) : Operation where
  id := "op-1"
  deviceId := "dev-1"
  requestKey := "flash-1"
  status := status
  startCursor := ⟨"1-1", 0⟩

/-- The text is `hi` in base64. -/
def verifyingConfig : Config where
  wait := some (· = "ready")
  rawLog := true
  jsonOutput := true
  decode text := if text = "aGk=" then .ok [104, 105] else .error (.msg "Invalid input length: 0")

def verifyingAnswer (n : ℕ) : DeviceId → Cursor → Result EventBatch :=
  answerOf (fun e => .msg e.message) (verifyingStore n)

def verifyingWait : List FlashStep :=
  [.turn false, .batch (verifyingAnswer 2) none, .turn false,
    .poll (.ok (verifyingOperation .succeeded)), .drain (verifyingAnswer 2) none]

def verifyingCapture : List Step :=
  [.turn true 0 none, .batch (verifyingAnswer 3 "dev-1") none]

theorem answers_verifying (n : ℕ) :
    Answers (numberFrom 0 verifyingNews) (verifyingAnswer n "dev-1") := by
  have hinitial : numberFrom 0 (verifyingNews.take n) <+: numberFrom 0 verifyingNews := by
    conv_rhs => rw [← List.take_append_drop n verifyingNews, numberFrom_append]
    exact List.prefix_append _ _
  have hsize : ∀ e ∈ numberFrom 0 verifyingNews, Event.plainSize e ≤ maxEventBytes := by
    decide +kernel
  have hempty : Polling.Retains Event.plainSize { status := .availableIdle } [] :=
    ⟨rfl, rfl, Keeps.nil⟩
  exact answers_of_retains (hempty.emitAll (verifyingNews.take n)
    fun e he => hsize e (hinitial.mem he)) hinitial rfl _

theorem verifying_prints_once :
    PrintedOnce verifyingConfig (numberFrom 0 verifyingNews) ⟨"1-1", 0⟩
        (flashMonitor verifyingConfig false [] (verifyingOperation .running) verifyingWait
          verifyingCapture) ∧
      (printedBy (flashMonitor verifyingConfig false [] (verifyingOperation .running)
        verifyingWait verifyingCapture)).map Event.seq = [1, 2, 3] := by
  refine ⟨flash_prints_once verifyingConfig rfl false [] (verifyingOperation .running)
    (numberFrom 0 verifyingNews) rfl (Nat.zero_le _) verifyingWait verifyingCapture ?_ ?_,
    by decide +kernel⟩
  · intro step hstep
    simp only [verifyingWait, List.mem_cons, List.not_mem_nil, or_false] at hstep
    rcases hstep with rfl | rfl | rfl | rfl | rfl
    · trivial
    · exact answers_verifying 2
    · trivial
    · rintro operation ⟨⟩
      rfl
    · exact answers_verifying 2
  · intro step hstep
    simp only [verifyingCapture, List.mem_cons, List.not_mem_nil, or_false] at hstep
    rcases hstep with rfl | rfl
    · trivial
    · exact answers_verifying 3

end IdfRemote.Monitor
