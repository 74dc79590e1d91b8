import IdfRemote.CaptureLoop

/-!
# Keys are sent once and in order

A key that has been read is in a message of the thread, in the queue, in the input that
waits to be written, or in a write that has not been sent; or it has been sent. The exit
key is the last message, and when it is taken nothing is left in the queue.
-/
namespace IdfRemote.Monitor

/-- The keys in front of the exit key, where there is one. -/
def beforeExit (exitOnCtrlBracket : Bool) (stdin : List UInt8) : List UInt8 :=
  if exitOnCtrlBracket then stdin.takeWhile (· ≠ monitorExitByte) else stdin

def MonitorInput.keys : MonitorInput → List UInt8
  | .bytes data => data
  | _ => []

/-- The messages on their way to the loop. -/
def Keyboard.flow (k : Keyboard) : List MonitorInput := k.queue ++ k.outbox

/-- The payload of a write that has not been sent. -/
def Capture.unsent (c : Capture) : List UInt8 :=
  match c.writing with
  | some ⟨payload, false⟩ => payload
  | _ => []

/-- The keys that the loop has taken out of the queue. -/
def Capture.taken (c : Capture) : List UInt8 := c.posted.flatten ++ c.unsent ++ c.pendingInput

/-- What the messages of a read make of it. -/
inductive Splits (exitOnCtrlBracket : Bool) (data later : List UInt8) :
    List MonitorInput × Bool → Prop
  | all {sent : List MonitorInput} : .exit ∉ sent →
      sent.flatMap MonitorInput.keys ++ beforeExit exitOnCtrlBracket later =
        beforeExit exitOnCtrlBracket (data ++ later) →
      Splits exitOnCtrlBracket data later (sent, false)
  | exit {front : List MonitorInput} : exitOnCtrlBracket = true → monitorExitByte ∈ data →
      .exit ∉ front →
      front.flatMap MonitorInput.keys = beforeExit exitOnCtrlBracket (data ++ later) →
      Splits exitOnCtrlBracket data later (front ++ [.exit], true)

theorem beforeExit_split {front : List UInt8}
    (hfront : ∀ b ∈ front, decide (b ≠ monitorExitByte) = true) (back : List UInt8) :
    beforeExit true (front ++ monitorExitByte :: back) = front := by
  rw [beforeExit, if_pos rfl, List.takeWhile_append_of_pos hfront,
    List.takeWhile_cons_of_neg (by simp), List.append_nil]

theorem messages_splits (exitOnCtrlBracket : Bool) (data later : List UInt8) :
    Splits exitOnCtrlBracket data later (messages exitOnCtrlBracket data) := by
  cases exitOnCtrlBracket with
  | false => exact .all (by simp) (by simp [beforeExit, MonitorInput.keys])
  | true =>
      rw [messages, if_pos rfl]
      cases hfind : data.findIdx? (· = monitorExitByte) with
      | none =>
          have hkeys : ∀ b ∈ data, decide (b ≠ monitorExitByte) = true := by
            simpa using hfind
          refine .all (by simp) ?_
          simp only [beforeExit, if_true, List.takeWhile_append_of_pos hkeys]
          simp [MonitorInput.keys]
      | some position =>
          obtain ⟨hposition, hexit, hfirst⟩ := List.findIdx?_eq_some_iff_getElem.mp hfind
          have hfront : ∀ b ∈ data.take position, decide (b ≠ monitorExitByte) = true := by
            intro b hb
            obtain ⟨j, hj, rfl⟩ := List.mem_take_iff_getElem.mp hb
            simpa using hfirst j (by omega)
          have hdata : data =
              data.take position ++ monitorExitByte :: data.drop (position + 1) := by
            conv_lhs => rw [← List.take_append_drop position data,
              List.drop_eq_getElem_cons hposition, of_decide_eq_true hexit]
          have hbefore : beforeExit true (data ++ later) = data.take position := by
            refine (congrArg (fun d => beforeExit true (d ++ later)) hdata).trans ?_
            rw [List.append_assoc, List.cons_append]
            exact beforeExit_split hfront _
          have hmem : monitorExitByte ∈ data := by
            rw [hdata]
            simp
          refine .exit rfl hmem ?_ ?_
          · split_ifs <;> simp
          · rw [hbefore]
            split_ifs with hpos
            · simp [MonitorInput.keys]
            · simp [Nat.le_zero.mp (not_lt.mp hpos)]

/-- The thread sends what it has and reads no more. -/
def Keyboard.Stops (k : Keyboard) : Prop := k.stopped = true ∨ k.outbox ≠ [] ∧ k.ending = true

/-- No key is lost on the way, and none comes twice, as long as the loop runs. -/
inductive Flows (exitOnCtrlBracket : Bool) (stdin taken : List UInt8) (k : Keyboard) :
    Bool → Prop
  | reading : .exit ∉ k.flow →
      taken ++ k.flow.flatMap MonitorInput.keys ++ beforeExit exitOnCtrlBracket k.rest =
        beforeExit exitOnCtrlBracket stdin →
      Flows exitOnCtrlBracket stdin taken k false
  | leaving (front : List MonitorInput) : exitOnCtrlBracket = true → monitorExitByte ∈ stdin →
      .exit ∉ front → k.flow = front ++ [.exit] → k.Stops →
      taken ++ front.flatMap MonitorInput.keys = beforeExit exitOnCtrlBracket stdin →
      Flows exitOnCtrlBracket stdin taken k false
  | left : exitOnCtrlBracket = true → monitorExitByte ∈ stdin → k.flow = [] → k.Stops →
      taken = beforeExit exitOnCtrlBracket stdin → Flows exitOnCtrlBracket stdin taken k true

/-- The writes of the loop: one at a time, and none of them empty or too long. -/
structure Capture.Sends (c : Capture) : Prop where
  writing : ∀ w ∈ c.writing, 0 < w.payload.length ∧ w.payload.length ≤ maxSerialWriteBytes
  posted : ∀ payload ∈ c.posted, 0 < payload.length ∧ payload.length ≤ maxSerialWriteBytes
  inFlight : c.posted.length = c.answered + (c.writing.any WriteRequest.posted).toNat

theorem Capture.Sends.congr {c c' : Capture} (h : c.Sends) (hwriting : c'.writing = c.writing)
    (hposted : c'.posted = c.posted) (hanswered : c'.answered = c.answered) : c'.Sends where
  writing := by
    rw [hwriting]
    exact h.writing
  posted := by
    rw [hposted]
    exact h.posted
  inFlight := by
    rw [hposted, hanswered, hwriting]
    exact h.inFlight

structure Sent (exitOnCtrlBracket : Bool) (stdin : List UInt8) (s : State) : Prop where
  rest : s.keyboard.rest <:+ stdin
  stopped : s.keyboard.stopped = true → s.keyboard.outbox = []
  closed : s.capture.inputOpen = false → s.keyboard.stopped = true
  sends : s.capture.Sends
  order : s.capture.posted.flatten <+: beforeExit exitOnCtrlBracket stdin
  flows : s.capture.outcome = none →
    Flows exitOnCtrlBracket stdin s.capture.taken s.keyboard s.capture.exitRequested
  exit : s.capture.outcome = some (.ok .exit) → exitOnCtrlBracket = true ∧
    monitorExitByte ∈ stdin ∧ s.capture.posted.flatten = beforeExit exitOnCtrlBracket stdin

section
variable {exitOnCtrlBracket : Bool} {stdin taken : List UInt8} {k k' : Keyboard} {requested : Bool}

theorem Flows.taken_le (h : Flows exitOnCtrlBracket stdin taken k requested) :
    taken <+: beforeExit exitOnCtrlBracket stdin := by
  cases h with
  | reading _ hkeys => exact ⟨_, by rw [← hkeys, List.append_assoc]⟩
  | leaving front _ _ _ _ _ hkeys => exact ⟨_, hkeys⟩
  | left _ _ _ _ hkeys => exact hkeys ▸ List.prefix_refl _

theorem Keyboard.not_stops (hrunning : k.stopped = false) (houtbox : k.outbox = []) :
    ¬ k.Stops := by
  rintro (hstopped | ⟨hne, -⟩)
  · rw [hrunning] at hstopped
    cases hstopped
  · exact hne houtbox

theorem Keyboard.read_rest (exitOnCtrlBracket : Bool) (n : ℕ) (k : Keyboard) :
    (k.read exitOnCtrlBracket n).rest <:+ k.rest := by
  rw [Keyboard.read]
  split_ifs
  · exact List.suffix_refl _
  · exact List.drop_suffix _ _

theorem Keyboard.read_stopped (houtbox : k.outbox = []) (hrunning : k.stopped = false) (n : ℕ)
    (hstopped : (k.read exitOnCtrlBracket n).stopped = true) :
    (k.read exitOnCtrlBracket n).outbox = [] := by
  unfold Keyboard.read at hstopped ⊢
  dsimp only at hstopped ⊢
  split
  · exact houtbox
  · next hsome =>
    rw [if_neg hsome] at hstopped
    change k.stopped = true at hstopped
    rw [hrunning] at hstopped
    cases hstopped

/-- A read puts its keys into messages. -/
theorem Flows.read (h : Flows exitOnCtrlBracket stdin taken k requested)
    (hrest : k.rest <:+ stdin) (hoff : k.stopped = false) (houtbox : k.outbox = []) (n : ℕ) :
    Flows exitOnCtrlBracket stdin taken (k.read exitOnCtrlBracket n) requested := by
  have hrunning := Keyboard.not_stops hoff houtbox
  have hflow : k.flow = k.queue := by rw [Keyboard.flow, houtbox, List.append_nil]
  cases h with
  | leaving _ _ _ _ _ hstops => exact absurd hstops hrunning
  | left _ _ _ hstops => exact absurd hstops hrunning
  | reading hnot hkeys =>
      rw [hflow] at hnot hkeys
      rw [Keyboard.read]
      split_ifs with hempty
      · refine .reading ?_ ?_ <;> rw [Keyboard.flow, houtbox, List.append_nil]
        · exact hnot
        · exact hkeys
      · have hread := List.prefix_append_drop (List.take_prefix (min n readBytes) k.rest)
        have hsplits := messages_splits exitOnCtrlBracket (k.rest.take (min n readBytes))
          (k.rest.drop (k.rest.take (min n readBytes)).length)
        generalize messages exitOnCtrlBracket (k.rest.take (min n readBytes)) = sent at hsplits
        cases hsplits with
        | all hsent hall =>
            rw [← hread] at hall
            refine .reading ?_ ?_
            · simp only [Keyboard.flow, List.mem_append, not_or]
              exact ⟨hnot, hsent⟩
            · rw [Keyboard.flow, List.flatMap_append, ← hkeys, ← hall]
              simp only [List.append_assoc]
        | @exit front hspecial hexit hfront hall =>
            rw [← hread] at hall
            refine .leaving (k.queue ++ front) hspecial ?_ ?_ ?_ ?_ ?_
            · exact hrest.subset (List.mem_of_mem_take hexit)
            · simp only [List.mem_append, not_or]
              exact ⟨hnot, hfront⟩
            · rw [Keyboard.flow, List.append_assoc]
            · exact .inr ⟨by simp, rfl⟩
            · rw [List.flatMap_append, hall, ← List.append_assoc, hkeys]

theorem Keyboard.flow_send (hstopped : k.stopped = true → k.outbox = []) :
    (k.send false).flow = k.flow ∧ (k.send false).rest = k.rest ∧
      (k.Stops → (k.send false).Stops) ∧
      ((k.send false).stopped = true → (k.send false).outbox = []) ∧
      (k.stopped = true → (k.send false).stopped = true) := by
  unfold Keyboard.send
  split
  · exact ⟨rfl, rfl, id, hstopped, id⟩
  · next message outbox houtbox =>
    have hrunning : k.stopped ≠ true := fun h => by
      rw [hstopped h] at houtbox
      cases houtbox
    rw [if_neg Bool.false_ne_true]
    split_ifs with hroom
    · refine ⟨?_, rfl, fun hstops => ?_, fun h => ?_, fun h => absurd h hrunning⟩
      · simp [Keyboard.flow, houtbox]
      · obtain ⟨-, hending⟩ := hstops.resolve_left hrunning
        cases outbox with
        | nil => exact .inl hending
        | cons next outbox => exact .inr ⟨List.cons_ne_nil _ _, hending⟩
      · simp only [Bool.and_eq_true] at h
        exact List.isEmpty_iff.mp h.1
    · exact ⟨rfl, rfl, id, hstopped, id⟩

theorem Flows.send (h : Flows exitOnCtrlBracket stdin taken k requested)
    (hstopped : k.stopped = true → k.outbox = []) :
    Flows exitOnCtrlBracket stdin taken (k.send false) requested := by
  obtain ⟨hflow, hrest, hstops, -⟩ := Keyboard.flow_send hstopped
  cases h with
  | reading hnot hkeys =>
      refine .reading ?_ ?_
      · rw [hflow]
        exact hnot
      · rw [hflow, hrest]
        exact hkeys
  | leaving front hspecial hexit hfront hlast hstop hkeys =>
      exact .leaving front hspecial hexit hfront (hflow.trans hlast) (hstops hstop) hkeys
  | left hspecial hexit hnone hstop hkeys =>
      exact .left hspecial hexit (hflow.trans hnone) (hstops hstop) hkeys

/-- The loop takes keys out of the queue. -/
theorem Flows.takes {data : List UInt8} {queue : List MonitorInput}
    (h : Flows exitOnCtrlBracket stdin taken k false) (hqueue : k.queue = .bytes data :: queue) :
    Flows exitOnCtrlBracket stdin (taken ++ data) { k with queue := queue } false := by
  have hflow : k.flow = .bytes data :: { k with queue := queue }.flow := by
    rw [Keyboard.flow, hqueue, List.cons_append, Keyboard.flow]
  cases h with
  | reading hnot hkeys =>
      rw [hflow] at hnot hkeys
      refine .reading (fun hmem => hnot (List.mem_cons_of_mem _ hmem)) ?_
      rw [← hkeys, List.flatMap_cons]
      simp only [MonitorInput.keys, List.append_assoc]
  | leaving front hspecial hexit hfront hlast hstops hkeys =>
      rw [hflow] at hlast
      cases front with
      | nil => cases hlast
      | cons first front =>
          obtain ⟨rfl, hback⟩ := List.cons.inj hlast
          refine .leaving front hspecial hexit (fun hmem => hfront (List.mem_cons_of_mem _ hmem))
            hback hstops ?_
          rw [← hkeys, List.flatMap_cons]
          simp only [MonitorInput.keys, List.append_assoc]

/-- When the loop takes the exit key, nothing is left behind it. -/
theorem Flows.leaves {queue : List MonitorInput}
    (h : Flows exitOnCtrlBracket stdin taken k false) (hqueue : k.queue = .exit :: queue) :
    Flows exitOnCtrlBracket stdin taken { k with queue := queue } true := by
  have hflow : k.flow = .exit :: { k with queue := queue }.flow := by
    rw [Keyboard.flow, hqueue, List.cons_append, Keyboard.flow]
  cases h with
  | reading hnot =>
      rw [hflow] at hnot
      exact absurd List.mem_cons_self hnot
  | leaving front hspecial hexit hfront hlast hstops hkeys =>
      rw [hflow] at hlast
      cases front with
      | nil =>
          rw [List.flatMap_nil, List.append_nil] at hkeys
          exact .left hspecial hexit (List.cons.inj hlast).2 hstops hkeys
      | cons first front =>
          obtain ⟨rfl, -⟩ := List.cons.inj hlast
          exact absurd List.mem_cons_self hfront

/-- A thread that reads no more, with a last message for the loop or none. -/
theorem Flows.quit (h : Flows exitOnCtrlBracket stdin taken k requested)
    (hrest : k'.rest = k.rest) (hflow : ∃ last, k'.flow = k.flow ++ last ∧ .exit ∉ last ∧
      last.flatMap MonitorInput.keys = []) (hrunning : ¬ k.Stops) :
    Flows exitOnCtrlBracket stdin taken k' requested := by
  obtain ⟨last, hflow, hlast, hnone⟩ := hflow
  cases h with
  | leaving _ _ _ _ _ hstops => exact absurd hstops hrunning
  | left _ _ _ hstops => exact absurd hstops hrunning
  | reading hnot hkeys =>
      refine .reading ?_ ?_
      · rw [hflow, List.mem_append, not_or]
        exact ⟨hnot, hlast⟩
      · rw [hflow, List.flatMap_append, hnone, List.append_nil, hrest]
        exact hkeys

end

/-- A part of the loop that takes no message. It returns for the exit key only when all keys
are sent. -/
structure Goes (c c' : Capture) : Prop where
  opened : c'.inputOpen = c.inputOpen
  requested : c'.exitRequested = c.exitRequested
  taken : c'.taken = c.taken
  sends : c.Sends → c'.Sends
  exit : c'.outcome = some (.ok .exit) → c.exitRequested = true ∧ c'.posted.flatten = c'.taken

namespace Goes
variable {c c' c'' : Capture}

theorem trans (h : Goes c c') (h' : Goes c' c'') : Goes c c'' where
  opened := h'.opened.trans h.opened
  requested := h'.requested.trans h.requested
  taken := h'.taken.trans h.taken
  sends hc := h'.sends (h.sends hc)
  exit hexit := ⟨h.requested ▸ (h'.exit hexit).1, (h'.exit hexit).2⟩

theorem of_running (hrunning : c'.outcome = none) (hopened : c'.inputOpen = c.inputOpen)
    (hrequested : c'.exitRequested = c.exitRequested) (htaken : c'.taken = c.taken)
    (hsends : c.Sends → c'.Sends) : Goes c c' where
  opened := hopened
  requested := hrequested
  taken := htaken
  sends := hsends
  exit hexit := by
    rw [hrunning] at hexit
    cases hexit

/-- Only what is shown, the cursor and the outcome change. -/
theorem display (c : Capture) (shown : List Display) (handled : List Event) (cursor : Cursor)
    (place : Place) {outcome : Option (Result Ending)} (hexit : outcome ≠ some (.ok .exit)) :
    Goes c { c with
      shown := shown, handled := handled, cursor := cursor, place := place
      outcome := outcome } where
  opened := rfl
  requested := rfl
  taken := rfl
  sends h := h.congr rfl rfl rfl
  exit h := absurd h hexit

theorem fail (c : Capture) (e : Error) : Goes c (c.fail e) :=
  display c c.shown c.handled c.cursor c.place (by simp)

theorem finish (c : Capture) (failure : Option (ℕ × Error)) (ending : Ending)
    (hexit : ending = .exit → c.exitRequested = true ∧ c.posted.flatten = c.taken) :
    Goes c (c.finish ending failure) := by
  unfold Capture.finish
  split
  · exact ⟨rfl, rfl, rfl, fun h => h.congr rfl rfl rfl, fun h => hexit (by simpa using h)⟩
  · exact display c _ c.handled c.cursor c.place (by simp)

theorem startWrite (c : Capture) (hrunning : c.outcome = none) : Goes c c.startWrite := by
  unfold Capture.startWrite
  split_ifs with hidle
  · rw [Bool.and_eq_true, Option.isNone_iff_eq_none, Bool.not_eq_true', List.isEmpty_eq_false_iff]
      at hidle
    refine of_running hrunning rfl rfl ?_ fun h => ⟨?_, h.posted, ?_⟩
    · simp [Capture.taken, Capture.unsent, hidle.1]
    · rintro w ⟨⟩
      have hpos := List.length_pos_iff.mpr hidle.2
      rw [List.length_take]
      exact ⟨Nat.lt_min.mpr ⟨by decide, hpos⟩, Nat.min_le_left _ _⟩
    · have hcount := h.inFlight
      rw [hidle.1] at hcount
      exact hcount
  · exact of_running hrunning rfl rfl rfl id

theorem turn (config : Config) (running : Bool) (elapsed : ℕ) (failure : Option (ℕ × Error))
    (c : Capture) (hrunning : c.outcome = none) :
    Goes c (c.turn config running elapsed failure) := by
  unfold Capture.turn
  split
  · exact fail c _
  · have hnone : c.startWrite.outcome = none := by
      unfold Capture.startWrite
      split_ifs <;> exact hrunning
    refine (startWrite c hrunning).trans ?_
    generalize c.startWrite = c₁ at hnone ⊢
    dsimp only
    split_ifs with hleave
    · -- No write is left and no key waits, so all keys that were taken are sent.
      simp only [Bool.and_eq_true, List.isEmpty_iff, Option.isNone_iff_eq_none] at hleave
      refine finish c₁ failure .exit fun _ => ⟨hleave.1.1, ?_⟩
      rw [Capture.taken, Capture.unsent, hleave.2, hleave.1.2, List.append_nil, List.append_nil]
    · exact fail c₁ _
    · exact finish c₁ failure .timeout fun h => by cases h
    · exact of_running hnone rfl rfl rfl fun h => h.congr rfl rfl rfl

theorem post (c : Capture) (hrunning : c.outcome = none) : Goes c c.post := by
  unfold Capture.post
  split
  · next payload hwriting =>
    refine of_running hrunning rfl rfl ?_ fun h => ⟨?_, ?_, ?_⟩
    · simp [Capture.taken, Capture.unsent, hwriting]
    · rintro w ⟨⟩
      exact h.writing ⟨payload, false⟩ hwriting
    · intro sent hsent
      obtain hsent | hsent := List.mem_append.mp hsent
      · exact h.posted sent hsent
      · rw [List.mem_singleton.mp hsent]
        exact h.writing ⟨payload, false⟩ hwriting
    · have hcount := h.inFlight
      rw [hwriting] at hcount
      simpa using hcount
  · exact of_running hrunning rfl rfl rfl id

theorem written (c : Capture) (hrunning : c.outcome = none) (result : Result Unit) :
    Goes c (c.written result) := by
  unfold Capture.written
  split
  · next payload hwriting =>
    refine of_running hrunning rfl rfl ?_ fun h => ⟨?_, h.posted, ?_⟩
    · simp [Capture.taken, Capture.unsent, hwriting]
    · rintro w ⟨⟩
    · have hcount := h.inFlight
      rw [hwriting] at hcount
      simpa using hcount
  · exact fail c _
  · exact of_running hrunning rfl rfl rfl id

theorem batch (config : Config) (answer : Result EventBatch) (failure : Option (ℕ × Error))
    (c : Capture) : Goes c (c.batch config answer failure) := by
  unfold Capture.batch
  split
  · exact fail c _
  · split
    · split <;> exact display c _ _ _ _ (by simp)
    · dsimp only
      split
      · exact display c _ _ _ _ (by simp)
      · exact display c _ _ _ _ (by simp)

end Goes

namespace Sent
variable {exitOnCtrlBracket : Bool} {stdin : List UInt8} {s : State}

theorem withKeyboard (h : Sent exitOnCtrlBracket stdin s) {f : Keyboard → Keyboard}
    (hrest : (f s.keyboard).rest <:+ stdin)
    (hstopped : (f s.keyboard).stopped = true → (f s.keyboard).outbox = [])
    (hclosed : s.keyboard.stopped = true → (f s.keyboard).stopped = true)
    (hflows : s.capture.outcome = none →
      Flows exitOnCtrlBracket stdin s.capture.taken (f s.keyboard) s.capture.exitRequested) :
    Sent exitOnCtrlBracket stdin (s.withKeyboard f) where
  rest := hrest
  stopped := hstopped
  closed hinput := hclosed (h.closed hinput)
  sends := h.sends
  order := h.order
  flows := hflows
  exit := h.exit

theorem withCapture (h : Sent exitOnCtrlBracket stdin s) {f : Capture → Capture}
    (hnone : s.capture.outcome = none) (hgoes : Goes s.capture (f s.capture)) :
    Sent exitOnCtrlBracket stdin (s.withCapture f) where
  rest := h.rest
  stopped := h.stopped
  closed hinput := h.closed (hgoes.opened ▸ hinput)
  sends := hgoes.sends h.sends
  order := by
    have htaken := (h.flows hnone).taken_le
    rw [← hgoes.taken, Capture.taken, List.append_assoc] at htaken
    exact (List.prefix_append _ _).trans htaken
  flows _ := by
    have hflows := h.flows hnone
    rw [← hgoes.taken, ← hgoes.requested] at hflows
    exact hflows
  exit hexit := by
    obtain ⟨hrequested, hposted⟩ := hgoes.exit hexit
    have hflows := h.flows hnone
    rw [hrequested] at hflows
    cases hflows with
    | left hspecial hkey _ _ htaken =>
        exact ⟨hspecial, hkey, hposted.trans (hgoes.taken.trans htaken)⟩

theorem send (h : Sent exitOnCtrlBracket stdin s) :
    Sent exitOnCtrlBracket stdin (s.withKeyboard (Keyboard.send s.gone)) := by
  cases hgone : s.gone with
  | false =>
      obtain ⟨-, hrest, -, hstopped, hstays⟩ := Keyboard.flow_send h.stopped
      refine h.withKeyboard ?_ hstopped hstays fun hnone => (h.flows hnone).send h.stopped
      rw [hrest]
      exact h.rest
  | true =>
      cases houtbox : s.keyboard.outbox with
      | nil =>
          have hsame : Keyboard.send true s.keyboard = s.keyboard := by
            rw [Keyboard.send, houtbox]
          refine h.withKeyboard ?_ ?_ ?_ ?_ <;> rw [hsame]
          · exact h.rest
          · exact h.stopped
          · exact id
          · exact h.flows
      | cons message outbox =>
          -- a thread with a message has not ended, so the loop has returned
          have hover : s.capture.outcome ≠ none := by
            intro hnone
            rw [State.gone, hnone, Option.isSome_none, Bool.false_or, Bool.not_eq_true'] at hgone
            rw [h.stopped (h.closed hgone)] at houtbox
            cases houtbox
          refine h.withKeyboard ?_ ?_ ?_ fun hnone => absurd hnone hover <;>
            rw [Keyboard.send, houtbox]
          · exact h.rest
          · exact fun _ => rfl
          · exact fun _ => rfl

theorem receive (h : Sent exitOnCtrlBracket stdin s) (hnone : s.capture.outcome = none)
    (hreceives : s.capture.receives = true) : Sent exitOnCtrlBracket stdin s.receive := by
  have hflows := h.flows hnone
  rw [Capture.receives, Bool.and_eq_true, Bool.and_eq_true, Bool.not_eq_true'] at hreceives
  rw [hreceives.1.2] at hflows
  unfold State.receive
  split
  · next message queue hqueue =>
    have hsends : (s.capture.receive message).Sends := by
      cases message <;> exact h.sends.congr rfl rfl rfl
    cases message with
    | bytes data =>
        have htaken : (s.capture.receive (.bytes data)).taken = s.capture.taken ++ data := by
          simp only [Capture.taken, Capture.receive, List.append_assoc]
          rfl
        have hnext : (s.capture.receive (.bytes data)).outcome = none := hnone
        have hopen : (s.capture.receive (.bytes data)).exitRequested = false := hreceives.1.2
        refine ⟨h.rest, h.stopped, h.closed, hsends, h.order, fun _ => ?_, fun hexit => ?_⟩
        · rw [htaken, hopen]
          exact hflows.takes hqueue
        · rw [hnext] at hexit
          cases hexit
    | exit =>
        have hnext : (s.capture.receive .exit).outcome = none := hnone
        refine ⟨h.rest, h.stopped, h.closed, hsends, h.order, fun _ => ?_, fun hexit => ?_⟩
        · exact hflows.leaves hqueue
        · rw [hnext] at hexit
          cases hexit
    | error message =>
        refine ⟨h.rest, h.stopped, h.closed, hsends, h.order, fun hout => ?_, fun hexit => ?_⟩
        · cases hout
        · cases hexit
  · split
    · next hstopped =>
      exact ⟨h.rest, h.stopped, fun _ => hstopped, h.sends.congr rfl rfl rfl, h.order, h.flows,
        h.exit⟩
    · exact h

theorem next (config : Config) (h : Sent config.exitOnCtrlBracket stdin s) (step : Step) :
    Sent config.exitOnCtrlBracket stdin (s.next config step) := by
  cases step with
  | read n =>
      rw [State.next]
      split_ifs with hreads
      · obtain ⟨hrunning, houtbox⟩ := State.reads_iff.mp hreads
        refine h.withKeyboard ?_ ?_ ?_ fun hnone => (h.flows hnone).read h.rest hrunning houtbox n
        · exact (Keyboard.read_rest ..).trans h.rest
        · exact Keyboard.read_stopped houtbox hrunning n
        · rw [hrunning]
          simp
      · exact h
  | readFails message =>
      rw [State.next]
      split_ifs with hreads
      · obtain ⟨hrunning, houtbox⟩ := State.reads_iff.mp hreads
        refine h.withKeyboard h.rest (by simp [hrunning]) id fun hnone =>
          (h.flows hnone).quit rfl ⟨[.error message], ?_, by simp, by simp [MonitorInput.keys]⟩
            (Keyboard.not_stops hrunning houtbox)
        rw [Keyboard.flow, Keyboard.flow, houtbox, List.append_nil]
      · exact h
  | halt =>
      rw [State.next]
      split_ifs with hreads
      · obtain ⟨hrunning, houtbox⟩ := State.reads_iff.mp hreads
        refine h.withKeyboard h.rest (fun _ => houtbox) (fun _ => rfl) fun hnone =>
          (h.flows hnone).quit rfl ⟨[], (List.append_nil _).symm, by simp, rfl⟩
            (Keyboard.not_stops hrunning houtbox)
      · exact h
  | send => exact h.send
  | turn running elapsed failure =>
      rw [State.next]
      split_ifs with hturn
      · rw [Bool.and_eq_true, Option.isNone_iff_eq_none] at hturn
        exact h.withCapture hturn.1 (Goes.turn config running elapsed failure _ hturn.1)
      · exact h
  | post =>
      rw [State.next]
      split_ifs with hselects
      · have hnone := State.outcome_of_selects hselects
        exact h.withCapture hnone (Goes.post _ hnone)
      · exact h
  | receive =>
      rw [State.next]
      split_ifs with hselects
      · rw [Bool.and_eq_true] at hselects
        exact h.receive (State.outcome_of_selects hselects.1) hselects.2
      · exact h
  | written result =>
      rw [State.next]
      split_ifs with hselects
      · have hnone := State.outcome_of_selects hselects
        exact h.withCapture hnone (Goes.written _ hnone result)
      · exact h
  | batch answer failure =>
      rw [State.next]
      split_ifs with hselects
      · exact h.withCapture (State.outcome_of_selects hselects) (Goes.batch config _ failure _)
      · exact h
  | tick =>
      rw [State.next]
      split_ifs with hselects
      · have hnone := State.outcome_of_selects hselects
        exact h.withCapture hnone
          (Goes.of_running hnone rfl rfl rfl fun h => h.congr rfl rfl rfl)
      · exact h

theorem run (config : Config) (h : Sent config.exitOnCtrlBracket stdin s) (steps : List Step) :
    Sent config.exitOnCtrlBracket stdin (s.run config steps) :=
  List.foldlRecOn steps _ h fun _ h step _ => h.next config step

theorem start (exitOnCtrlBracket interactive : Bool) (stdin : List UInt8) (cursor : Cursor) :
    Sent exitOnCtrlBracket stdin (State.start interactive stdin cursor) where
  rest := List.suffix_refl _
  stopped _ := rfl
  closed hinput := by
    have hinteractive : interactive = false := hinput
    rw [State.start, hinteractive]
    rfl
  sends := ⟨by simp [State.start], by simp [State.start], rfl⟩
  order := List.nil_prefix
  flows _ := .reading (by simp [State.start, Keyboard.flow]) rfl
  exit hexit := by cases hexit

end Sent

/-- What the server has got of the keys. -/
structure SentOnce (exitOnCtrlBracket : Bool) (stdin : List UInt8) (c : Capture) : Prop where
  inFlight : c.answered ≤ c.posted.length ∧ c.posted.length ≤ c.answered + 1
  payload : ∀ payload ∈ c.posted, 1 ≤ payload.length ∧ payload.length ≤ 65536
  order : c.posted.flatten <+: beforeExit exitOnCtrlBracket stdin
  exit : c.outcome = some (.ok .exit) →
    exitOnCtrlBracket = true ∧ monitorExitByte ∈ stdin ∧
      c.posted.flatten = stdin.takeWhile (· ≠ monitorExitByte)

/-- However the keys come in pieces, and whatever the loop takes first, they are sent once
and in order, one write at a time. The loop returns for the exit key when all keys in front
of it are sent. -/
theorem keys_sent_once (config : Config) (interactive : Bool) (stdin : List UInt8)
    (cursor : Cursor) (steps : List Step) :
    SentOnce config.exitOnCtrlBracket stdin
      ((State.start interactive stdin cursor).run config steps).capture := by
  have h := (Sent.start config.exitOnCtrlBracket interactive stdin cursor).run config steps
  refine ⟨?_, h.sends.posted, h.order, fun hexit => ?_⟩
  · have hcount := h.sends.inFlight
    have hone := Bool.toNat_le
      (((State.start interactive stdin cursor).run config steps).capture.writing.any
        WriteRequest.posted)
    omega
  · obtain ⟨hspecial, hkey, hall⟩ := h.exit hexit
    rw [beforeExit, if_pos hspecial] at hall
    exact ⟨hspecial, hkey, hall⟩

end IdfRemote.Monitor
