import IdfRemote.Store

/-!
# The monitor of the command line

The monitor polls the events of a device, writes what it is asked to write, and sends the
keys to the device. A thread reads the keys and hands them over in a queue with sixteen
places. The loop takes whatever is ready first: keys, the end of a write, a batch of
events, or the next tick. A write and a poll in flight go on while another branch is
taken. The server, the terminal and the clock are inputs of the steps.
-/
namespace IdfRemote.Monitor

def monitorExitByte : UInt8 := 0x1d

def maxSerialWriteBytes : ℕ := 64 * 1024

/-- The bytes that one read of the keys takes at most, and the places of their queue. -/
def readBytes : ℕ := 4096

def queuePlaces : ℕ := 16

inductive MonitorInput
  | bytes (data : List UInt8)
  | exit
  | error (message : String)
deriving DecidableEq, Repr

inductive Display
  | json (event : Event)
  /-- An event for the progress of a flash operation, and the end of its line. -/
  | progress (event : Event)
  | finishLine
  /-- Bytes in the raw log. -/
  | raw (data : List UInt8)
  /-- Bytes on the console. -/
  | console (data : List UInt8)
  | status (kind : String) (data : Value)
  | found (text : String) (cursor : Cursor)
  | finish

/-- The options of a capture, its mode, and what the command has printed before. The
pattern is a predicate, and base64 is read by a function that is a parameter. -/
structure Config where
  wait : Option (String → Bool) := none
  timeout : Option ℕ := none
  rawLog : Bool := false
  jsonOutput : Bool := false
  jsonPrintedThrough : Option Cursor := none
  exitOnCtrlBracket : Bool := false
  decode : String → Result (List UInt8)

def asStr : Value → Option String
  | .string text => some text
  | _ => none

def textOf (data : Value) (key : String) : Option String := (data.get key).bind asStr

namespace Config

def rawBytes (c : Config) (event : Event) : Result (List UInt8) :=
  match textOf event.data "base64" with
  | none => .error (.msg "invalid raw event")
  | some text => c.decode text

/-- An event that the operation before has not printed. -/
def unprinted (c : Config) (epoch : String) (event : Event) : Bool :=
  c.jsonPrintedThrough.all fun printed => printed.epoch ≠ epoch || printed.after < event.seq

def rawWrites (c : Config) (event : Event) : Result (List Display) :=
  if event.kind = "raw" then
    match c.rawBytes event with
    | .error e => .error e
    | .ok data =>
        .ok ((if c.rawLog then [.raw data] else []) ++
          if c.jsonOutput then [] else [.console data])
  else .ok []

def statusWrites (c : Config) (epoch : String) (event : Event) : List Display :=
  if c.jsonOutput then if c.unprinted epoch event then [.json event] else []
  else if event.kind ∈ ["disconnected", "reconnecting", "reconnected"] then
    [.status event.kind event.data]
  else []

/-- The loop over the events of a batch, up to one that cannot be read. -/
def batchWrites (c : Config) (epoch : String) : List Event → List Display × Result Unit
  | [] => ([], .ok ())
  | event :: events =>
      match c.rawWrites event with
      | .error e => ([], .error e)
      | .ok raw =>
          let rest := batchWrites c epoch events
          (raw ++ c.statusWrites epoch event ++ rest.1, rest.2)

def matchOf (c : Config) (event : Event) : Option String :=
  if event.kind = "log" then
    c.wait.bind fun pattern => (textOf event.data "text").filter pattern
  else none

/-- The last match of a batch counts. -/
def matched (c : Config) (events : List Event) : Option String :=
  (events.filterMap c.matchOf).getLast?

end Config

/-- The writes up to the first one that fails. -/
def perform (displays : List Display) : Option (ℕ × Error) → List Display × Result Unit
  | some (n, e) => if n < displays.length then (displays.take n, .error e) else (displays, .ok ())
  | none => (displays, .ok ())

/-- The thread that reads the keys, with the messages of its last read and the queue. -/
structure Keyboard where
  rest : List UInt8
  outbox : List MonitorInput := []
  /-- The thread ends when it has sent its messages. -/
  ending : Bool := false
  stopped : Bool := false
  queue : List MonitorInput := []

/-- The messages of a read, and whether it is the last one. -/
def messages (exitOnCtrlBracket : Bool) (data : List UInt8) : List MonitorInput × Bool :=
  match if exitOnCtrlBracket then data.findIdx? (· = monitorExitByte) else none with
  | some position =>
      ((if 0 < position then [.bytes (data.take position)] else []) ++ [.exit], true)
  | none => ([.bytes data], false)

namespace Keyboard

/-- A read of at most `n` bytes. Nothing read is the end of the input. -/
def read (exitOnCtrlBracket : Bool) (n : ℕ) (k : Keyboard) : Keyboard :=
  let data := k.rest.take (min n readBytes)
  if data.isEmpty then { k with stopped := true }
  else
    let sent := messages exitOnCtrlBracket data
    { k with rest := k.rest.drop data.length, outbox := sent.1, ending := sent.2 }

/-- A message goes to the queue when there is a place, and the thread ends when the monitor
has gone. -/
def send (gone : Bool) (k : Keyboard) : Keyboard :=
  match k.outbox with
  | [] => k
  | message :: outbox =>
      if gone then { k with outbox := [], stopped := true }
      else if k.queue.length < queuePlaces then
        { k with
          queue := k.queue ++ [message], outbox := outbox
          stopped := outbox.isEmpty && k.ending }
      else k

end Keyboard

structure WriteRequest where
  payload : List UInt8
  posted : Bool := false
deriving DecidableEq, Repr

inductive Place
  | top
  | select
deriving DecidableEq, Repr

/-- Why the loop returns. -/
inductive Ending
  | exit
  | timeout
  | found
deriving DecidableEq, Repr

/-- The variables of the loop, and what has been done: writes, events, and payloads that were
posted and answered. -/
structure Capture where
  cursor : Cursor
  pendingInput : List UInt8 := []
  writing : Option WriteRequest := none
  exitRequested : Bool := false
  inputOpen : Bool
  place : Place := .top
  outcome : Option (Result Ending) := none
  shown : List Display := []
  handled : List Event := []
  posted : List (List UInt8) := []
  answered : ℕ := 0

namespace Capture

def fail (c : Capture) (e : Error) : Capture := { c with outcome := some (.error e) }

/-- The end of the loop, which may fail to reset the terminal. -/
def finish (c : Capture) (ending : Ending) (failure : Option (ℕ × Error)) : Capture :=
  match perform [.finish] failure with
  | (displays, .ok ()) => { c with shown := c.shown ++ displays, outcome := some (.ok ending) }
  | (displays, .error e) => { c with shown := c.shown ++ displays, outcome := some (.error e) }

def startWrite (c : Capture) : Capture :=
  if c.writing.isNone && !c.pendingInput.isEmpty then
    { c with
      writing := some { payload := c.pendingInput.take maxSerialWriteBytes }
      pendingInput := c.pendingInput.drop maxSerialWriteBytes }
  else c

/-- The top of the loop. -/
def turn (config : Config) (running : Bool) (elapsed : ℕ) (failure : Option (ℕ × Error))
    (c : Capture) : Capture :=
  if !running then c.fail (.msg "capture interrupted")
  else
    let c := c.startWrite
    if c.exitRequested && c.pendingInput.isEmpty && c.writing.isNone then c.finish .exit failure
    else if config.timeout.any fun timeout => timeout ≤ elapsed then
      if config.wait.isSome then c.fail (.msg "timed out waiting for matching serial output")
      else c.finish .timeout failure
    else { c with place := .select }

/-- The first poll of a write sends it. -/
def post (c : Capture) : Capture :=
  match c.writing with
  | some ⟨payload, false⟩ =>
      { c with writing := some ⟨payload, true⟩, posted := c.posted ++ [payload] }
  | _ => c

def receives (c : Capture) : Bool :=
  c.inputOpen && !c.exitRequested && c.pendingInput.length < maxSerialWriteBytes

def receive (c : Capture) : MonitorInput → Capture
  | .bytes data => { c with pendingInput := c.pendingInput ++ data, place := .top }
  | .exit => { c with exitRequested := true, place := .top }
  | .error message => c.fail (.msg ("read monitor input: " ++ message))

/-- A write ends. It succeeds only if it was sent. -/
def written (c : Capture) (result : Result Unit) : Capture :=
  match c.writing, result with
  | some ⟨_, true⟩, .ok () =>
      { c with writing := none, answered := c.answered + 1, place := .top }
  | some _, .error e => c.fail e
  | _, _ => c

def batch (config : Config) (answer : Result EventBatch) (failure : Option (ℕ × Error))
    (c : Capture) : Capture :=
  match answer with
  | .error e => c.fail e
  | .ok batch =>
      match config.batchWrites batch.cursor.epoch batch.events with
      | (displays, .error e) =>
          match perform displays failure with
          | (displays, .ok ()) => { c with shown := c.shown ++ displays }.fail e
          | (displays, .error e) => { c with shown := c.shown ++ displays }.fail e
      | (displays, .ok ()) =>
          let found := config.matched batch.events
          let last := found.toList.flatMap fun text => [.found text batch.cursor, .finish]
          match perform (displays ++ last) failure with
          | (displays, .error e) => { c with shown := c.shown ++ displays }.fail e
          | (displays, .ok ()) =>
              { c with
                shown := c.shown ++ displays, handled := c.handled ++ batch.events
                cursor := batch.cursor, place := .top
                outcome := found.map fun _ => .ok .found }

end Capture

structure State where
  capture : Capture
  keyboard : Keyboard

/-- What the thread or the loop does next. The server answers a poll from its cursor. -/
inductive Step
  | read (n : ℕ)
  | readFails (message : String)
  | halt
  | send
  | turn (running : Bool) (elapsed : ℕ) (failure : Option (ℕ × Error))
  | post
  | receive
  | written (result : Result Unit)
  | batch (answer : Cursor → Result EventBatch) (failure : Option (ℕ × Error))
  | tick

namespace State

def withKeyboard (s : State) (f : Keyboard → Keyboard) : State :=
  { s with keyboard := f s.keyboard }

def withCapture (s : State) (f : Capture → Capture) : State := { s with capture := f s.capture }

/-- The thread reads when it has sent all messages of its last read. -/
def reads (s : State) : Bool := !s.keyboard.stopped && s.keyboard.outbox.isEmpty

theorem reads_iff {s : State} :
    s.reads = true ↔ s.keyboard.stopped = false ∧ s.keyboard.outbox = [] := by
  rw [reads, Bool.and_eq_true, Bool.not_eq_true', List.isEmpty_iff]

/-- The loop stands in front of its select. -/
def selects (s : State) : Bool := s.capture.outcome.isNone && s.capture.place = .select

theorem outcome_of_selects {s : State} (h : s.selects = true) : s.capture.outcome = none := by
  rw [selects, Bool.and_eq_true, Option.isNone_iff_eq_none] at h
  exact h.1

/-- The receiver is dropped when the loop returns. -/
def gone (s : State) : Bool := s.capture.outcome.isSome || !s.capture.inputOpen

def receive (s : State) : State :=
  match s.keyboard.queue with
  | message :: queue =>
      { capture := s.capture.receive message, keyboard := { s.keyboard with queue := queue } }
  | [] =>
      if s.keyboard.stopped then
        s.withCapture fun c => { c with inputOpen := false, place := .top }
      else s

/-- A step that is not possible now changes nothing. -/
def next (config : Config) (s : State) : Step → State
  | .read n =>
      if s.reads then s.withKeyboard (Keyboard.read config.exitOnCtrlBracket n) else s
  | .readFails message =>
      if s.reads then
        s.withKeyboard fun k => { k with outbox := [.error message], ending := true }
      else s
  | .halt => if s.reads then s.withKeyboard fun k => { k with stopped := true } else s
  | .send => s.withKeyboard (Keyboard.send s.gone)
  | .turn running elapsed failure =>
      if s.capture.outcome.isNone && s.capture.place = .top then
        s.withCapture (Capture.turn config running elapsed failure)
      else s
  | .post => if s.selects then s.withCapture Capture.post else s
  | .receive => if s.selects && s.capture.receives then s.receive else s
  | .written result => if s.selects then s.withCapture (Capture.written · result) else s
  | .batch answer failure =>
      if s.selects then s.withCapture fun c => c.batch config (answer c.cursor) failure else s
  | .tick => if s.selects then s.withCapture fun c => { c with place := .top } else s

def run (config : Config) (s : State) (steps : List Step) : State := steps.foldl (next config) s

/-- A monitor that begins at a cursor. Only an interactive one reads keys. -/
def start (interactive : Bool) (stdin : List UInt8) (cursor : Cursor) : State where
  capture := { cursor := cursor, inputOpen := interactive }
  keyboard := { rest := stdin, stopped := !interactive }

end State
end IdfRemote.Monitor
