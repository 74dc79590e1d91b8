import IdfRemote.Interleaving
import IdfRemote.JsonGate
import IdfRemote.MuxCodec
import IdfRemote.Value

/-!
# The tasks of the firmware

One task of `idf_remote.c` receives, one transmits and one runs commands; any number of
tasks publish events, write to the console and read from it. A task may be preempted
between any two accesses to what they share, so a turn makes at most one of these. What
the driver, the allocator, cJSON and the application do is given with each turn, and so
are the contents of local arrays. A task that leaves an array is lost.
-/
namespace IdfRemote.Firmware
open CArray Interleaving MuxCodec

def muxHello : UInt8 := 1
def muxHelloAck : UInt8 := 2
def muxConsole : UInt8 := 3
def muxRequest : UInt8 := 4
def muxResponse : UInt8 := 5
def muxEvent : UInt8 := 6
def muxError : UInt8 := 7

inductive EspErr
  | ok
  | noMem
  | invalidState
  | invalidSize
  | timeout
deriving DecidableEq, Repr

def chunkCapacity : ℕ := 193

structure ConsoleChunk where
  size : ℕ
  data : Vector UInt8 chunkCapacity

/-- `console_chunk_t frame = {0}`. -/
def ConsoleChunk.zeroed : ConsoleChunk := { size := 0, data := .replicate _ 0 }

def ConsoleChunk.push (chunk : ConsoleChunk) (b : UInt8) : Option ConsoleChunk :=
  (store chunk.data chunk.size b).map fun data => { size := chunk.size + 1, data := data }

/-- The line ending that `sdkconfig` chooses for standard output. -/
inductive LineEnding
  | crlf
  | cr
  | lf
deriving DecidableEq, Repr

/-- One byte of the loop of `console_write`. -/
def ConsoleChunk.translate (ending : LineEnding) (chunk : ConsoleChunk) (b : UInt8) :
    Option ConsoleChunk :=
  match ending with
  | .crlf => if b = 0x0a then (chunk.push 0x0d).bind (·.push b) else chunk.push b
  | .cr => chunk.push (if b = 0x0a then 0x0d else b)
  | .lf => chunk.push b

/-- The static variables that the tasks share. `notified` is what the transmitter waits for. -/
structure Shared where
  session : UInt64 := 0
  controlQueue : List MuxFrame := []
  consoleQueue : List ConsoleChunk := []
  inputQueue : List UInt8 := []
  requestQueue : List MuxFrame := []
  droppedConsole : UInt32 := 0
  droppedControl : UInt32 := 0
  notified : UInt32 := 0

def controlCapacity : ℕ := 8
def consoleCapacity : ℕ := 16
def requestCapacity : ℕ := 4
def inputCapacity : ℕ := 1024

/-- Sending to a queue without waiting for room. -/
def queueSend {β : Type} (capacity : ℕ) (queue : List β) (x : β) : Option (List β) :=
  if queue.length < capacity then some (queue ++ [x]) else none

def countDrop (s : Shared) (control : Bool) : Shared :=
  if control then { s with droppedControl := s.droppedControl + 1 }
  else { s with droppedConsole := s.droppedConsole + 1 }

@[simp] theorem countDrop_session (s : Shared) (control : Bool) :
    (countDrop s control).session = s.session := by
  cases control <;> rfl

def notifyGive (s : Shared) : Shared := { s with notified := s.notified + 1 }

@[simp] theorem notifyGive_session (s : Shared) : (notifyGive s).session = s.session := rfl

/-- The configuration that the console is attached with. A longer identity is refused then. -/
structure Config where
  identity : List UInt8
  identity_le : identity.length ≤ muxMaxPayload
  ending : LineEnding

/-- What is not decided by the code of the tasks. `print` fails when memory is short, and the
handler returns the name of an error or, unless it is null, a result. -/
structure Inputs where
  read : List UInt8
  written : ℕ
  body : Vector UInt8 muxMaxBody
  text : Vector UInt8 (muxMaxPayload + 1)
  print : Value → Option (List UInt8)
  parse : List UInt8 → Option Value
  handler : String → Option Value → Except String (Option Value)
  event : Value
  bytes : List UInt8
  size : ℕ
  nonblocking : Bool

/-- What can be seen of the tasks: a session is accepted, the transmitter reads the session for
what it has at hand, it starts to transmit, and the driver takes bytes. -/
inductive Label
  | accepted (session : UInt64)
  | stamped (session : UInt64)
  | raw (bytes : List UInt8)
  | framed (frame : MuxFrame) (bytes : List UInt8)
  | wrote (bytes : List UInt8)

/-- Where a call of `enqueue` stands. -/
inductive Enqueue
  | send (frame : MuxFrame)
  | drop
  | give

/-- The rest of the call, or what it returns. -/
def Enqueue.turn (s : Shared) : Enqueue → Shared × (Enqueue ⊕ EspErr)
  | .send frame =>
      match queueSend controlCapacity s.controlQueue frame with
      | some queue => ({ s with controlQueue := queue }, .inl .give)
      | none => (s, .inl .drop)
  | .drop => (countDrop s true, .inr .timeout)
  | .give => (notifyGive s, .inr .ok)

@[simp] theorem Enqueue.turn_session (s : Shared) (call : Enqueue) :
    (call.turn s).1.session = s.session := by
  cases call with
  | send frame =>
      unfold turn
      dsimp only
      split <;> rfl
  | drop => exact countDrop_session s true
  | give => exact notifyGive_session s

/-- `memcpy` of a string to the start of an array. -/
def copyText {n : ℕ} (dst : Vector UInt8 n) (text : List UInt8) : Option (Vector UInt8 n) :=
  storeLoop 0 (fun i => text[i]?) text.length dst

/-- `send_json` in front of its call of `enqueue`: the frame, or what it returns without one. -/
def sendJson (kind : UInt8) (session : UInt64) (request : UInt32) (text : Option (List UInt8)) :
    Option (Except EspErr MuxFrame) :=
  match text with
  | none => some (.error .noMem)
  | some text =>
      if text.length ≤ muxMaxPayload then
        (copyText (.replicate _ 0) text).map fun data =>
          .ok { kind := kind, session := session, request := request, size := text.length
                data := data }
      else some (.error .invalidSize)

def protocolError (print : Value → Option (List UInt8)) (session : UInt64) (request : UInt32)
    (message : String) : Option (Except EspErr MuxFrame) :=
  sendJson muxError session request (print (.object [("error", .string message)]))

inductive TxPlace
  | receive
  | console
  | wait
  | stamp
  | send (session : UInt64)
  | transmit (bytes : List UInt8) (control : Bool) (sent : ℕ)
  | drop (control : Bool)
  | lost

structure TxTask where
  frame : MuxFrame
  wire : Vector UInt8 muxMaxWire
  place : TxPlace := .receive

namespace TxTask

/-- `mux_encode` and the call of `transmit` with what it has written. -/
def encode (i : Inputs) (s : Shared) (t : TxTask) : Turn Shared Label TxTask :=
  match muxEncode t.frame i.body t.wire with
  | none => { shared := s, own := { t with place := .lost } }
  | some (size, wire) =>
      let bytes := wire.toList.take size
      { shared := s
        own := { t with
          wire := wire
          place := .transmit bytes (t.frame.kind ≠ muxConsole) 0 }
        record := [.framed t.frame bytes] }

def turn (i : Inputs) (s : Shared) (t : TxTask) : Turn Shared Label TxTask :=
  match t.place with
  | .receive =>
      match s.controlQueue with
      | [] => { shared := s, own := { t with place := .console } }
      | frame :: queue =>
          { shared := { s with controlQueue := queue }
            own := { t with frame := frame, place := .stamp } }
  | .console =>
      match s.consoleQueue with
      | [] => { shared := s, own := { t with place := .wait } }
      | chunk :: queue =>
          { shared := { s with consoleQueue := queue }
            own :=
              match copy t.frame.data 0 chunk.data 0 chunk.size with
              | none => { t with place := .lost }
              | some data =>
                  { t with
                    frame := { t.frame with
                      kind := muxConsole, request := 0, size := chunk.size, data := data }
                    place := .stamp } }
  | .wait =>
      if s.notified = 0 then { shared := s, own := t }
      else { shared := { s with notified := 0 }, own := { t with place := .receive } }
  | .stamp =>
      { shared := s, own := { t with place := .send s.session }, record := [.stamped s.session] }
  | .send session =>
      if t.frame.kind = muxConsole then
        if session = 0 then
          let bytes := t.frame.data.toList.take t.frame.size
          { shared := s
            own := { t with place := .transmit bytes false 0 }
            record := [.raw bytes] }
        else encode i s { t with frame := { t.frame with session := session } }
      else if t.frame.session ≠ session then { shared := s, own := { t with place := .receive } }
      else encode i s t
  | .transmit bytes control sent =>
      if sent < bytes.length then
        let n := min i.written (bytes.length - sent)
        if 0 < n then
          { shared := s
            own := { t with place := .transmit bytes control (sent + n) }
            record := [.wrote ((bytes.drop sent).take n)] }
        else { shared := s, own := { t with place := .drop control } }
      else { shared := s, own := { t with place := .receive } }
  | .drop control => { shared := countDrop s control, own := { t with place := .receive } }
  | .lost => { shared := s, own := t }

end TxTask

inductive RxPlace
  | feed
  | unframed (b : UInt8)
  | stray (b : UInt8)
  | hello
  | reset
  | current
  | input (payload : List UInt8)
  | drop (payload : List UInt8)
  | request
  | enqueue (call : Enqueue)
  | lost

structure RxTask where
  decoder : MuxDecoder := .zeroed
  frame : MuxFrame
  bytes : List UInt8 := []
  place : RxPlace := .feed

namespace RxTask

/-- Where the loop goes with a decoded frame, or without one. -/
def placeOf (decoded : ℤ) (b : UInt8) (frame : MuxFrame) : RxPlace :=
  if decoded = 2 then .unframed b
  else if decoded ≠ 1 then .feed
  else if frame.kind = muxHello ∧ frame.request = 0 ∧ frame.size = 0 then .hello
  else .current

/-- A frame of the current session. -/
def dispatch (frame : MuxFrame) : RxPlace :=
  if frame.kind = muxConsole ∧ frame.request = 0 then .input (frame.data.toList.take frame.size)
  else if frame.kind = muxRequest ∧ frame.request ≠ 0 then .request
  else .feed

def turn (config : Config) (i : Inputs) (s : Shared) (t : RxTask) : Turn Shared Label RxTask :=
  match t.place with
  | .feed =>
      match t.bytes with
      | [] => { shared := s, own := { t with bytes := i.read.take 256 } }
      | b :: bytes =>
          { shared := s
            own :=
              match muxFeed t.decoder b t.frame with
              | none => { t with place := .lost }
              | some (decoded, decoder, frame) =>
                  { decoder := decoder, frame := frame, bytes := bytes
                    place := placeOf decoded b frame } }
  | .unframed b =>
      { shared := s, own := { t with place := if s.session = 0 then .stray b else .feed } }
  | .stray b =>
      { shared := { s with
          inputQueue := (queueSend inputCapacity s.inputQueue b).getD s.inputQueue }
        own := { t with place := .feed } }
  | .hello =>
      { shared := { s with session := t.frame.session }
        own := { t with place := .reset }
        record := [.accepted t.frame.session] }
  | .reset =>
      { shared := { s with inputQueue := [] }
        own :=
          match copyText t.frame.data config.identity with
          | none => { t with place := .lost }
          | some data =>
              let frame := { t.frame with
                kind := muxHelloAck, size := config.identity.length, data := data }
              { t with frame := frame, place := .enqueue (.send frame) } }
  | .current =>
      { shared := s
        own := { t with
          place := if t.frame.session = s.session then dispatch t.frame else .feed } }
  | .input [] => { shared := s, own := { t with place := .feed } }
  | .input (b :: payload) =>
      match queueSend inputCapacity s.inputQueue b with
      | some queue =>
          { shared := { s with inputQueue := queue }, own := { t with place := .input payload } }
      | none => { shared := s, own := { t with place := .drop payload } }
  | .drop payload => { shared := countDrop s true, own := { t with place := .input payload } }
  | .request =>
      match queueSend requestCapacity s.requestQueue t.frame with
      | some queue =>
          { shared := { s with requestQueue := queue }, own := { t with place := .feed } }
      | none =>
          { shared := s
            own := { t with
              place :=
                match protocolError i.print t.frame.session t.frame.request
                  "command queue full" with
                | none => .lost
                | some (.error _) => .feed
                | some (.ok frame) => .enqueue (.send frame) } }
  | .enqueue call =>
      { shared := (call.turn s).1
        own := { t with
          place :=
            match (call.turn s).2 with
            | .inl call => .enqueue call
            | .inr _ => .feed } }
  | .lost => { shared := s, own := t }

end RxTask

mutual
/-- `compatible_json_numbers`, on the tree of the parser. -/
def compatibleJsonNumbers : Value → Bool
  | .number n => n.interoperable
  | .array values => compatibleValues values
  | .object fields => compatibleFields fields
  | _ => true

def compatibleValues : List Value → Bool
  | [] => true
  | value :: values => compatibleJsonNumbers value && compatibleValues values

def compatibleFields : List (String × Value) → Bool
  | [] => true
  | (_, value) :: fields => compatibleJsonNumbers value && compatibleFields fields
end

inductive CommandTask
  | receive
  | check (frame : MuxFrame)
  | serve (frame : MuxFrame)
  | enqueue (call : Enqueue)
  | lost

namespace CommandTask

/-- A string ends in front of its first NUL. -/
def cString {n : ℕ} (text : Vector UInt8 n) : List UInt8 := text.toList.takeWhile (· ≠ 0)

/-- The reply to a parsed request. -/
def reply (i : Inputs) (frame : MuxFrame) (request : Option Value) :
    Option (Except EspErr MuxFrame) :=
  match request, request.bind (·.get "method") with
  | some request, some (.string method) =>
      if compatibleJsonNumbers request then
        match i.handler method (request.get "params") with
        | .error name => protocolError i.print frame.session frame.request name
        | .ok result =>
            match sendJson muxResponse frame.session frame.request
              (i.print (result.getD .null)) with
            | some (.error .invalidSize) =>
                protocolError i.print frame.session frame.request "response exceeds 1024 bytes"
            | sent => sent
      else protocolError i.print frame.session frame.request "invalid request"
  | _, _ => protocolError i.print frame.session frame.request "invalid request"

def serveFrame (i : Inputs) (frame : MuxFrame) : Option (Except EspErr MuxFrame) :=
  if compatibleJsonText (frame.data.toList.take frame.size) then do
    let text ← copy i.text 0 frame.data 0 frame.size
    let text ← store text frame.size 0
    reply i frame (i.parse (cString text))
  else
    protocolError i.print frame.session frame.request "unsupported JSON encoding or nesting"

def turn (i : Inputs) (s : Shared) (t : CommandTask) : Turn Shared Label CommandTask :=
  match t with
  | .receive =>
      match s.requestQueue with
      | [] => { shared := s, own := .receive }
      | frame :: queue => { shared := { s with requestQueue := queue }, own := .check frame }
  | .check frame =>
      { shared := s, own := if frame.session ≠ s.session then .receive else .serve frame }
  | .serve frame =>
      { shared := s
        own :=
          match serveFrame i frame with
          | none => .lost
          | some (.error _) => .receive
          | some (.ok frame) => .enqueue (.send frame) }
  | .enqueue call =>
      { shared := (call.turn s).1
        own :=
          match (call.turn s).2 with
          | .inl call => .enqueue call
          | .inr _ => .receive }
  | .lost => { shared := s, own := .lost }

end CommandTask

/-- A task that calls `idf_remote_publish` over and over. -/
inductive Publisher
  | idle (returned : EspErr)
  | publish (event : Value)
  | enqueue (call : Enqueue)
  | lost

def Publisher.turn (i : Inputs) (s : Shared) (t : Publisher) : Turn Shared Label Publisher :=
  match t with
  | .idle _ => { shared := s, own := .publish i.event }
  | .publish event =>
      { shared := s
        own :=
          if s.session = 0 then .idle .invalidState
          else
            match sendJson muxEvent s.session 0 (i.print event) with
            | none => .lost
            | some (.error e) => .idle e
            | some (.ok frame) => .enqueue (.send frame) }
  | .enqueue call =>
      { shared := (call.turn s).1
        own :=
          match (call.turn s).2 with
          | .inl call => .enqueue call
          | .inr returned => .idle returned }
  | .lost => { shared := s, own := .lost }

inductive WriterPlace
  | idle
  | copy
  | send
  | drop
  | give
  | lost

/-- A task that calls `console_write` over and over. -/
structure Writer where
  bytes : List UInt8 := []
  chunk : ConsoleChunk := .zeroed
  place : WriterPlace := .idle

/-- Behind a call of `enqueue_console`. -/
def Writer.restart (t : Writer) : Writer :=
  { t with chunk := { t.chunk with size := 0 }, place := .copy }

def Writer.turn (config : Config) (i : Inputs) (s : Shared) (t : Writer) :
    Turn Shared Label Writer :=
  match t.place with
  | .idle => { shared := s, own := { bytes := i.bytes, place := .copy } }
  | .copy =>
      { shared := s
        own :=
          match t.bytes with
          | [] => { t with place := if 0 < t.chunk.size then .send else .idle }
          | b :: bytes =>
              match t.chunk.translate config.ending b with
              | none => { t with place := .lost }
              | some chunk =>
                  { bytes := bytes, chunk := chunk
                    place := if 192 ≤ chunk.size then .send else .copy } }
  | .send =>
      match queueSend consoleCapacity s.consoleQueue t.chunk with
      | some queue =>
          { shared := { s with consoleQueue := queue }, own := { t with place := .give } }
      | none => { shared := s, own := { t with place := .drop } }
  | .drop => { shared := countDrop s false, own := t.restart }
  | .give => { shared := notifyGive s, own := t.restart }
  | .lost => { shared := s, own := t }

/-- A task that calls `console_read` over and over. -/
inductive Reader
  | idle (returned : Option (List UInt8))
  | first (size : ℕ)
  | more (size : ℕ) (bytes : List UInt8)

def Reader.turn (i : Inputs) (s : Shared) (t : Reader) : Turn Shared Label Reader :=
  match t with
  | .idle _ => { shared := s, own := if i.size = 0 then .idle (some []) else .first i.size }
  | .first size =>
      match s.inputQueue with
      | [] => { shared := s, own := if i.nonblocking then .idle none else .first size }
      | b :: queue => { shared := { s with inputQueue := queue }, own := .more size [b] }
  | .more size bytes =>
      if bytes.length < size then
        match s.inputQueue with
        | [] => { shared := s, own := .idle (some bytes) }
        | b :: queue =>
            { shared := { s with inputQueue := queue }, own := .more size (bytes ++ [b]) }
      else { shared := s, own := .idle (some bytes) }

inductive Task
  | tx
  | rx
  | command
  | publisher (n : ℕ)
  | writer (n : ℕ)
  | reader (n : ℕ)
deriving DecidableEq, Repr

abbrev Task.Own : Task → Type
  | .tx => TxTask
  | .rx => RxTask
  | .command => CommandTask
  | .publisher _ => Publisher
  | .writer _ => Writer
  | .reader _ => Reader

def turn (config : Config) : (task : Task) → Inputs → Shared → task.Own →
    Turn Shared Label task.Own
  | .tx => TxTask.turn
  | .rx => RxTask.turn config
  | .command => CommandTask.turn
  | .publisher _ => Publisher.turn
  | .writer _ => Writer.turn config
  | .reader _ => Reader.turn

/-- The buffers of the transmitter and the receiver start with arbitrary contents. -/
def start (outgoing : MuxFrame) (wire : Vector UInt8 muxMaxWire) (incoming : MuxFrame) :
    World Shared Label Task.Own where
  scene := { shared := {} }
  own
    | .tx => { frame := outgoing, wire := wire }
    | .rx => { frame := incoming }
    | .command => .receive
    | .publisher _ => .idle .ok
    | .writer _ => {}
    | .reader _ => .idle (some [])

end IdfRemote.Firmware
