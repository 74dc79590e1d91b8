import IdfRemote.BoardOutput
import IdfRemote.Renegotiation
import IdfRemote.SentFrames

/-!
# A host and a board on one line

The scheduler of the host and the tasks of the board take their steps in any order. The
line carries what the driver of each side has accepted; it delivers this in pieces of any
size, and when the host gives up on the line, some of what is under way is lost in either
direction.
-/
namespace IdfRemote

/-- Unframed text does not have the byte with which the body of every frame begins. -/
def Firmware.Label.clean : Firmware.Label → Bool
  | .raw bytes => !bytes.contains 1
  | _ => true

namespace EndToEnd
open Interleaving MuxAgreement MuxCodec StreamMachine Application
open Mux (Decoder Frame Piece framesOf framesOf_append)
open Firmware (Board Inputs Label Task Traced Config)

/-- Both ends and what is under way, with what the board has read and served so far. -/
structure Link where
  host : Duplex := {}
  calls : List Call := []
  toBoard : List UInt8 := []
  board : Board
  read : List UInt8 := []
  toHost : List UInt8 := []
  served : List (MuxFrame × Inputs) := []

/-- Steps of the host, with the size of a read and with what survives on the line when the host
closes it; and turns of the tasks, with the number of bytes that have arrived by then. -/
inductive Step
  | request (key : String) (command : Option Command) (timeout : ℕ) (nonce : UInt64) (now : Clock)
  | input (key : String) (data : List UInt8) (timeout : ℕ) (result : Value) (now : Clock)
  | tick (io : Driver) (now : Clock)
  | receive (size : ℕ) (now : Clock)
  | abort (reason : String) (keep lose : ℕ)
  | turn (task : Task) (arrived : ℕ) (i : Inputs)

/-- The call of the scheduler in a step. -/
def Link.call (l : Link) : Step → Option Call
  | .request key command timeout nonce now => some (.startApplication key command timeout nonce now)
  | .input key data timeout result now => some (.startInput key data timeout result now)
  | .tick io now => some (.tick io now)
  | .receive size now => some (.feed (l.toHost.take size) now)
  | .abort reason _ _ => some (.abort reason)
  | .turn .. => none

namespace Link

def perform (serde : Serde) (l : Link) (call : Call) : Link :=
  { l with
    host := l.host.after serde call
    calls := l.calls ++ [call]
    toBoard := l.toBoard ++ l.host.portTook call }

def turn (config : Config) (l : Link) (task : Task) (i : Inputs) : Link :=
  let own := l.board.own task
  let seen := (Firmware.turn config task i l.board.scene.shared own).record
  { l with
    toBoard := l.toBoard.drop (Firmware.reads i task own).length
    board := l.board.next (Firmware.turn config) (task, i)
    read := l.read ++ Firmware.reads i task own
    toHost := l.toHost ++ seen.flatMap Label.taken
    served := l.served ++ Firmware.serves i task own }

def next (serde : Serde) (config : Config) (l : Link) (step : Step) : Link :=
  let l' := ((l.call step).map (l.perform serde)).getD l
  match step with
  | .receive size _ => { l' with toHost := l.toHost.drop size }
  | .abort _ keep lose =>
      { l' with toBoard := l.toBoard.take keep, toHost := l.toHost.drop lose }
  | .turn task arrived i => l.turn config task { i with read := l.toBoard.take arrived }
  | _ => l'

def run (serde : Serde) (config : Config) (l : Link) (steps : List Step) : Link :=
  steps.foldl (next serde config) l

/-- Console input is written with a session only. Without one its bytes are written as they are,
and may spell any frame. -/
def inputFramed (serde : Serde) (config : Config) : Link → List Step → Bool
  | _, [] => true
  | l, step :: steps =>
      (match step with
        | .input .. => l.host.session.isSome
        | _ => true) && inputFramed serde config (l.next serde config step) steps

/-- The requests that the board has served. -/
def executed (l : Link) : List Frame := l.served.map fun p => hostFrame p.1

/-- The completions that the host passes on in a step. -/
def completions (serde : Serde) (l : Link) (step : Step) : List Completion :=
  ((l.call step).map (l.host.completions serde)).getD []

end Link

/-- Both ends have just been started. -/
def fresh (outgoing : MuxFrame) (wire : Vector UInt8 muxMaxWire) (incoming : MuxFrame) : Link :=
  { board := Firmware.start outgoing wire incoming }

/-- What the decoder of the session has been fed is the last of what was written, up to what is
still under way. -/
def Hears (d : Duplex) (written toHost : List UInt8) : Prop :=
  ∃ since, since ++ toHost <:+ written ∧
    ∀ decoder, d.decoder = some decoder → decoder = (Decoder.machine.run {} since).1

namespace Hears
variable {serde : Serde} {d : Duplex} {written toHost : List UInt8}

theorem of_fresh {d' : Duplex} (h : Hears d written toHost)
    (hfresh : ∀ decoder, d'.decoder = some decoder → decoder = {}) : Hears d' written toHost := by
  obtain ⟨since, hsince, -⟩ := h
  exact ⟨[], (List.suffix_append since toHost).trans hsince, hfresh⟩

theorem call (h : Hears d written toHost) {call : Call} (hread : Duplex.received [call] = []) :
    Hears (d.after serde call) written toHost := by
  cases hreplaces : d.replaces call with
  | true =>
      refine h.of_fresh fun decoder hdecoder => ?_
      exact (Option.some.inj ((Duplex.decoder_replaced serde hreplaces).symm.trans hdecoder)).symm
  | false =>
      rcases Duplex.decoder_after serde d hread hreplaces with hnone | hsame
      · refine h.of_fresh fun decoder hdecoder => ?_
        rw [hnone] at hdecoder
        cases hdecoder
      · obtain ⟨since, hsince, hfed⟩ := h
        exact ⟨since, hsince, fun decoder hdecoder => hfed decoder (hsame ▸ hdecoder)⟩

theorem feed (h : Hears d written toHost) (size : ℕ) (now : Clock) :
    Hears (d.after serde (.feed (toHost.take size) now)) written (toHost.drop size) := by
  obtain ⟨since, hsince, hfed⟩ := h
  refine ⟨since ++ toHost.take size, ?_, fun decoder hdecoder => ?_⟩
  · rwa [List.append_assoc, List.take_append_drop]
  · rw [Duplex.after] at hdecoder
    rcases Duplex.decoder_feed serde d (toHost.take size) now with hnone | hmoved
    · rw [hnone] at hdecoder
      cases hdecoder
    · rw [hmoved] at hdecoder
      obtain ⟨before, hbefore, rfl⟩ := Option.map_eq_some_iff.mp hdecoder
      rw [Decoder.feed_decoder, hfed before hbefore, Machine.run_append]

theorem lose (h : Hears d written toHost) (n : ℕ) : Hears {} written (toHost.drop n) := by
  obtain ⟨since, hsince, -⟩ := h
  refine ⟨[], ?_, fun decoder hdecoder => by cases hdecoder⟩
  exact (List.drop_suffix n toHost).trans ((List.suffix_append since toHost).trans hsince)

theorem write (h : Hears d written toHost) (more : List UInt8) :
    Hears d (written ++ more) (toHost ++ more) := by
  obtain ⟨since, ⟨lead, hlead⟩, hfed⟩ := h
  exact ⟨since, ⟨lead, by rw [← hlead]; simp only [List.append_assoc]⟩, hfed⟩

end Hears

/-- What holds throughout: each side agrees with the line. -/
structure Keeps (serde : Serde) (l : Link) (sent : List Piece) (queue : List (List Frame))
    (text : List UInt8) (written : List Piece) : Prop where
  host : l.host = Duplex.runCalls serde l.calls
  sends : Duplex.Sends serde l.calls l.host (l.read ++ l.toBoard) sent queue
  board : Traced l.read l.served text written l.board
  hears : Hears l.host (l.board.scene.record.flatMap Label.taken) l.toHost

section
variable {serde : Serde} {config : Config} {l : Link} {sent : List Piece}
  {queue : List (List Frame)} {text : List UInt8} {written : List Piece}

theorem keeps_fresh (serde : Serde) (outgoing : MuxFrame) (wire : Vector UInt8 muxMaxWire)
    (incoming : MuxFrame) : Keeps serde (fresh outgoing wire incoming) [] [] [] [] where
  host := rfl
  sends := Duplex.sends_default serde
  board := Firmware.start_traced outgoing wire incoming
  hears := ⟨[], List.suffix_rfl, fun decoder hdecoder => by cases hdecoder⟩

/-- A call that sends frames only, and after which the host hears what is under way. -/
theorem Keeps.call (h : Keeps serde l sent queue text written) (call : Call)
    (hframed : l.host.SendsFrames call) (habort : ∀ reason, call ≠ .abort reason)
    {toHost : List UInt8} (hhears : Hears (l.host.after serde call)
      (l.board.scene.record.flatMap Label.taken) toHost) :
    ∃ sent' queue', Keeps serde { l.perform serde call with toHost := toHost }
      sent' queue' text written := by
  obtain ⟨sent', queue', hsends⟩ := h.sends.call h.host hframed habort
  rw [List.append_assoc] at hsends
  refine ⟨sent', queue', ?_, hsends, h.board, hhears⟩
  rw [Link.perform, Duplex.runCalls_concat, h.host]

theorem Keeps.abort (h : Keeps serde l sent queue text written) (reason : String)
    (keep lose : ℕ) : ∃ sent', Keeps serde
      { l.perform serde (.abort reason) with
        toBoard := l.toBoard.take keep, toHost := l.toHost.drop lose } sent' [] text written := by
  obtain ⟨sent', hsends⟩ := h.sends.abort reason (l.read.length + keep)
  rw [List.take_length_add_append] at hsends
  refine ⟨sent', ?_, hsends, h.board, h.hears.lose lose⟩
  rw [Link.perform, Duplex.runCalls_concat, h.host]

theorem reads_of_arrived (i : Inputs) (task : Task) (t : task.Own) :
    Firmware.reads i task t <+: i.read := by
  cases task with
  | rx =>
      obtain ⟨decoder, frame, bytes, place⟩ := t
      dsimp only [Firmware.reads]
      unfold Firmware.RxTask.reads
      split
      · exact List.take_prefix ..
      · exact List.nil_prefix
  | _ => exact List.nil_prefix

theorem Keeps.turn (h : Keeps serde l sent queue text written) (config : Config) (task : Task)
    (arrived : ℕ) (i : Inputs) : ∃ text' written', Keeps serde
      (l.turn config task { i with read := l.toBoard.take arrived }) sent queue text' written' := by
  generalize hi : { i with read := l.toBoard.take arrived } = j
  obtain ⟨text', written', hboard⟩ := h.board.next config task j
  have hreads : l.read ++ Firmware.reads j task (l.board.own task) ++
      l.toBoard.drop (Firmware.reads j task (l.board.own task)).length = l.read ++ l.toBoard := by
    obtain ⟨rest, hrest⟩ := (reads_of_arrived j task (l.board.own task)).trans
      (show j.read <+: l.toBoard from hi ▸ List.take_prefix ..)
    conv_rhs => rw [← hrest]
    rw [← hrest, List.drop_left, List.append_assoc]
  refine ⟨text', written', h.host, ?_, hboard, ?_⟩
  · have hsends := h.sends
    rwa [← hreads] at hsends
  · have hrecord : (l.board.next (Firmware.turn config) (task, j)).scene.record =
        l.board.scene.record ++
          (Firmware.turn config task j l.board.scene.shared (l.board.own task)).record := rfl
    have hwrite := h.hears.write
      ((Firmware.turn config task j l.board.scene.shared (l.board.own task)).record.flatMap
        Label.taken)
    rw [← List.flatMap_append] at hwrite
    exact hwrite

theorem Keeps.next (h : Keeps serde l sent queue text written) (config : Config) (step : Step)
    {steps : List Step} (hframed : l.inputFramed serde config (step :: steps) = true) :
    ∃ sent' queue' text' written', Keeps serde (l.next serde config step)
      sent' queue' text' written' := by
  cases step with
  | request key command timeout nonce now =>
      obtain ⟨sent', queue', hnext⟩ := h.call
        (.startApplication key command timeout nonce now) trivial
        (fun reason => Call.noConfusion) (h.hears.call rfl)
      exact ⟨sent', queue', text, written, hnext⟩
  | input key data timeout result now =>
      obtain ⟨hsession, -⟩ := Bool.and_eq_true_iff.mp hframed
      obtain ⟨sent', queue', hnext⟩ := h.call (.startInput key data timeout result now) hsession
        (fun reason => Call.noConfusion) (h.hears.call rfl)
      exact ⟨sent', queue', text, written, hnext⟩
  | tick io now =>
      obtain ⟨sent', queue', hnext⟩ := h.call (.tick io now) trivial
        (fun reason => Call.noConfusion) (h.hears.call rfl)
      exact ⟨sent', queue', text, written, hnext⟩
  | receive size now =>
      obtain ⟨sent', queue', hnext⟩ := h.call (.feed (l.toHost.take size) now) trivial
        (fun reason => Call.noConfusion) (h.hears.feed size now)
      exact ⟨sent', queue', text, written, hnext⟩
  | abort reason keep lose =>
      obtain ⟨sent', hnext⟩ := h.abort reason keep lose
      exact ⟨sent', [], text, written, hnext⟩
  | turn task arrived i =>
      obtain ⟨text', written', hnext⟩ := h.turn config task arrived i
      exact ⟨sent, queue, text', written', hnext⟩

theorem Keeps.run (h : Keeps serde l sent queue text written) (config : Config)
    {steps : List Step} (hframed : l.inputFramed serde config steps = true) :
    ∃ sent' queue' text' written', Keeps serde (l.run serde config steps)
      sent' queue' text' written' := by
  induction steps generalizing l sent queue text written with
  | nil => exact ⟨sent, queue, text, written, h⟩
  | cons step steps ih =>
      obtain ⟨sent', queue', text', written', hnext⟩ := h.next config step hframed
      exact ih hnext (Bool.and_eq_true_iff.mp hframed).2

theorem Keeps.executed_kind (h : Keeps serde l sent queue text written) :
    ∀ f ∈ l.executed, f.kind = Mux.request := by
  intro f hf
  obtain ⟨p, hp, rfl⟩ := List.mem_map.mp hf
  refine h.board.pipeline.kind p.1 ?_
  rw [List.append_assoc]
  exact List.mem_append_left _ (List.mem_map_of_mem hp)

/-- The requests that the board has served come, in this order, from the first part of the line. -/
theorem Keeps.executed_heard (h : Keeps serde l sent queue text written) :
    ∃ consumed rest, (sent ++ Duplex.begun l.host.tx queue).flatMap Piece.bytes =
      consumed ++ rest ∧ l.executed.Sublist (framesOf (Decoder.machine.run {} consumed).2) := by
  obtain ⟨consumed, hheard⟩ := h.board.pipeline.heard
  refine ⟨consumed, (l.board.own .rx).bytes ++ l.toBoard, ?_, List.Sublist.trans ?_ hheard.frames⟩
  · rw [← h.sends.line, hheard.read, List.append_assoc]
  · rw [List.append_assoc, List.append_assoc, List.map_append, List.map_map]
    exact List.sublist_append_left ..

theorem Keeps.executed (h : Keeps serde l sent queue text written) :
    List.SublistForall₂ Frame.Abridges l.executed (Duplex.requests serde l.calls) := by
  obtain ⟨consumed, rest, hline, hserved⟩ := h.executed_heard
  have hpieces := Decoder.run_pieces h.sends.encodable_all Decoder.wellFormed_default
    (Decoder.Idle.holds (.inl rfl))
  rw [hline, Machine.run_append, framesOf_append] at hpieces
  have hkinds := Thinning.filter (p := fun f => f.kind = Mux.request)
    (q := fun f => f.kind = Mux.request) (fun f g hfg => by rw [hfg.kind])
    (Thinning.sublist_left (hserved.trans (List.sublist_append_left ..)) hpieces)
  rw [List.filter_eq_self.mpr fun f hf => by simpa using h.executed_kind f hf] at hkinds
  exact Thinning.sublist_right hkinds h.sends.order_all

/-- As long as the line is not closed, the requests arrive as they are. -/
theorem Keeps.executed_whole (h : Keeps serde l sent queue text written)
    (hcalls : ∀ reason, .abort reason ∉ l.calls) :
    l.executed.Sublist (Duplex.requests serde l.calls) := by
  obtain ⟨consumed, rest, hline, hserved⟩ := h.executed_heard
  have hwhole : ∀ p ∈ (sent ++ Duplex.begun l.host.tx queue).dropLast, p.bytes = p.frame.wire := by
    intro p hp
    refine h.sends.whole hcalls p ?_
    unfold Duplex.begun at hp
    split at hp
    · rwa [List.dropLast_concat] at hp
    · rw [List.append_nil] at hp
      exact List.mem_of_mem_dropLast hp
  have hpieces := Decoder.run_whole_pieces_sublist h.sends.encodable_all hwhole
    Decoder.wellFormed_default rfl
  rw [hline, Machine.run_append, framesOf_append] at hpieces
  have hkinds := ((hserved.trans (List.sublist_append_left ..)).trans hpieces).filter
    fun f => f.kind = Mux.request
  rw [List.filter_eq_self.mpr fun f hf => by simpa using h.executed_kind f hf] at hkinds
  exact hkinds.trans h.sends.order_all

theorem keeps_run (serde : Serde) (config : Config) (outgoing : MuxFrame)
    (wire : Vector UInt8 muxMaxWire) (incoming : MuxFrame) (steps : List Step)
    (hframed : (fresh outgoing wire incoming).inputFramed serde config steps = true) :
    ∃ sent queue text written, Keeps serde ((fresh outgoing wire incoming).run serde config steps)
      sent queue text written :=
  (keeps_fresh serde outgoing wire incoming).run config hframed

/-- No number of a session is used for two requests. -/
theorem requests_distinct (serde : Serde) {calls : List Call}
    (hnonces : (Duplex.sessions serde calls).Nodup) :
    ((Duplex.requests serde calls).map fun f => (f.session, f.request)).Nodup := by
  refine Duplex.requests_nodup fun nonce => ?_
  obtain ⟨n, -, hids⟩ := (Duplex.counted_run serde calls hnonces).counted nonce
  rw [← Duplex.ids, hids]
  exact List.nodup_range'

end

/-- In whatever order the host and the tasks take their steps, and wherever the line is closed: the
board serves each request at most once and in the order in which the commands were given; what it
serves instead of one that was cut off has the same header and the start of its payload. While the
line is not closed it serves requests as they were made. -/
theorem served_in_order (serde : Serde) (config : Config) (outgoing : MuxFrame)
    (wire : Vector UInt8 muxMaxWire) (incoming : MuxFrame) (steps : List Step)
    (hframed : (fresh outgoing wire incoming).inputFramed serde config steps = true) :
    let l := (fresh outgoing wire incoming).run serde config steps
    List.SublistForall₂ Frame.Abridges l.executed (Duplex.requests serde l.calls) ∧
    ((∀ reason, .abort reason ∉ l.calls) →
      l.executed.Sublist (Duplex.requests serde l.calls)) ∧
    ((Duplex.sessions serde l.calls).Nodup →
      (l.executed.map fun f => (f.session, f.request)).Nodup) := by
  intro l
  obtain ⟨sent, queue, text, written, h⟩ :=
    keeps_run serde config outgoing wire incoming steps hframed
  refine ⟨h.executed, h.executed_whole, fun hnonces => ?_⟩
  have hnumbers := Thinning.map (f := fun f => (f.session, f.request))
    (g := fun f => (f.session, f.request))
    (fun f g hfg => by rw [hfg.session, hfg.request]) h.executed
  exact (requests_distinct serde hnonces).sublist hnumbers

def greeting : Config :=
  { identity := ascii "\x7b\"protocol\":1\x7d", identity_le := by decide, ending := .lf }

/-- The handler is asked for the status, and returns nothing. -/
def answering : Inputs :=
  { Firmware.plain with
    print := fun _ => some (ascii "null")
    parse := fun _ => some (.object [("method", .string "status"), ("params", .null)]) }

/-- The host connects and asks for the status; the board has answered, and the answer is on its
way. -/
def statusSteps : List Step :=
  let now : Clock := fun _ => 0
  [.request "connect" none 10 7 now, .tick Duplex.eager now] ++
    List.replicate 40 (.turn .rx 64 answering) ++ List.replicate 6 (.turn .tx 0 answering) ++
    [.receive 64 now, .request "first" (some statusCommand) 10 0 now, .tick Duplex.eager now] ++
    List.replicate 70 (.turn .rx 64 answering) ++ List.replicate 5 (.turn .command 0 answering) ++
    List.replicate 8 (.turn .tx 0 answering)

/-- A session has been negotiated when the input is written. -/
def typedSteps : List Step :=
  let now : Clock := fun _ => 0
  statusSteps ++ [.input "keys" (ascii "hi") 10 .null now, .tick Duplex.eager now] ++
    List.replicate 40 (.turn .rx 64 answering)

theorem served_in_order_typed :
    let l := (fresh Firmware.blank (.replicate _ 0) Firmware.blank).run statusSerde greeting
      typedSteps
    List.SublistForall₂ Frame.Abridges l.executed (Duplex.requests statusSerde l.calls) ∧
    ((∀ reason, .abort reason ∉ l.calls) →
      l.executed.Sublist (Duplex.requests statusSerde l.calls)) ∧
    ((Duplex.sessions statusSerde l.calls).Nodup →
      (l.executed.map fun f => (f.session, f.request)).Nodup) :=
  served_in_order statusSerde greeting Firmware.blank (.replicate _ 0) Firmware.blank typedSteps
    (by decide +kernel)

theorem prepareRequest_payload {serde : Serde} {s next : Session} {command : Command}
    {frame : Frame} (h : s.prepareRequest serde command = .ok (next, frame)) :
    payload serde command = .ok frame.payload := by
  unfold Session.prepareRequest at h
  cases hvalid : s.valid with
  | false =>
      rw [hvalid] at h
      cases h
  | true =>
      cases hpayload : payload serde command with
      | error e =>
          rw [hvalid, hpayload] at h
          cases h
      | ok bytes =>
          rw [hvalid, hpayload] at h
          by_cases hlast : s.nextRequest = 0xffffffff
          · rw [hlast] at h
            cases h
          · simp only [ensure_true, hlast, ne_eq, not_false_eq_true, decide_true] at h
            cases h
            rfl

theorem made_payload {serde : Serde} {d : Duplex} {key : String} {command : Command} {timeout : ℕ}
    {nonce : UInt64} {now : Clock} {frame : Frame}
    (h : d.made serde (.startApplication key (some command) timeout nonce now) = [frame]) :
    payload serde command = .ok frame.payload := by
  simp only [Duplex.made] at h
  split_ifs at h
  simp only [Duplex.prepare] at h
  cases hsession : d.session with
  | none =>
      rw [hsession] at h
      cases h
  | some session =>
      cases hprepare : session.prepareRequest serde command with
      | error e =>
          simp only [hsession, hprepare] at h
          cases h
      | ok prepared =>
          simp only [hsession, hprepare] at h
          obtain rfl := (List.cons.inj h).1
          exact prepareRequest_payload hprepare

theorem mem_framesOf {ds : List Mux.Decoded} {f : Frame} (h : .frame f ∈ ds) :
    f ∈ framesOf (ds.flatMap Mux.Decoded.events) := by
  refine List.mem_filterMap.mpr ⟨.frame f, ?_, rfl⟩
  exact List.mem_flatMap.mpr ⟨.frame f, h, List.mem_cons_self⟩

section
variable {serde : Serde} {config : Config} {l : Link} {sent : List Piece}
  {queue : List (List Frame)} {text : List UInt8} {written : List Piece}

/-- A response that the host decodes was given to a served request; at most its end is missing. -/
theorem Keeps.response (h : Keeps serde l sent queue text written)
    (hclean : ∀ label ∈ l.board.scene.record, label.clean = true) (size : ℕ) {reply : Frame}
    (hreply : .frame reply ∈ l.host.decoded (l.toHost.take size))
    (hkind : reply.kind = Mux.response) :
    ∃ p ∈ l.served, reply.session = (hostFrame p.1).session ∧
      reply.request = (hostFrame p.1).request ∧
      ∃ answer, Firmware.Handled p.2 (hostFrame p.1).payload answer ∧ reply.payload <+: answer := by
  obtain ⟨since, hsince, hfed⟩ := h.hears
  unfold Duplex.decoded at hreply
  cases hsession : l.host.session with
  | none =>
      rw [hsession] at hreply
      cases hreply
  | some session =>
      rw [hsession] at hreply
      have hdecoder := hfed session.decoder (by rw [Duplex.decoder, hsession, Option.map_some])
      have hmem := mem_framesOf hreply
      rw [Decoder.feed_events, hdecoder] at hmem
      have hall : reply ∈ framesOf (Decoder.machine.run {} (since ++ l.toHost.take size)).2 := by
        rw [Machine.run_append, framesOf_append]
        exact List.mem_append_right _ hmem
      have hline : since ++ l.toHost.take size <:+:
          text ++ written.flatMap Piece.bytes := by
        rw [← h.board.emits.output]
        exact ((List.prefix_append_right_inj since).mpr (List.take_prefix ..)).isInfix.trans
          hsince.isInfix
      have htext : 1 ∉ text := by
        intro hone
        obtain ⟨bytes, hraw, hin⟩ := h.board.emits.text 1 hone
        have hnone := hclean _ hraw
        simp [Firmware.Label.clean, hin] at hnone
      obtain ⟨piece, hpiece, habridges⟩ := Decoder.frames_of_infix htext
        (fun p hp => (h.board.emits.framed p hp).1) hline hall
      obtain ⟨-, frame, bytes, hframed, hframe⟩ := h.board.emits.framed piece hpiece
      rw [hframe] at habridges
      obtain ⟨p, hp, answer, hhandled, hanswer⟩ :=
        h.board.response hframed (habridges.kind.symm.trans hkind)
      rw [hanswer] at habridges
      exact ⟨p, hp, habridges.session, habridges.request, answer, hhandled, habridges.payload⟩

/-- The request that was served is the one with the same number, or the start of it. -/
theorem Keeps.executed_request (h : Keeps serde l sent queue text written)
    (hnonces : (Duplex.sessions serde l.calls).Nodup) {f request : Frame} (hf : f ∈ l.executed)
    (hrequest : request ∈ Duplex.requests serde l.calls) (hsession : f.session = request.session)
    (hnumber : f.request = request.request) :
    f.Abridges request ∧ ((∀ reason, .abort reason ∉ l.calls) → f = request) := by
  have hunique : ∀ g ∈ Duplex.requests serde l.calls, f.session = g.session →
      f.request = g.request → g = request := by
    intro g hg hgsession hgnumber
    refine List.inj_on_of_nodup_map (requests_distinct serde hnonces) hg hrequest ?_
    rw [← hgsession, ← hgnumber, hsession, hnumber]
  constructor
  · obtain ⟨g, hg, habridges⟩ := Thinning.mem_left h.executed hf
    rw [← hunique g hg habridges.session habridges.request]
    exact habridges
  · exact fun hcalls => hunique f ((h.executed_whole hcalls).subset hf) rfl rfl

theorem mem_completions {step : Step} {c : Completion} (hc : c ∈ l.completions serde step) :
    ∃ call, l.call step = some call ∧ c ∈ l.host.completions serde call := by
  unfold Link.completions at hc
  cases hcall : l.call step with
  | none =>
      rw [hcall] at hc
      cases hc
  | some call =>
      rw [hcall] at hc
      exact ⟨call, rfl, hc⟩

theorem receive_of_call {step : Step} {bytes : List UInt8} {now : Clock}
    (h : l.call step = some (.feed bytes now)) : ∃ size, bytes = l.toHost.take size := by
  cases step with
  | receive size _ =>
      cases h
      exact ⟨size, rfl⟩
  | _ => cases h

end

/-- The value is a result of the command that was given with this key: the board has served its
request, and the host has read the value in the output of the handler, of which the end may be
missing. The end of the request is missing only if the host has closed the line. -/
def Link.Returned (serde : Serde) (l : Link) (key : String) (value : Value) : Prop :=
  ∃ asked command frame p, Duplex.Asked serde l.calls asked command frame p ∧ p.key = key ∧
    ∀ given, command = some given → payload serde given = .ok frame.payload ∧
      ∃ q ∈ l.served, (hostFrame q.1).Abridges frame ∧
        ((∀ reason, .abort reason ∉ l.calls) → hostFrame q.1 = frame) ∧
        ∃ answer text, Firmware.Handled q.2 (hostFrame q.1).payload answer ∧ text <+: answer ∧
          serde.fromSlice text = .ok value

/-- In whatever order the host and the tasks take their steps, and wherever the line is closed:
when a command succeeds, the result is what the handler has returned for this very command. -/
theorem results_of_handlers (serde : Serde) (config : Config) (outgoing : MuxFrame)
    (wire : Vector UInt8 muxMaxWire) (incoming : MuxFrame) (steps : List Step) (step : Step)
    (hframed : (fresh outgoing wire incoming).inputFramed serde config steps = true)
    (hnonces : (Duplex.sessions serde
      ((fresh outgoing wire incoming).run serde config steps).calls).Nodup)
    (hclean : ∀ label ∈ ((fresh outgoing wire incoming).run serde config steps).board.scene.record,
      label.clean = true) :
    let l := (fresh outgoing wire incoming).run serde config steps
    ∀ c ∈ l.completions serde step, c.lane = .application → ∀ value, c.result = .ok value →
      l.Returned serde c.key value := by
  intro l c hc hlane value hresult
  obtain ⟨sent, queue, text, written, h⟩ :=
    keeps_run serde config outgoing wire incoming steps hframed
  obtain ⟨call, hcall, hdone⟩ := mem_completions hc
  obtain ⟨bytes, now, rfl⟩ := Duplex.feed_of_ok hdone hlane hresult
  obtain ⟨size, rfl⟩ := receive_of_call hcall
  obtain ⟨p, hp, hkey, -, hreply⟩ := Duplex.reply_of_feed hdone hresult
  rw [h.host] at hp
  obtain ⟨asked, command, frame, hawaits⟩ := Duplex.awaits_run serde l.calls hp
  refine ⟨asked, command, frame, p, hawaits.start, hkey, ?_⟩
  rintro given rfl
  obtain ⟨d, hnumbers⟩ := hawaits.numbers
  cases hnumbers with
  | command hkind hlast hcurrent hnext =>
      have hne : p.kind ≠ Mux.helloAck := by
        rw [hawaits.kind]
        exact (by decide : Mux.response ≠ Mux.helloAck)
      obtain ⟨reply, hmem, hnonce, hreplykind, hid, hvalue⟩ := hreply hne
      obtain ⟨q, hq, hsession, hnumber, answer, hhandled, htake⟩ :=
        h.response hclean size hmem (hreplykind.trans hawaits.kind)
      have hrequest : frame ∈ Duplex.requests serde l.calls :=
        List.mem_filter.mpr ⟨hawaits.start.mem_frames, by simpa using hkind⟩
      have hpayload : payload serde given = .ok frame.payload := by
        obtain ⟨before, timeout, nonce, now, since, -, -, hmade, -⟩ := hawaits.start
        exact made_payload hmade
      have hsame : reply.session = frame.session := by
        rw [h.host] at hnonce
        exact Option.some.inj (hnonce.symm.trans hawaits.session)
      have hown : reply.request = frame.request := by
        obtain ⟨-, -, -, -, -, -, -, -, hnumber, -⟩ := hawaits.start
        exact hid.trans hnumber
      obtain ⟨habridges, hwhole⟩ := h.executed_request hnonces (List.mem_map_of_mem hq) hrequest
        (hsession.symm.trans hsame) (hnumber.symm.trans hown)
      exact ⟨hpayload, q, hq, habridges, hwhole, answer, reply.payload, hhandled, htake, hvalue⟩

def statusLink : Link :=
  (fresh Firmware.blank (.replicate _ 0) Firmware.blank).run statusSerde greeting statusSteps

/-- Success without a value. -/
def succeeds (c : Completion) : Bool :=
  decide (c.lane = .application) &&
    match c.result with
    | .ok .null => true
    | _ => false

theorem results_of_handlers_status :
    ∃ c ∈ statusLink.completions statusSerde (.receive 64 fun _ => 0),
      statusLink.Returned statusSerde c.key .null := by
  have hdone :
      (statusLink.completions statusSerde (.receive 64 fun _ => 0)).any succeeds = true := by
    decide +kernel
  obtain ⟨c, hc, hsucceeds⟩ := List.any_eq_true.mp hdone
  obtain ⟨hlane, hresult⟩ : c.lane = .application ∧ c.result = .ok .null := by
    unfold succeeds at hsucceeds
    split at hsucceeds
    · next hresult => exact ⟨by simpa using hsucceeds, hresult⟩
    · simp at hsucceeds
  refine ⟨c, hc, ?_⟩
  exact results_of_handlers statusSerde greeting Firmware.blank (.replicate _ 0) Firmware.blank
    statusSteps (.receive 64 fun _ => 0) (by decide +kernel) (by decide +kernel) (by decide +kernel)
    c hc hlane .null hresult

end EndToEnd
end IdfRemote
