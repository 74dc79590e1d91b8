import IdfRemote.Application
import IdfRemote.MuxAgreement

/-!
# Dropped firmware output

The transmit task encodes one frame after the other and hands the bytes to the
USB driver. When the driver stops taking bytes the rest of the frame is dropped,
so the host may receive any prefix of it before the next frame begins. Every
encoding starts with a delimiter, which ends whatever was cut off before it: the
host reports a corrupt frame at most, and never takes a remainder for unframed
output.
-/
namespace IdfRemote.TransmitDrops
open Mux MuxCodec MuxAgreement CArray StreamMachine Application

/-- `usb_serial_jtag_write_bytes`. A call takes no more than it is offered and may
answer differently each time; no positive answer is a timeout or a failure. -/
structure Port (σ : Type) where
  write : σ → List UInt8 → ℤ × σ
  bounded : ∀ s bytes, (write s bytes).1 ≤ bytes.length

structure Drops where
  console : UInt32 := 0
  control : UInt32 := 0

def countDrop (drops : Drops) (control : Bool) : Drops :=
  if control then { drops with control := drops.control + 1 }
  else { drops with console := drops.console + 1 }

/-- The state that outlives a turn of the transmit task. -/
structure Tx (σ : Type) where
  port : σ
  wire : Vector UInt8 muxMaxWire
  drops : Drops := {}

section Transmit
variable {σ : Type} (port : Port σ)

/-- The loop of `transmit`, with the count of bytes that were taken in the end. -/
def transmit (bytes : List UInt8) (control : Bool) (sent : ℕ) (s : σ) (drops : Drops) :
    ℕ × σ × Drops :=
  if sent < bytes.length then
    if 0 < (port.write s (bytes.drop sent)).1 then
      transmit bytes control (sent + (port.write s (bytes.drop sent)).1.toNat)
        (port.write s (bytes.drop sent)).2 drops
    else (sent, (port.write s (bytes.drop sent)).2, countDrop drops control)
  else (sent, s, drops)
termination_by bytes.length - sent

/-- What the port takes in the calls of this loop. -/
def taken (bytes : List UInt8) (sent : ℕ) (s : σ) : List (List UInt8) :=
  if sent < bytes.length then
    if 0 < (port.write s (bytes.drop sent)).1 then
      (bytes.drop sent).take (port.write s (bytes.drop sent)).1.toNat ::
        taken bytes (sent + (port.write s (bytes.drop sent)).1.toNat)
          (port.write s (bytes.drop sent)).2
    else []
  else []
termination_by bytes.length - sent

/-- What became of one frame: the bytes of its encoding, how many of them were counted in the end,
and what the port took. -/
structure Sent where
  frame : MuxFrame
  bytes : List UInt8
  count : ℕ
  taken : List (List UInt8)

def Sent.accepted (s : Sent) : List UInt8 := s.taken.flatten

/-- The whole encoding was taken. A frame that `mux_encode` refuses has none. -/
def Sent.complete (s : Sent) : Bool := 0 < s.bytes.length ∧ s.count = s.bytes.length

/-- One turn of `tx_task` with a frame to send. The local array of `mux_encode` starts with
arbitrary contents. -/
def turn (tx : Tx σ) (frame : MuxFrame) (body : Vector UInt8 muxMaxBody) :
    Option (Sent × Tx σ) := do
  let (size, wire) ← muxEncode frame body tx.wire
  let bytes := wire.toList.take size
  let (count, s, drops) := transmit port bytes (frame.kind ≠ console) 0 tx.port tx.drops
  return ({ frame, bytes, count, taken := taken port bytes 0 tx.port },
    { port := s, wire, drops })

def turns (tx : Tx σ) : List (MuxFrame × Vector UInt8 muxMaxBody) → Option (List Sent × Tx σ)
  | [] => some ([], tx)
  | (frame, body) :: rest => do
      let (sent, tx) ← turn port tx frame body
      let (sents, tx) ← turns tx rest
      return (sent :: sents, tx)

/-- The loop takes at most the whole encoding, and counts a drop exactly if it takes less. -/
theorem transmit_spec (bytes : List UInt8) (control : Bool) (sent : ℕ) (s : σ) (drops : Drops)
    (hsent : sent ≤ bytes.length) :
    (transmit port bytes control sent s drops).1 ≤ bytes.length ∧
      (transmit port bytes control sent s drops).2.2 =
        if (transmit port bytes control sent s drops).1 = bytes.length then drops
        else countDrop drops control := by
  induction sent, s using transmit.induct port bytes with
  | case1 sent s hlt hn ih =>
      have hbound := port.bounded s (bytes.drop sent)
      rw [List.length_drop] at hbound
      rw [transmit, if_pos hlt, if_pos hn]
      apply ih
      omega
  | case2 sent s hlt hn =>
      rw [transmit, if_pos hlt, if_neg hn]
      exact ⟨hsent, by rw [if_neg (by dsimp only; omega)]⟩
  | case3 sent s hge =>
      rw [transmit, if_neg hge]
      exact ⟨hsent, by rw [if_pos (by dsimp only; omega)]⟩

theorem le_transmit (bytes : List UInt8) (control : Bool) (sent : ℕ) (s : σ) (drops : Drops) :
    sent ≤ (transmit port bytes control sent s drops).1 := by
  induction sent, s using transmit.induct port bytes with
  | case1 sent s hlt hn ih =>
      rw [transmit, if_pos hlt, if_pos hn]
      exact (Nat.le_add_right ..).trans ih
  | case2 sent s hlt hn => rw [transmit, if_pos hlt, if_neg hn]
  | case3 sent s hge => rw [transmit, if_neg hge]

theorem taken_flatten (bytes : List UInt8) (control : Bool) (sent : ℕ) (s : σ) (drops : Drops) :
    (taken port bytes sent s).flatten =
      (bytes.drop sent).take ((transmit port bytes control sent s drops).1 - sent) := by
  induction sent, s using transmit.induct port bytes with
  | case1 sent s hlt hn ih =>
      rw [taken, transmit, if_pos hlt, if_pos hn, if_pos hlt, if_pos hn, List.flatten_cons, ih,
        ← List.drop_drop, ← List.take_add]
      have hle := le_transmit port bytes control
        (sent + (port.write s (bytes.drop sent)).1.toNat) (port.write s (bytes.drop sent)).2 drops
      congr 1
      omega
  | case2 sent s hlt hn => simp [taken, transmit, hlt, hn]
  | case3 sent s hge => simp [taken, transmit, hge]

end Transmit

/-- A prefix of the host's encoding of the frame, or nothing of a refused frame. -/
structure Sent.Prefix (s : Sent) : Prop where
  count_le : s.count ≤ s.bytes.length
  accepted : s.accepted = s.bytes.take s.count
  bytes : s.bytes = [] ∨ (hostFrame s.frame).Encodable ∧ s.bytes = (hostFrame s.frame).wire

variable {σ : Type} (port : Port σ)

theorem muxEncode_bytes (frame : MuxFrame) (body : Vector UInt8 muxMaxBody)
    (wire : Vector UInt8 muxMaxWire) :
    ∃ size wire', muxEncode frame body wire = some (size, wire') ∧
      (wire'.toList.take size = [] ∨
        (hostFrame frame).Encodable ∧ wire'.toList.take size = (hostFrame frame).wire) := by
  by_cases href : frame.size > muxMaxPayload ∨ frame.session = 0 ∨ frame.kind < 1 ∨
      frame.kind > 7
  · exact ⟨0, wire, if_pos href, .inl rfl⟩
  · have hsize : frame.size ≤ muxMaxPayload := by omega
    have hf : (hostFrame frame).Encodable := not_not.mp fun hf =>
      href ((refuses_iff (represents_hostFrame hsize)).mpr hf)
    obtain ⟨size, wire', henc, hwire⟩ := muxEncode_hostFrame hsize hf body wire
    exact ⟨size, wire', henc, .inr ⟨hf, hwire⟩⟩

theorem turn_prefix (tx : Tx σ) (frame : MuxFrame) (body : Vector UInt8 muxMaxBody) :
    ∃ sent tx', turn port tx frame body = some (sent, tx') ∧ sent.frame = frame ∧
      sent.Prefix := by
  obtain ⟨size, wire', henc, hbytes⟩ := muxEncode_bytes frame body tx.wire
  have hspec := transmit_spec port (wire'.toList.take size) (frame.kind ≠ console) 0 tx.port
    tx.drops (Nat.zero_le _)
  refine ⟨_, _, by rw [turn, henc]; rfl, rfl, ?_⟩
  exact ⟨hspec.1, taken_flatten port _ (frame.kind ≠ console) 0 tx.port tx.drops, hbytes⟩

theorem turns_prefix (tx : Tx σ) (frames : List (MuxFrame × Vector UInt8 muxMaxBody)) :
    ∃ sents tx', turns port tx frames = some (sents, tx') ∧
      sents.map Sent.frame = frames.map Prod.fst ∧ ∀ s ∈ sents, s.Prefix := by
  induction frames generalizing tx with
  | nil => exact ⟨[], tx, rfl, rfl, by simp⟩
  | cons entry rest ih =>
      obtain ⟨frame, body⟩ := entry
      obtain ⟨sent, tx₁, hturn, hframe, hsent⟩ := turn_prefix port tx frame body
      obtain ⟨sents, tx₂, hturns, hframes, hsents⟩ := ih tx₁
      refine ⟨sent :: sents, tx₂, by simp [turns, hturn, hturns], ?_, ?_⟩
      · rw [List.map_cons, List.map_cons, hframe, hframes]
      · exact List.forall_mem_cons.mpr ⟨hsent, hsents⟩

def Mux.Event.frame? : Mux.Event → Option Frame
  | .frame f => some f
  | _ => none

def Decoded.frame? : Decoded → Option Frame
  | .frame f => some f
  | _ => none

/-- A delimiter completes something or nothing, but never unframed output. -/
theorem finish_no_raw (d : Decoder) : ∀ b, Mux.Event.raw b ∉ d.finish.flatMap Decoded.events := by
  intro b
  unfold Decoder.finish
  split_ifs
  · simp [Decoded.events]
  · cases Frame.decode d.body <;> simp [Decoded.events]
  · simp
  · simp

/-- A prefix of an encoding emits a prefix of what the whole encoding emits: the end of what
was there before, and then the frame. -/
theorem run_prefix {f : Frame} (hf : f.Encodable) {d : Decoder} (hd : d.WellFormed) (n : ℕ) :
    (Decoder.machine.run d (f.wire.take n)).2 <+:
      d.finish.flatMap Decoded.events ++ [.frame f] := by
  have hwhole := Decoder.run_wire hf hd
  rw [Decoder.step_delimiter hd] at hwhole
  nth_rewrite 1 [← List.take_append_drop n f.wire] at hwhole
  rw [Machine.run_append] at hwhole
  exact ⟨_, congrArg Prod.snd hwhole⟩

/-- The frame of a complete transmission. -/
def Sent.received (s : Sent) : Option Frame :=
  if s.complete then some (hostFrame s.frame) else none

theorem Sent.Prefix.run {s : Sent} (h : s.Prefix) {d : Decoder} (hd : d.WellFormed) :
    (∀ b, Mux.Event.raw b ∉ (Decoder.machine.run d s.accepted).2) ∧
      s.received.toList.Sublist
        ((Decoder.machine.run d s.accepted).2.filterMap Mux.Event.frame?) := by
  rcases h.bytes with hnil | ⟨hf, hwire⟩
  · simp [h.accepted, Sent.received, Sent.complete, hnil]
  · have hprefix := run_prefix hf hd s.count
    rw [h.accepted, hwire]
    constructor
    · intro b hb
      have := hprefix.subset hb
      simp [finish_no_raw d b] at this
    · unfold Sent.received Sent.complete
      split
      · rename_i hcomplete
        have hcount : s.count = (hostFrame s.frame).wire.length := by
          have := of_decide_eq_true hcomplete
          rw [← hwire]
          exact this.2
        rw [hcount, List.take_length, Decoder.run_wire hf hd]
        simp [Mux.Event.frame?]
      · simp

theorem run_sents {sents : List Sent} (h : ∀ s ∈ sents, s.Prefix) {d : Decoder}
    (hd : d.WellFormed) :
    (∀ b, Mux.Event.raw b ∉ (Decoder.machine.run d (sents.flatMap Sent.accepted)).2) ∧
      (sents.filterMap Sent.received).Sublist
        ((Decoder.machine.run d (sents.flatMap Sent.accepted)).2.filterMap Mux.Event.frame?) := by
  induction sents generalizing d with
  | nil => simp
  | cons s sents ih =>
      have hfirst := (h s List.mem_cons_self).run hd
      have hrest := ih (fun t ht => h t (List.mem_cons_of_mem _ ht))
        (Decoder.wellFormed_run s.accepted hd)
      rw [List.flatMap_cons, Machine.run_append]
      constructor
      · intro b hb
        rcases List.mem_append.mp hb with hb | hb
        · exact hfirst.1 b hb
        · exact hrest.1 b hb
      · have hsplit : (s :: sents).filterMap Sent.received =
            s.received.toList ++ sents.filterMap Sent.received := by
          cases hr : s.received <;> simp [hr]
        rw [hsplit, List.filterMap_append]
        exact hfirst.2.append hrest.2

theorem frames_events (items : List Decoded) :
    (items.flatMap Decoded.events).filterMap Mux.Event.frame? = items.filterMap Decoded.frame? := by
  induction items with
  | nil => rfl
  | cons item items ih =>
      rw [List.flatMap_cons, List.filterMap_append, ih]
      cases item with
      | frame f => rfl
      | corrupt => rfl
      | raw data =>
          have hraw : (data.map Mux.Event.raw).filterMap Mux.Event.frame? = [] := by
            simp [List.filterMap_eq_nil_iff, Mux.Event.frame?]
          rw [Decoded.events, hraw]
          rfl

theorem feedAll_sents {sents : List Sent} (h : ∀ s ∈ sents, s.Prefix) {d : Decoder}
    (hd : d.WellFormed) {cs : List (List UInt8)} (hcs : cs.flatten = sents.flatMap Sent.accepted) :
    (∀ data, Decoded.raw data ∉ (d.feedAll cs).2) ∧
      (sents.filterMap Sent.received).Sublist ((d.feedAll cs).2.filterMap Decoded.frame?) := by
  have hevents := (Decoder.feedAll_refines d cs).2
  have hrun := run_sents h hd
  rw [← hcs, ← hevents] at hrun
  constructor
  · intro data hdata
    cases data with
    | nil => exact Decoder.feedAll_ne_raw d cs _ hdata rfl
    | cons b data =>
        apply hrun.1 b
        exact List.mem_flatMap.mpr ⟨_, hdata, by simp [Decoded.events]⟩
  · rw [frames_events] at hrun
    exact hrun.2

/-- Successive calls of `process` on the reads of one stream. -/
def processAll (serde : Serde) : Session → List (List UInt8 × Expected) →
    Session × List (Result (Option (Result Value)))
  | s, [] => (s, [])
  | s, (bytes, expected) :: rest =>
      let r := s.process serde bytes expected
      let t := processAll serde r.1 rest
      (t.1, r.2.2 :: t.2)

def resetError : Error := .msg "application session ended by unframed output; connect again"

/-- Without unframed output the loop ends with the flag it started with, or with another
failure. -/
theorem items_quiet (serde : Serde) (s : Session) (expected : Expected) {ds : List Decoded}
    (h : ∀ data, Decoded.raw data ∉ ds) (reply : Option (Result Value)) (reset : Bool) :
    (∃ reply', (s.items serde expected ds reply reset).2 = .ok (reply', reset)) ∨
      ∃ e, (s.items serde expected ds reply reset).2 = .error e ∧ e ≠ resetError := by
  induction ds generalizing reply with
  | nil => exact .inl ⟨reply, rfl⟩
  | cons item ds ih =>
      have ih := ih fun data hd => h data (List.mem_cons_of_mem _ hd)
      cases item with
      | raw data => exact absurd List.mem_cons_self (h data)
      | corrupt => exact ih reply
      | frame f =>
          simp only [Session.items]
          split
          · exact ih reply
          · split
            · split
              · exact .inr ⟨_, rfl, by simp [Error.context, resetError, Error.msg]⟩
              · exact ih _
            · split
              · exact ih reply
              · split <;> exact ih reply

theorem process_quiet (serde : Serde) (s : Session) (bytes : List UInt8) (expected : Expected)
    (h : ∀ data, Decoded.raw data ∉ (s.decoder.feed bytes).2) :
    (s.process serde bytes expected).1 = { s with decoder := (s.decoder.feed bytes).1 } ∧
      (s.process serde bytes expected).2.2 ≠ .error resetError := by
  have hitems := items_quiet serde s expected h none false
  rcases hr : s.items serde expected (s.decoder.feed bytes).2 none false with ⟨outputs, result⟩
  rw [hr] at hitems
  rcases hitems with ⟨reply, rfl⟩ | ⟨e, rfl, he⟩
  · simp [Session.process, hr]
  · simpa [Session.process, hr] using he

theorem processAll_quiet (serde : Serde) (s : Session) (reads : List (List UInt8 × Expected))
    (h : ∀ data, Decoded.raw data ∉ (s.decoder.feedAll (reads.map Prod.fst)).2) :
    (processAll serde s reads).1.valid = s.valid ∧
      ∀ r ∈ (processAll serde s reads).2, r ≠ .error resetError := by
  induction reads generalizing s with
  | nil => simp [processAll]
  | cons read reads ih =>
      simp only [List.map_cons, Decoder.feedAll, List.mem_append, not_or] at h
      have hfirst := process_quiet serde s read.1 read.2 fun data => (h data).1
      have hrest := ih (s.process serde read.1 read.2).1 fun data => by
        rw [hfirst.1]
        exact (h data).2
      constructor
      · rw [processAll, hrest.1, hfirst.1]
      · intro r hr
        rcases List.mem_cons.mp hr with rfl | hr
        · exact hfirst.2
        · exact hrest.2 r hr

/-- Whatever the driver takes of each encoding, a host that has just received a complete frame
reads no unframed output from the line and receives every complete transmission in order; a
valid session stays valid. -/
theorem drops_never_reset (port : Port σ) (tx : Tx σ)
    (frames : List (MuxFrame × Vector UInt8 muxMaxBody)) :
    ∃ sents tx', turns port tx frames = some (sents, tx') ∧
      sents.map Sent.frame = frames.map Prod.fst ∧
      ∀ (p w : List UInt8) (g : Frame) (before cs : List (List UInt8)), g.encode = .ok w →
        before.flatten = p ++ w → cs.flatten = sents.flatMap Sent.accepted →
        (∀ data, Decoded.raw data ∉ ((Decoder.feedAll {} before).1.feedAll cs).2) ∧
        (sents.filterMap Sent.received).Sublist
          (((Decoder.feedAll {} before).1.feedAll cs).2.filterMap Decoded.frame?) ∧
        ∀ (serde : Serde) (s : Session) (reads : List (List UInt8 × Expected)),
          s.decoder = (Decoder.feedAll {} before).1 → s.valid = true →
          reads.map Prod.fst = cs →
          (processAll serde s reads).1.valid = true ∧
            ∀ r ∈ (processAll serde s reads).2, r ≠ .error resetError := by
  obtain ⟨sents, tx', hturns, hframes, hprefix⟩ := turns_prefix port tx frames
  refine ⟨sents, tx', hturns, hframes, fun p w g before cs _ _ hcs => ?_⟩
  have hd : (Decoder.feedAll {} before).1.WellFormed := by
    rw [(Decoder.feedAll_refines {} before).1]
    exact Decoder.wellFormed_run _ Decoder.wellFormed_default
  have hquiet := feedAll_sents hprefix hd hcs
  refine ⟨hquiet.1, hquiet.2, fun serde s reads hs hvalid hreads => ?_⟩
  subst hreads
  have hall := processAll_quiet serde s reads (by rw [hs]; exact hquiet.1)
  exact ⟨hall.1.trans hvalid, hall.2⟩

/-- A driver that takes three bytes of the first slice, nothing of the second, and after that
whatever it is offered. -/
def stalling : Port ℕ where
  write
    | 0, bytes => (min 3 bytes.length, 1)
    | 1, _ => (0, 2)
    | n + 2, bytes => (bytes.length, n + 2)
  bounded := by
    intro s bytes
    rcases s with _ | _ | s
    · exact Int.min_le_right _ _
    · exact Int.natCast_nonneg _
    · exact le_rfl

def silent : Serde :=
  { toVec := fun _ => .ok [], fromSlice := fun _ => .ok .null, display := fun _ => "" }

/-- The first of two frames is cut in its header, and the host reads the rest in one piece. -/
theorem drops_never_reset_stalling :
    ∃ sents tx', turns stalling { port := 0, wire := .replicate _ 0 }
        [(emptyHello, .replicate _ 0), (emptyHello, .replicate _ 0)] = some (sents, tx') ∧
      (∀ data, Decoded.raw data ∉ ((Decoder.feedAll {} [helloFrame.wire]).1.feedAll
        [sents.flatMap Sent.accepted]).2) ∧
      (sents.filterMap Sent.received).Sublist (((Decoder.feedAll {} [helloFrame.wire]).1.feedAll
        [sents.flatMap Sent.accepted]).2.filterMap Decoded.frame?) ∧
      (processAll silent
        { nonce := 1, decoder := (Decoder.feedAll {} [helloFrame.wire]).1, valid := true }
        [(sents.flatMap Sent.accepted, none)]).1.valid = true := by
  obtain ⟨sents, tx', hturns, -, h⟩ := drops_never_reset stalling
    { port := 0, wire := .replicate _ 0 }
    [(emptyHello, .replicate _ 0), (emptyHello, .replicate _ 0)]
  have hquiet := h [] helloFrame.wire helloFrame [helloFrame.wire] [sents.flatMap Sent.accepted]
    (Frame.encode_eq_ok.mpr ⟨by decide, rfl⟩) (by simp) (by simp)
  generalize (Decoder.feedAll {} [helloFrame.wire]).1 = d at hquiet ⊢
  have hsession := hquiet.2.2 silent { nonce := 1, decoder := d, valid := true }
    [(sents.flatMap Sent.accepted, none)] rfl rfl rfl
  exact ⟨sents, tx', hturns, hquiet.1, hquiet.2.1, hsession.1⟩

end IdfRemote.TransmitDrops
