import IdfRemote.CodecBounds
import IdfRemote.ConsoleChunks
import IdfRemote.TransmitDrops

/-!
# What the firmware's tasks hand on

Every frame in the control queue is one that `mux_encode` accepts, with a session; frames
in the request queue carry a session and fit their buffer, and console chunks theirs. What
a task holds at a point of its loop is as good, so no task ever leaves an array.
-/
namespace IdfRemote.Firmware
open CArray Interleaving MuxAgreement MuxCodec
open Mux (Decoder Frame)
open TransmitDrops (Drops Port transmit taken)

/-- A frame of some session that the receiver has decoded. -/
structure Received (f : MuxFrame) : Prop where
  size : f.size ≤ muxMaxPayload
  session : f.session ≠ 0

/-- A frame for the control queue. -/
structure Queued (f : MuxFrame) : Prop extends Received f where
  kind : 1 ≤ f.kind ∧ f.kind ≤ 7
  control : f.kind ≠ muxConsole

theorem hostFrame_encodable {f : MuxFrame} (h : Received f) (hkind : 1 ≤ f.kind ∧ f.kind ≤ 7) :
    (hostFrame f).Encodable :=
  ⟨(List.length_take_le ..).trans h.size, hkind, h.session⟩

theorem copyText_isSome {n : ℕ} (dst : Vector UInt8 n) {text : List UInt8}
    (h : text.length ≤ n) : ∃ data, copyText dst text = some data := by
  cases text with
  | nil => exact ⟨dst, rfl⟩
  | cons b text =>
      have hvalue : ∀ i < (b :: text).length, (b :: text)[i]? = some ((b :: text).getD i b) := by
        intro i hi
        rw [List.getD, List.getElem?_eq_getElem hi, Option.getD_some]
      obtain ⟨data, hcopy, -⟩ := (holds_nil dst).storeLoop _ _ _ hvalue (by simpa using h)
      exact ⟨data, hcopy⟩

theorem copy_isSome {n m : ℕ} (dst : Vector UInt8 n) (src : Vector UInt8 m) {count : ℕ}
    (hm : count ≤ m) (hn : count ≤ n) : ∃ data, copy dst 0 src 0 count = some data := by
  obtain ⟨data, hcopy, -⟩ := (holds_nil dst).copy
    (show Holds src src.toList from List.prefix_rfl) 0 count (by simpa using hm) (by simpa using hn)
  exact ⟨data, hcopy⟩

/-- A call that keeps within its arrays and makes a frame for the control queue, or none. -/
def Composed (sent : Option (Except EspErr MuxFrame)) : Prop :=
  ∃ r, sent = some r ∧ ∀ f, r = .ok f → Queued f

theorem sendJson_composed {kind : UInt8} {session : UInt64} (request : UInt32)
    (text : Option (List UInt8)) (hkind : 1 ≤ kind ∧ kind ≤ 7) (hcontrol : kind ≠ muxConsole)
    (hsession : session ≠ 0) : Composed (sendJson kind session request text) := by
  cases text with
  | none => exact ⟨_, rfl, fun f h => by cases h⟩
  | some text =>
      rw [sendJson]
      split_ifs with hsize
      · obtain ⟨data, hdata⟩ := copyText_isSome (.replicate _ 0) hsize
        rw [hdata]
        refine ⟨_, rfl, ?_⟩
        rintro f ⟨⟩
        exact ⟨⟨hsize, hsession⟩, hkind, hcontrol⟩
      · exact ⟨_, rfl, fun f h => by cases h⟩

theorem protocolError_composed (print : Value → Option (List UInt8)) {session : UInt64}
    (request : UInt32) (message : String) (hsession : session ≠ 0) :
    Composed (protocolError print session request message) :=
  sendJson_composed request _ (by decide) (by decide) hsession

theorem reply_composed (i : Inputs) {frame : MuxFrame} (h : Received frame)
    (request : Option Value) : Composed (CommandTask.reply i frame request) := by
  have herror := fun message => protocolError_composed i.print frame.request message h.session
  unfold CommandTask.reply
  split
  · split_ifs
    · split
      · exact herror _
      · split
        · exact herror _
        · exact sendJson_composed _ _ (by decide) (by decide) h.session
    · exact herror _
  · exact herror _

theorem serveFrame_composed (i : Inputs) {frame : MuxFrame} (h : Received frame) :
    Composed (CommandTask.serveFrame i frame) := by
  have hsize := h.size
  unfold CommandTask.serveFrame
  split_ifs
  · obtain ⟨text, hcopy⟩ := copy_isSome i.text frame.data hsize (Nat.le_succ_of_le hsize)
    have hstore : store text frame.size 0 = some (text.set frame.size 0) :=
      dif_pos (Nat.lt_succ_of_le hsize)
    rw [hcopy]
    simp only [Option.bind_eq_bind, Option.bind_some, hstore]
    exact reply_composed i h _
  · exact protocolError_composed _ _ _ h.session

theorem complete_session {c : MuxDecoder} (h : complete c = some true) :
    ∃ session, get c.data 2 8 = some session ∧ session ≠ 0 := by
  unfold complete at h
  have hkind := (andThen_eq_true (andThen_eq_true h).2).2
  obtain ⟨session, hget, hne⟩ := Option.map_eq_some_iff.mp (andThen_eq_true
    (andThen_eq_true hkind).2).1
  exact ⟨session, hget, by simpa using hne⟩

/-- What the decoder hands on carries a session, and fits. -/
theorem muxFeed_received {d : Decoder} {c c' : MuxDecoder} (hd : Matches d c) {b : UInt8}
    {f f' : MuxFrame} (h : muxFeed c b f = some (1, c', f')) : Received f' := by
  obtain ⟨hcomplete, hread⟩ := muxFeed_one hd h
  obtain ⟨hsession, hsize⟩ := readFrame_fields hread
  obtain ⟨session, hget, hne⟩ := complete_session hcomplete
  refine ⟨?_, ?_⟩
  · have hle := hd.size_le
    rw [← hd.size] at hle
    simp only [Mux.maxBody, Mux.maxPayload] at hle
    rw [hsize]
    simp only [muxMaxPayload]
    omega
  · rw [hget] at hsession
    cases hsession
    exact hne

theorem muxFeed_sound {d : Decoder} {c : MuxDecoder} (h : Matches d c) (hd : d.WellFormed)
    (b : UInt8) (f : MuxFrame) :
    ∃ decoded c' f', muxFeed c b f = some (decoded, c', f') ∧
      (∃ d', Matches d' c' ∧ d'.WellFormed) ∧ (decoded = 1 → Received f') := by
  obtain ⟨⟨c', f'⟩, hstep, hmatch, hwf⟩ :=
    firmware_refines.step (s := d) (t := (c, f)) b ⟨h, hd⟩
  obtain ⟨⟨decoded, c'', f''⟩, hfeed, hsame⟩ := Option.map_eq_some_iff.mp hstep
  obtain ⟨rfl, rfl⟩ := Prod.mk.inj (congrArg Prod.fst hsame)
  refine ⟨decoded, c'', f'', hfeed, ⟨_, hmatch, hwf⟩, ?_⟩
  rintro rfl
  exact muxFeed_received h hfeed

structure Shared.Sound (s : Shared) : Prop where
  control : ∀ f ∈ s.controlQueue, Queued f
  console : ∀ chunk ∈ s.consoleQueue, chunk.size ≤ chunkCapacity
  request : ∀ f ∈ s.requestQueue, Received f

theorem queueSend_forall {β : Type} {P : β → Prop} {capacity : ℕ} {queue queue' : List β} {x : β}
    (h : queueSend capacity queue x = some queue') (hqueue : ∀ y ∈ queue, P y) (hx : P x) :
    ∀ y ∈ queue', P y := by
  unfold queueSend at h
  split_ifs at h with hroom
  cases h
  intro y hy
  rcases List.mem_append.mp hy with hold | hnew
  · exact hqueue y hold
  · rwa [List.mem_singleton.mp hnew]

def Enqueue.Sound : Enqueue → Prop
  | .send frame => Queued frame
  | _ => True

theorem Shared.Sound.countDrop {s : Shared} (h : s.Sound) (control : Bool) :
    (countDrop s control).Sound := by
  cases control <;> exact ⟨h.control, h.console, h.request⟩

theorem Shared.Sound.notifyGive {s : Shared} (h : s.Sound) : (notifyGive s).Sound :=
  ⟨h.control, h.console, h.request⟩

theorem Enqueue.turn_sound {s : Shared} (h : s.Sound) {call : Enqueue} (hcall : call.Sound) :
    (call.turn s).1.Sound ∧ ∀ rest, (call.turn s).2 = .inl rest → rest.Sound := by
  cases call with
  | send frame =>
      unfold Enqueue.turn
      dsimp only
      cases hsend : queueSend controlCapacity s.controlQueue frame with
      | some queue =>
          refine ⟨⟨queueSend_forall hsend h.control hcall, h.console, h.request⟩, ?_⟩
          rintro rest ⟨⟩
          trivial
      | none =>
          refine ⟨h, ?_⟩
          rintro rest ⟨⟩
          trivial
  | drop => exact ⟨h.countDrop true, fun rest hrest => by cases hrest⟩
  | give => exact ⟨h.notifyGive, fun rest hrest => by cases hrest⟩

/-- A frame that the transmitter may encode, once a console frame has its session. -/
structure Sendable (f : MuxFrame) : Prop where
  size : f.size ≤ muxMaxPayload
  kind : 1 ≤ f.kind ∧ f.kind ≤ 7
  session : f.kind ≠ muxConsole → f.session ≠ 0

def TxTask.Sound (t : TxTask) : Prop :=
  match t.place with
  | .stamp | .send _ => Sendable t.frame
  | .lost => False
  | _ => True

theorem TxTask.encode_sound (i : Inputs) {s : Shared} (hs : s.Sound) {t : TxTask}
    (h : Sendable t.frame) (hsession : t.frame.session ≠ 0) :
    (encode i s t).shared.Sound ∧ (encode i s t).own.Sound := by
  obtain ⟨size, wire, hencode, -⟩ :=
    muxEncode_hostFrame h.size (hostFrame_encodable ⟨h.size, hsession⟩ h.kind) i.body t.wire
  unfold encode
  rw [hencode]
  exact ⟨hs, trivial⟩

theorem TxTask.turn_sound (i : Inputs) {s : Shared} (hs : s.Sound) {t : TxTask} (h : t.Sound) :
    (turn i s t).shared.Sound ∧ (turn i s t).own.Sound := by
  obtain ⟨frame, wire, place⟩ := t
  cases place with
  | receive =>
      unfold turn
      dsimp only
      cases hqueue : s.controlQueue with
      | nil => exact ⟨hs, trivial⟩
      | cons f queue =>
          have hcontrol := hs.control
          rw [hqueue] at hcontrol
          have hf := hcontrol f List.mem_cons_self
          exact ⟨⟨fun g hg => hcontrol g (List.mem_cons_of_mem f hg), hs.console, hs.request⟩,
            hf.size, hf.kind, fun _ => hf.session⟩
  | console =>
      unfold turn
      dsimp only
      cases hqueue : s.consoleQueue with
      | nil => exact ⟨hs, trivial⟩
      | cons chunk queue =>
          have hconsole := hs.console
          rw [hqueue] at hconsole
          have hsize := hconsole chunk List.mem_cons_self
          have hle : chunk.size ≤ muxMaxPayload := hsize.trans (by decide)
          obtain ⟨data, hdata⟩ := copy_isSome frame.data chunk.data hsize hle
          dsimp only
          rw [hdata]
          exact ⟨⟨hs.control, fun c hc => hconsole c (List.mem_cons_of_mem chunk hc), hs.request⟩,
            hle, (by decide : 1 ≤ muxConsole ∧ muxConsole ≤ 7), fun hkind => absurd rfl hkind⟩
  | wait =>
      unfold turn
      dsimp only
      split_ifs
      · exact ⟨hs, trivial⟩
      · exact ⟨⟨hs.control, hs.console, hs.request⟩, trivial⟩
  | stamp => exact ⟨hs, h⟩
  | send session =>
      unfold turn
      dsimp only
      split_ifs with hkind hsession hsession
      · exact ⟨hs, trivial⟩
      · exact encode_sound i hs ⟨h.size, h.kind, fun hne => absurd hkind hne⟩ hsession
      · exact ⟨hs, trivial⟩
      · exact encode_sound i hs h (h.session hkind)
  | transmit bytes control sent =>
      unfold turn
      dsimp only
      split_ifs <;> exact ⟨hs, trivial⟩
  | drop control => exact ⟨hs.countDrop control, trivial⟩
  | lost => exact absurd h id

def RxTask.Sound (t : RxTask) : Prop :=
  (∃ d, Matches d t.decoder ∧ d.WellFormed) ∧
    match t.place with
    | .hello | .reset | .current | .request => Received t.frame
    | .enqueue call => call.Sound
    | .lost => False
    | _ => True

theorem RxTask.turn_sound (config : Config) (i : Inputs) {s : Shared} (hs : s.Sound) {t : RxTask}
    (h : t.Sound) : (turn config i s t).shared.Sound ∧ (turn config i s t).own.Sound := by
  obtain ⟨decoder, frame, bytes, place⟩ := t
  obtain ⟨hdecoder, hplace⟩ := h
  cases place with
  | feed =>
      unfold turn
      dsimp only
      cases bytes with
      | nil => exact ⟨hs, hdecoder, trivial⟩
      | cons b bytes =>
          obtain ⟨d, hmatch, hwf⟩ := hdecoder
          obtain ⟨decoded, decoder', frame', hfeed, hnext, hframe⟩ :=
            muxFeed_sound hmatch hwf b frame
          dsimp only at hfeed ⊢
          rw [hfeed]
          refine ⟨hs, hnext, ?_⟩
          dsimp only [placeOf]
          split_ifs with hraw hone hhello
          · trivial
          · trivial
          · exact hframe (not_not.mp hone)
          · exact hframe (not_not.mp hone)
  | unframed b =>
      unfold turn
      refine ⟨hs, hdecoder, ?_⟩
      dsimp only
      split_ifs <;> trivial
  | stray b => exact ⟨⟨hs.control, hs.console, hs.request⟩, hdecoder, trivial⟩
  | hello => exact ⟨⟨hs.control, hs.console, hs.request⟩, hdecoder, hplace⟩
  | reset =>
      obtain ⟨data, hdata⟩ := copyText_isSome frame.data config.identity_le
      unfold turn
      dsimp only
      rw [hdata]
      exact ⟨⟨hs.control, hs.console, hs.request⟩, hdecoder, ⟨config.identity_le, hplace.session⟩,
        (by decide : 1 ≤ muxHelloAck ∧ muxHelloAck ≤ 7), (by decide : muxHelloAck ≠ muxConsole)⟩
  | current =>
      unfold turn dispatch
      refine ⟨hs, hdecoder, ?_⟩
      dsimp only
      split_ifs
      · trivial
      · exact hplace
      · trivial
      · trivial
  | input payload =>
      cases payload with
      | nil => exact ⟨hs, hdecoder, trivial⟩
      | cons b payload =>
          unfold turn
          dsimp only
          split
          · exact ⟨⟨hs.control, hs.console, hs.request⟩, hdecoder, trivial⟩
          · exact ⟨hs, hdecoder, trivial⟩
  | drop payload => exact ⟨hs.countDrop true, hdecoder, trivial⟩
  | request =>
      unfold turn
      dsimp only
      cases hsend : queueSend requestCapacity s.requestQueue frame with
      | some queue =>
          exact ⟨⟨hs.control, hs.console, queueSend_forall hsend hs.request hplace⟩, hdecoder,
            trivial⟩
      | none =>
          obtain ⟨r, hr, hqueued⟩ := protocolError_composed i.print frame.request
            "command queue full" hplace.session
          dsimp only
          rw [hr]
          refine ⟨hs, hdecoder, ?_⟩
          cases r with
          | error e => trivial
          | ok f => exact hqueued f rfl
  | enqueue call =>
      obtain ⟨hshared, hrest⟩ := Enqueue.turn_sound hs hplace
      unfold turn
      refine ⟨hshared, hdecoder, ?_⟩
      dsimp only
      cases hturn : (call.turn s).2 with
      | inl rest => exact hrest rest hturn
      | inr returned => trivial
  | lost => exact absurd hplace id

def CommandTask.Sound : CommandTask → Prop
  | .check frame | .serve frame => Received frame
  | .enqueue call => call.Sound
  | .lost => False
  | .receive => True

theorem CommandTask.turn_sound (i : Inputs) {s : Shared} (hs : s.Sound) {t : CommandTask}
    (h : t.Sound) : (turn i s t).shared.Sound ∧ (turn i s t).own.Sound := by
  cases t with
  | receive =>
      unfold turn
      dsimp only
      cases hqueue : s.requestQueue with
      | nil => exact ⟨hs, trivial⟩
      | cons f queue =>
          have hrequest := hs.request
          rw [hqueue] at hrequest
          exact ⟨⟨hs.control, hs.console, fun g hg => hrequest g (List.mem_cons_of_mem f hg)⟩,
            hrequest f List.mem_cons_self⟩
  | check frame =>
      unfold turn
      refine ⟨hs, ?_⟩
      dsimp only
      split_ifs
      · trivial
      · exact h
  | serve frame =>
      obtain ⟨r, hr, hqueued⟩ := serveFrame_composed i h
      unfold turn
      dsimp only
      rw [hr]
      refine ⟨hs, ?_⟩
      cases r with
      | error e => trivial
      | ok f => exact hqueued f rfl
  | enqueue call =>
      obtain ⟨hshared, hrest⟩ := Enqueue.turn_sound hs h
      unfold turn
      refine ⟨hshared, ?_⟩
      dsimp only
      cases hturn : (call.turn s).2 with
      | inl rest => exact hrest rest hturn
      | inr returned => trivial
  | lost => exact absurd h id

def Publisher.Sound : Publisher → Prop
  | .enqueue call => call.Sound
  | .lost => False
  | _ => True

theorem Publisher.turn_sound (i : Inputs) {s : Shared} (hs : s.Sound) {t : Publisher}
    (h : t.Sound) : (turn i s t).shared.Sound ∧ (turn i s t).own.Sound := by
  cases t with
  | idle returned => exact ⟨hs, trivial⟩
  | publish event =>
      unfold turn
      refine ⟨hs, ?_⟩
      dsimp only
      split_ifs with hsession
      · trivial
      · obtain ⟨r, hr, hqueued⟩ := @sendJson_composed muxEvent s.session 0 (i.print event)
          (by decide) (by decide) hsession
        rw [hr]
        cases r with
        | error e => trivial
        | ok f => exact hqueued f rfl
  | enqueue call =>
      obtain ⟨hshared, hrest⟩ := Enqueue.turn_sound hs h
      unfold turn
      refine ⟨hshared, ?_⟩
      dsimp only
      cases hturn : (call.turn s).2 with
      | inl rest => exact hrest rest hturn
      | inr returned => trivial
  | lost => exact absurd h id

def Writer.Sound (t : Writer) : Prop :=
  match t.place with
  | .copy => t.chunk.size < 192
  | .send => t.chunk.size ≤ chunkCapacity
  | .lost => False
  | _ => True

theorem Writer.turn_sound (config : Config) (i : Inputs) {s : Shared} (hs : s.Sound) {t : Writer}
    (h : t.Sound) : (turn config i s t).shared.Sound ∧ (turn config i s t).own.Sound := by
  obtain ⟨bytes, chunk, place⟩ := t
  have hempty : (0 : ℕ) < 192 := by decide
  cases place with
  | idle => exact ⟨hs, hempty⟩
  | copy =>
      unfold turn
      refine ⟨hs, ?_⟩
      dsimp only
      cases bytes with
      | nil =>
          dsimp only
          split_ifs
          · exact (show chunk.size < 192 from h).le.trans (by decide)
          · trivial
      | cons b bytes =>
          obtain ⟨chunk', htranslate, hsize⟩ := translate_size config.ending h b
          dsimp only
          rw [htranslate]
          dsimp only
          split_ifs with hfull
          · exact hsize
          · exact not_le.mp hfull
  | send =>
      unfold turn
      dsimp only
      cases hsend : queueSend consoleCapacity s.consoleQueue chunk with
      | some queue =>
          exact ⟨⟨hs.control, queueSend_forall hsend hs.console h, hs.request⟩, trivial⟩
      | none => exact ⟨hs, trivial⟩
  | drop => exact ⟨hs.countDrop false, hempty⟩
  | give => exact ⟨hs.notifyGive, hempty⟩
  | lost => exact absurd h id

theorem Reader.turn_sound (i : Inputs) {s : Shared} (hs : s.Sound) (t : Reader) :
    (turn i s t).shared.Sound := by
  cases t with
  | idle returned => exact hs
  | first size =>
      unfold turn
      dsimp only
      split
      · exact hs
      · exact ⟨hs.control, hs.console, hs.request⟩
  | more size bytes =>
      unfold turn
      dsimp only
      split_ifs
      · split
        · exact hs
        · exact ⟨hs.control, hs.console, hs.request⟩
      · exact hs

def Task.Sound : (task : Task) → task.Own → Prop
  | .tx => TxTask.Sound
  | .rx => RxTask.Sound
  | .command => CommandTask.Sound
  | .publisher _ => Publisher.Sound
  | .writer _ => Writer.Sound
  | .reader _ => fun _ => True

/-- Every access stays in its array. -/
theorem turn_sound (config : Config) (task : Task) (i : Inputs) {s : Shared} (hs : s.Sound)
    {t : task.Own} (h : task.Sound t) :
    (turn config task i s t).shared.Sound ∧ task.Sound (turn config task i s t).own := by
  cases task with
  | tx => exact TxTask.turn_sound i hs h
  | rx => exact RxTask.turn_sound config i hs h
  | command => exact CommandTask.turn_sound i hs h
  | publisher n => exact Publisher.turn_sound i hs h
  | writer n => exact Writer.turn_sound config i hs h
  | reader n => exact ⟨Reader.turn_sound i hs t, trivial⟩

theorem start_sound (outgoing : MuxFrame) (wire : Vector UInt8 muxMaxWire) (incoming : MuxFrame) :
    (start outgoing wire incoming).scene.shared.Sound ∧
      ∀ task : Task, task.Sound ((start outgoing wire incoming).own task) := by
  refine ⟨⟨fun f hf => ?_, fun c hc => ?_, fun f hf => ?_⟩, fun task => ?_⟩
  · cases hf
  · cases hc
  · cases hf
  · cases task with
    | rx => exact ⟨⟨{}, matches_zeroed, Decoder.wellFormed_default⟩, trivial⟩
    | _ => trivial

def Shared.drops (s : Shared) : Drops :=
  { console := s.droppedConsole, control := s.droppedControl }

@[simp] theorem drops_countDrop (s : Shared) (control : Bool) :
    (countDrop s control).drops = TransmitDrops.countDrop s.drops control := by
  cases control <;> rfl

/-- What the driver has taken. -/
def Label.taken : Label → List UInt8
  | .wrote bytes => bytes
  | _ => []

/-- Turns of the transmitter alone, with the answers of the driver. -/
def TxTask.turns (i : Inputs) : Shared → TxTask → List ℕ → Turn Shared Label TxTask
  | s, t, [] => { shared := s, own := t }
  | s, t, n :: written =>
      let r := turn { i with written := n } s t
      let rest := turns i r.shared r.own written
      { rest with record := r.record ++ rest.record }

theorem TxTask.turns_wrote (i : Inputs) (s : Shared) (t : TxTask) {bytes : List UInt8}
    (control : Bool) {sent n : ℕ} (hpos : 0 < n) (hle : n ≤ bytes.length - sent)
    (written : List ℕ) :
    turns i s { t with place := .transmit bytes control sent } (n :: written) =
      { turns i s { t with place := .transmit bytes control (sent + n) } written with
        record := .wrote ((bytes.drop sent).take n) ::
          (turns i s { t with place := .transmit bytes control (sent + n) } written).record } := by
  have hlt : sent < bytes.length := by omega
  simp [turns, turn, hlt, Nat.min_eq_left hle, hpos]

/-- The turns from the start of a transmission to its end are the loop of `transmit`. -/
theorem TxTask.turns_transmit {σ : Type} (port : Port σ) (i : Inputs) (s : Shared) (t : TxTask)
    (bytes : List UInt8) (control : Bool) (sent : ℕ) (p : σ) :
    ∃ written, let r := turns i s { t with place := .transmit bytes control sent } written
      r.own.place = .receive ∧
      r.shared.drops = (transmit port bytes control sent p s.drops).2.2 ∧
      r.record.flatMap Label.taken = (taken port bytes sent p).flatten := by
  induction sent, p using IdfRemote.TransmitDrops.transmit.induct port bytes with
  | case1 sent p hlt hn ih =>
      obtain ⟨written, hplace, hdrops, htaken⟩ := ih
      have hbound := port.bounded p (bytes.drop sent)
      rw [List.length_drop] at hbound
      refine ⟨(port.write p (bytes.drop sent)).1.toNat :: written, ?_⟩
      rw [turns_wrote i s t control (by omega) (by omega), transmit, if_pos hlt, if_pos hn, taken,
        if_pos hlt, if_pos hn]
      refine ⟨hplace, hdrops, ?_⟩
      rw [List.flatMap_cons, htaken, Label.taken, List.flatten_cons]
  | case2 sent p hlt hn =>
      rw [transmit, if_pos hlt, if_neg hn]
      refine ⟨[0, 0], ?_⟩
      simp [turns, turn, hlt, taken, hn]
  | case3 sent p hge =>
      rw [transmit, if_neg hge]
      refine ⟨[0], ?_⟩
      simp [turns, turn, hge, taken]

end IdfRemote.Firmware
