import IdfRemote.AnsweredRequests

/-!
# What the transmitter writes

The driver takes text first, and from the first frame on pieces of frames only. Each
piece is of a frame on record, and the last one may still grow. With this, everything
that a board does in a run is traced back to what it has read.
-/
namespace IdfRemote.Firmware
open Interleaving MuxAgreement MuxCodec
open Mux (Frame Piece)

/-- What has been written: text, and behind it pieces of the frames on record. -/
structure Emits (record : List Label) (text : List UInt8) (done : List Piece) : Prop where
  output : record.flatMap Label.taken = text ++ done.flatMap Piece.bytes
  text : ∀ b ∈ text, ∃ bytes, .raw bytes ∈ record ∧ b ∈ bytes
  framed : ∀ p ∈ done, p.frame.Encodable ∧
    ∃ frame bytes, .framed frame bytes ∈ record ∧ p.frame = hostFrame frame

/-- What is being transmitted: text in front of all frames, or the last piece. -/
def TxTask.Writes (t : TxTask) (record : List Label) (done : List Piece) : Prop :=
  match t.place with
  | .transmit bytes _ sent =>
      (done = [] ∧ .raw bytes ∈ record) ∨
        ∃ before f, done = before ++ [⟨f, sent⟩] ∧ bytes = f.wire
  | _ => True

namespace Emits
variable {record : List Label} {text : List UInt8} {done : List Piece}

theorem empty : Emits [] [] [] where
  output := rfl
  text b hb := by cases hb
  framed p hp := by cases hp

theorem done_eq_nil (h : Emits record text done) (hnone : (ledger record).frames = []) :
    done = [] := by
  refine List.eq_nil_iff_forall_not_mem.mpr fun p hp => ?_
  obtain ⟨-, frame, bytes, hmem, -⟩ := h.framed p hp
  cases isFramed_of_frames_eq_nil hnone _ hmem

theorem text_append (h : Emits record text done) (more : List Label) :
    ∀ b ∈ text, ∃ bytes, .raw bytes ∈ record ++ more ∧ b ∈ bytes := by
  intro b hb
  obtain ⟨bytes, hmem, hb⟩ := h.text b hb
  exact ⟨bytes, List.mem_append_left more hmem, hb⟩

theorem framed_append (h : Emits record text done) (more : List Label) :
    ∀ p ∈ done, p.frame.Encodable ∧
      ∃ frame bytes, .framed frame bytes ∈ record ++ more ∧ p.frame = hostFrame frame := by
  intro p hp
  obtain ⟨hencodable, frame, bytes, hmem, hframe⟩ := h.framed p hp
  exact ⟨hencodable, frame, bytes, List.mem_append_left more hmem, hframe⟩

theorem note (h : Emits record text done) {label : Label} (hlabel : label.taken = []) :
    Emits (record ++ [label]) text done where
  output := by rw [List.flatMap_append, List.flatMap_singleton, hlabel, List.append_nil, h.output]
  text := h.text_append _
  framed := h.framed_append _

theorem frame (h : Emits record text done) {frame : MuxFrame} (bytes : List UInt8)
    (hframe : (hostFrame frame).Encodable) :
    Emits (record ++ [.framed frame bytes]) text (done ++ [⟨hostFrame frame, 0⟩]) where
  output := by
    rw [List.flatMap_append, List.flatMap_append, h.output, List.flatMap_singleton,
      List.flatMap_singleton, show (Label.framed frame bytes).taken = [] from rfl, Piece.bytes,
      List.take_zero, List.append_nil, List.append_nil]
  text := h.text_append _
  framed := by
    refine List.forall_mem_append.mpr ⟨h.framed_append _, fun p hp => ?_⟩
    rw [List.mem_singleton.mp hp]
    exact ⟨hframe, frame, bytes, List.mem_append_right _ List.mem_cons_self, rfl⟩

theorem wrote_text (h : Emits record text []) {bytes part : List UInt8}
    (hraw : .raw bytes ∈ record) (hpart : part ⊆ bytes) :
    Emits (record ++ [.wrote part]) (text ++ part) [] where
  output := by
    rw [List.flatMap_append, h.output, List.flatMap_singleton, Label.taken, List.flatMap_nil,
      List.append_nil, List.append_nil]
  text := by
    refine List.forall_mem_append.mpr ⟨h.text_append _, fun b hb => ?_⟩
    exact ⟨bytes, List.mem_append_left _ hraw, hpart hb⟩
  framed p hp := by cases hp

theorem wrote_piece {f : Frame} {sent : ℕ} (h : Emits record text (done ++ [⟨f, sent⟩])) (n : ℕ) :
    Emits (record ++ [.wrote ((f.wire.drop sent).take n)]) text (done ++ [⟨f, sent + n⟩]) where
  output := by
    rw [List.flatMap_append, h.output, List.flatMap_append, List.flatMap_append,
      List.flatMap_singleton, List.flatMap_singleton, List.flatMap_singleton, Label.taken,
      Piece.bytes, Piece.bytes, List.take_add]
    simp only [List.append_assoc]
  text := h.text_append _
  framed := by
    have hold := List.forall_mem_append.mp (h.framed_append [.wrote ((f.wire.drop sent).take n)])
    refine List.forall_mem_append.mpr ⟨hold.1, fun p hp => ?_⟩
    rw [List.mem_singleton.mp hp]
    exact hold.2 ⟨f, sent⟩ List.mem_cons_self

end Emits

namespace TxTask
variable {record : List Label} {text : List UInt8} {done : List Piece} {s : Shared}

theorem encode_emits (i : Inputs) (h : Emits record text done) {t : TxTask}
    (hsend : Sendable t.frame) (hne : t.frame.session ≠ 0) :
    ∃ done', Emits (record ++ (encode i s t).record) text done' ∧
      (encode i s t).own.Writes (record ++ (encode i s t).record) done' := by
  have hencodable := hostFrame_encodable ⟨hsend.size, hne⟩ hsend.kind
  obtain ⟨size, wire, hencode, hwire⟩ := muxEncode_hostFrame hsend.size hencodable i.body t.wire
  unfold encode
  rw [hencode]
  exact ⟨_, h.frame _ hencodable, .inr ⟨done, hostFrame t.frame, rfl, hwire⟩⟩

/-- What a turn of the transmitter adds to the output. -/
theorem turn_emits (i : Inputs) (hbooks : Books record s.session) {t : TxTask} (hsound : t.Sound)
    (hstamped : t.Stamped record) (h : Emits record text done) (hwrites : t.Writes record done) :
    ∃ text' done', Emits (record ++ (turn i s t).record) text' done' ∧
      (turn i s t).own.Writes (record ++ (turn i s t).record) done' := by
  obtain ⟨frame, wire, place⟩ := t
  have hsilent : Emits (record ++ []) text done := by rwa [List.append_nil]
  cases place with
  | receive =>
      unfold turn
      dsimp only
      split <;> exact ⟨text, done, hsilent, trivial⟩
  | console =>
      unfold turn
      dsimp only
      split
      · exact ⟨text, done, hsilent, trivial⟩
      · split <;> exact ⟨text, done, hsilent, trivial⟩
  | wait =>
      unfold turn
      dsimp only
      split_ifs <;> exact ⟨text, done, hsilent, trivial⟩
  | stamp => exact ⟨text, done, h.note rfl, trivial⟩
  | send session =>
      unfold turn
      dsimp only
      split_ifs with hkind hzero hsession
      · have hnone := h.done_eq_nil (hbooks.sound.frames_eq_nil (hzero ▸ hstamped))
        exact ⟨text, done, h.note rfl,
          .inl ⟨hnone, List.mem_append_right _ List.mem_cons_self⟩⟩
      · obtain ⟨done', hemits⟩ := encode_emits i h (s := s)
          (t := { frame := { frame with session := session }, wire, place := .send session })
          ⟨hsound.size, hsound.kind, fun hne => absurd hkind hne⟩ hzero
        exact ⟨text, done', hemits⟩
      · exact ⟨text, done, hsilent, trivial⟩
      · obtain ⟨done', hemits⟩ := encode_emits i h (s := s)
          (t := { frame := frame, wire := wire, place := .send session }) hsound
          (hsound.session hkind)
        exact ⟨text, done', hemits⟩
  | transmit bytes control sent =>
      unfold turn
      dsimp only
      split_ifs
      · rcases hwrites with ⟨rfl, hraw⟩ | ⟨before, f, rfl, rfl⟩
        · refine ⟨_, [], h.wrote_text hraw ?_, .inl ⟨rfl, List.mem_append_left _ hraw⟩⟩
          exact fun b hb => List.mem_of_mem_drop (List.mem_of_mem_take hb)
        · exact ⟨text, _, h.wrote_piece _, .inr ⟨before, f, rfl, rfl⟩⟩
      · exact ⟨text, done, hsilent, trivial⟩
      · exact ⟨text, done, hsilent, trivial⟩
  | drop control => exact ⟨text, done, hsilent, trivial⟩
  | lost => exact absurd hsound id

theorem Writes.note {t : TxTask} (h : t.Writes record done) (label : Label) :
    t.Writes (record ++ [label]) done := by
  obtain ⟨frame, wire, place⟩ := t
  cases place with
  | transmit bytes control sent =>
      exact h.imp_left fun hraw => ⟨hraw.1, List.mem_append_left _ hraw.2⟩
  | _ => trivial

end TxTask

/-- What holds of a board throughout: it has read and served this, and has written this. -/
structure Traced (read : List UInt8) (served : List (MuxFrame × Inputs)) (text : List UInt8)
    (done : List Piece) (w : Board) : Prop where
  common : Common w.scene
  relies : ∀ task, Relies task w.scene (w.own task)
  pipeline : Pipeline read served w
  received : ∀ p ∈ served, Received p.1
  replies : Replies served w
  emits : Emits w.scene.record text done
  writes : TxTask.Writes (w.own .tx) w.scene.record done

variable {read : List UInt8} {served : List (MuxFrame × Inputs)} {text : List UInt8}
  {done : List Piece}

theorem serves_received {task : Task} {t : task.Own} (h : task.Sound t) (i : Inputs) :
    ∀ p ∈ serves i task t, Received p.1 := by
  intro p hp
  cases task with
  | command =>
      cases t with
      | serve frame =>
          rw [List.mem_singleton.mp hp]
          exact h
      | _ => cases hp
  | _ => cases hp

theorem Traced.emits_next {w : Board} (h : Traced read served text done w) (config : Config)
    (task : Task) (i : Inputs) :
    ∃ text' done', Emits (w.next (turn config) (task, i)).scene.record text' done' ∧
      TxTask.Writes ((w.next (turn config) (task, i)).own .tx)
        (w.next (turn config) (task, i)).scene.record done' := by
  by_cases htx : task = .tx
  · subst htx
    rw [World.own_next_self]
    exact TxTask.turn_emits i h.common.2 (h.relies .tx).1 (h.relies .tx).2 h.emits h.writes
  · rw [World.own_next_of_ne _ w (Ne.symm htx)]
    rcases turn_cases_of_ne_tx config htx i w.scene.shared (h.relies task).sound with
        ⟨hrecord, -⟩ | ⟨x, -, hrecord, -⟩
    · refine ⟨text, done, ?_⟩
      rw [World.next, Scene.after, hrecord, List.append_nil]
      exact ⟨h.emits, h.writes⟩
    · refine ⟨text, done, ?_⟩
      rw [World.next, Scene.after, hrecord]
      exact ⟨h.emits.note rfl, h.writes.note _⟩

theorem Traced.next {w : Board} (h : Traced read served text done w) (config : Config)
    (task : Task) (i : Inputs) :
    ∃ text' done', Traced (read ++ reads i task (w.own task))
      (served ++ serves i task (w.own task)) text' done' (w.next (turn config) (task, i)) := by
  obtain ⟨text', done', hemits, hwrites⟩ := h.emits_next config task i
  obtain ⟨hcommon, hrelies⟩ := (harmony config).next h.common h.relies (task, i)
  exact ⟨text', done',
    { common := hcommon
      relies := hrelies
      pipeline := h.pipeline.next config task i
      received := List.forall_mem_append.mpr ⟨h.received, serves_received (h.relies task).sound i⟩
      replies := h.replies.next config task i
      emits := hemits
      writes := hwrites }⟩

theorem start_relies (outgoing : MuxFrame) (wire : Vector UInt8 muxMaxWire) (incoming : MuxFrame)
    (task : Task) : Relies task (start outgoing wire incoming).scene
      ((start outgoing wire incoming).own task) := by
  have hsound := (start_sound outgoing wire incoming).2 task
  by_cases htx : task = .tx
  · subst htx
    exact ⟨hsound, trivial⟩
  · exact relies_of_ne_tx htx hsound

theorem start_traced (outgoing : MuxFrame) (wire : Vector UInt8 muxMaxWire)
    (incoming : MuxFrame) : Traced [] [] [] [] (start outgoing wire incoming) where
  common := ⟨(start_sound outgoing wire incoming).1, .empty⟩
  relies := start_relies outgoing wire incoming
  pipeline :=
    { heard := ⟨[], rfl, matches_zeroed, List.Sublist.refl _, fun hplace => by cases hplace⟩
      kind := fun f hf => by cases hf }
  received p hp := by cases hp
  replies :=
    { queue := fun f hf => by cases hf
      own := fun task => by
        cases task with
        | tx => trivial
        | rx => exact fun call hcall => by cases hcall
        | command => exact fun call hcall => by cases hcall
        | publisher n => exact fun call hcall => by cases hcall
        | _ => trivial
      record := fun f bytes hf => by cases hf }
  emits := .empty
  writes := trivial

/-- A response on record was given to a served request, and carries what its handler returned. -/
theorem Traced.response {w : Board} (h : Traced read served text done w) {f : MuxFrame}
    {bytes : List UInt8} (hf : .framed f bytes ∈ w.scene.record) (hkind : f.kind = muxResponse) :
    ∃ p ∈ served, ∃ reply, Handled p.2 (hostFrame p.1).payload reply ∧
      hostFrame f = { kind := muxResponse, session := p.1.session, request := p.1.request
                      payload := reply } := by
  obtain ⟨p, hp, hserve⟩ := h.replies.record f bytes hf hkind
  obtain ⟨reply, hhandled, hframe⟩ := serveFrame_response (h.received p hp).size hserve hkind
  exact ⟨p, hp, reply, hhandled, hframe⟩

end IdfRemote.Firmware
