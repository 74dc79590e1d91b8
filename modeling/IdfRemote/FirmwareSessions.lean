import IdfRemote.FirmwareFrames

/-!
# Sessions on the wire

The transmitter reads the session word once for what it has at hand. The word only ever
moves on from one accepted session to the next, and only the transmitter puts frames on
the wire; so the sessions of its frames follow the order in which they were accepted, and
no unframed byte follows a frame.
-/
namespace IdfRemote.Firmware
open Interleaving MuxAgreement MuxCodec
open Mux (Frame)

/-- The sessions in the order of their acceptance, how many there were when the transmitter last
read the session word, and the session of each transmitted frame with this number. -/
structure Ledger where
  accepted : List UInt64 := []
  stamp : ℕ := 0
  frames : List (ℕ × UInt64) := []
deriving DecidableEq, Repr

def Ledger.note (l : Ledger) : Label → Ledger
  | .accepted session => { l with accepted := l.accepted ++ [session] }
  | .stamped _ => { l with stamp := l.accepted.length }
  | .framed frame _ => { l with frames := l.frames ++ [(l.stamp, frame.session)] }
  | .raw _ | .wrote _ => l

def ledger (record : List Label) : Ledger := record.foldl Ledger.note {}

theorem ledger_concat (record : List Label) (label : Label) :
    ledger (record ++ [label]) = (ledger record).note label := List.foldl_concat ..

namespace Ledger

/-- The session word behind so many acceptances. -/
def opened (l : Ledger) (n : ℕ) : UInt64 := (l.accepted.take n).getLast?.getD 0

/-- Frames carry what was opened when they were stamped. -/
structure Sound (l : Ledger) : Prop where
  nonzero : 0 ∉ l.accepted
  stamp : l.stamp ≤ l.accepted.length
  frames : ∀ p ∈ l.frames, p.1 ≤ l.stamp ∧ (l.accepted.take p.1).getLast? = some p.2
  ordered : l.frames.Pairwise fun p q => p.1 ≤ q.1

theorem Sound.empty : ({} : Ledger).Sound where
  nonzero := List.not_mem_nil
  stamp := le_rfl
  frames _ h := by cases h
  ordered := .nil

variable {l : Ledger}

theorem Sound.accepted (h : l.Sound) {session : UInt64} (hne : session ≠ 0) :
    (l.note (.accepted session)).Sound where
  nonzero := by
    intro hmem
    rcases List.mem_append.mp hmem with hold | hnew
    · exact h.nonzero hold
    · exact hne (List.mem_singleton.mp hnew).symm
  stamp := by
    have hle := h.stamp
    simp only [note, List.length_append, List.length_singleton]
    omega
  frames := by
    intro p hp
    have hframe := h.frames p hp
    refine ⟨hframe.1, ?_⟩
    rw [note, List.take_append_of_le_length (hframe.1.trans h.stamp)]
    exact hframe.2
  ordered := h.ordered

theorem Sound.stamped (h : l.Sound) (session : UInt64) : (l.note (.stamped session)).Sound where
  nonzero := h.nonzero
  stamp := le_rfl
  frames p hp := ⟨(h.frames p hp).1.trans h.stamp, (h.frames p hp).2⟩
  ordered := h.ordered

theorem getLast?_of_opened {n : ℕ} {session : UInt64} (h : l.opened n = session)
    (hne : session ≠ 0) : (l.accepted.take n).getLast? = some session := by
  unfold opened at h
  cases hlast : (l.accepted.take n).getLast? with
  | none =>
      rw [hlast] at h
      exact absurd h.symm hne
  | some x =>
      rw [hlast] at h
      exact congrArg some h

theorem Sound.framed (h : l.Sound) {frame : MuxFrame} (bytes : List UInt8)
    (hsession : l.opened l.stamp = frame.session) (hne : frame.session ≠ 0) :
    (l.note (.framed frame bytes)).Sound where
  nonzero := h.nonzero
  stamp := h.stamp
  frames := by
    intro p hp
    rcases List.mem_append.mp hp with hold | hnew
    · exact h.frames p hold
    · obtain rfl := List.mem_singleton.mp hnew
      exact ⟨le_rfl, getLast?_of_opened hsession hne⟩
  ordered := by
    refine List.pairwise_append.mpr ⟨h.ordered, List.pairwise_singleton .., ?_⟩
    intro p hp q hq
    obtain rfl := List.mem_singleton.mp hq
    exact (h.frames p hp).1

theorem Sound.frames_eq_nil (h : l.Sound) (hzero : l.opened l.stamp = 0) : l.frames = [] := by
  have hnone : l.accepted.take l.stamp = [] := by
    unfold opened at hzero
    cases hlast : (l.accepted.take l.stamp).getLast? with
    | none => exact List.getLast?_eq_none_iff.mp hlast
    | some x =>
        rw [hlast] at hzero
        have hmem := List.mem_of_mem_take (List.mem_of_getLast? hlast)
        rw [show x = 0 from hzero] at hmem
        exact absurd hmem h.nonzero
  refine List.eq_nil_iff_forall_not_mem.mpr fun p hp => ?_
  obtain ⟨hle, hlast⟩ := h.frames p hp
  have htake : l.accepted.take p.1 = [] := by
    rw [← Nat.min_eq_left hle, ← List.take_take, hnone, List.take_nil]
  rw [htake] at hlast
  cases hlast

/-- A later frame carries the same session, or one that was accepted behind the stamp. -/
theorem Sound.follows (h : l.Sound) : l.frames.Pairwise fun p q =>
    p.1 ≤ q.1 ∧ (q.2 = p.2 ∨ q.2 ∈ l.accepted.drop p.1) := by
  refine h.ordered.imp_of_mem ?_
  intro p q hp hq hle
  have hlast := (h.frames q hq).2
  refine ⟨hle, ?_⟩
  rcases hle.eq_or_lt with heq | hlt
  · left
    rw [← heq, (h.frames p hp).2] at hlast
    exact (Option.some.inj hlast).symm
  · right
    have hlen := (h.frames q hq).1.trans h.stamp
    rw [← Nat.add_sub_cancel' hle, List.take_add,
      List.getLast?_append_of_ne_nil _ (by simp; omega)] at hlast
    exact List.mem_of_mem_take (List.mem_of_getLast? hlast)

end Ledger

namespace Label

def isFramed : Label → Bool
  | .framed .. => true
  | _ => false

/-- The transmission of a `MUX_HELLO_ACK`. -/
def acknowledges : Label → Bool
  | .framed frame _ => frame.kind = muxHelloAck
  | _ => false

/-- No unframed bytes: what is transmitted is a frame as the host encodes it, and what the driver
takes is a part of one. -/
def Encoded : Label → Prop
  | .raw _ => False
  | .framed frame bytes => (hostFrame frame).Encodable ∧ bytes = (hostFrame frame).wire
  | .wrote bytes => ∃ f : Frame, f.Encodable ∧ bytes <:+: f.wire
  | .accepted _ | .stamped _ => True

theorem isFramed_of_acknowledges {label : Label} (h : label.acknowledges = true) :
    label.isFramed = true := by
  cases label with
  | framed frame bytes => rfl
  | _ => cases h

end Label

theorem isFramed_of_frames_eq_nil {record : List Label} (h : (ledger record).frames = []) :
    ∀ a ∈ record, a.isFramed = false := by
  induction record using List.reverseRecOn with
  | nil => exact fun a ha => by cases ha
  | append_singleton record label ih =>
      rw [ledger_concat] at h
      have hold : (ledger record).frames = [] ∧ label.isFramed = false := by
        cases label with
        | framed frame bytes => exact absurd h (by simp [Ledger.note])
        | _ => exact ⟨h, rfl⟩
      intro a ha
      rcases List.mem_append.mp ha with hrecord | hlast
      · exact ih hold.1 a hrecord
      · rw [List.mem_singleton.mp hlast]
        exact hold.2

/-- What is on record agrees with the session word. -/
structure Books (record : List Label) (session : UInt64) : Prop where
  session : (ledger record).accepted.getLast?.getD 0 = session
  sound : (ledger record).Sound
  encoded : record.Pairwise fun a b => a.isFramed = true → b.Encoded

namespace Books
variable {record : List Label} {session : UInt64}

theorem empty : Books [] 0 := ⟨rfl, .empty, .nil⟩

theorem concat (h : Books record session) {label : Label} {session' : UInt64}
    (hsession : ((ledger record).note label).accepted.getLast?.getD 0 = session')
    (hsound : ((ledger record).note label).Sound)
    (hlabel : (ledger record).frames = [] ∨ label.Encoded) :
    Books (record ++ [label]) session' where
  session := by rwa [ledger_concat]
  sound := by rwa [ledger_concat]
  encoded := by
    refine List.pairwise_append.mpr ⟨h.encoded, List.pairwise_singleton .., ?_⟩
    intro a ha b hb hframed
    rw [List.mem_singleton.mp hb]
    rcases hlabel with hnone | hencoded
    · rw [isFramed_of_frames_eq_nil hnone a ha] at hframed
      cases hframed
    · exact hencoded

theorem accepted (h : Books record session) {x : UInt64} (hne : x ≠ 0) :
    Books (record ++ [.accepted x]) x :=
  h.concat (by simp [Ledger.note]) (h.sound.accepted hne) (.inr trivial)

theorem stamped (h : Books record session) (x : UInt64) :
    Books (record ++ [.stamped x]) session :=
  h.concat h.session (h.sound.stamped x) (.inr trivial)

theorem framed (h : Books record session) {frame : MuxFrame} {bytes : List UInt8}
    (hstamp : (ledger record).opened (ledger record).stamp = frame.session)
    (hne : frame.session ≠ 0) (hencoded : (Label.framed frame bytes).Encoded) :
    Books (record ++ [.framed frame bytes]) session :=
  h.concat h.session (h.sound.framed bytes hstamp hne) (.inr hencoded)

theorem raw (h : Books record session) (bytes : List UInt8) (hnone : (ledger record).frames = []) :
    Books (record ++ [.raw bytes]) session :=
  h.concat h.session h.sound (.inl hnone)

theorem wrote (h : Books record session) {bytes : List UInt8}
    (hbytes : (ledger record).frames = [] ∨ (Label.wrote bytes).Encoded) :
    Books (record ++ [.wrote bytes]) session :=
  h.concat h.session h.sound hbytes

end Books

/-- The session that the transmitter has read is the one opened then. What it transmits is a frame,
or there has been no frame before. -/
def TxTask.Stamped (record : List Label) (t : TxTask) : Prop :=
  match t.place with
  | .send session => (ledger record).opened (ledger record).stamp = session
  | .transmit bytes _ _ =>
      (ledger record).frames = [] ∨ ∃ f : Frame, f.Encodable ∧ bytes = f.wire
  | _ => True

namespace TxTask
variable {record : List Label} {s : Shared}

theorem encode_books (i : Inputs) {t : TxTask} (hbooks : Books record s.session)
    (h : Sendable t.frame) (hne : t.frame.session ≠ 0)
    (hstamp : (ledger record).opened (ledger record).stamp = t.frame.session) :
    Books (record ++ (encode i s t).record) (encode i s t).shared.session ∧
      (encode i s t).own.Stamped (record ++ (encode i s t).record) := by
  have hencodable := hostFrame_encodable ⟨h.size, hne⟩ h.kind
  obtain ⟨size, wire, hencode, hwire⟩ := muxEncode_hostFrame h.size hencodable i.body t.wire
  unfold encode
  rw [hencode]
  exact ⟨hbooks.framed hstamp hne ⟨hencodable, hwire⟩, .inr ⟨_, hencodable, hwire⟩⟩

theorem turn_books (i : Inputs) {t : TxTask} (hbooks : Books record s.session) (h : t.Sound)
    (hstamped : t.Stamped record) :
    Books (record ++ (turn i s t).record) (turn i s t).shared.session ∧
      (turn i s t).own.Stamped (record ++ (turn i s t).record) := by
  obtain ⟨frame, wire, place⟩ := t
  have hsilent : Books (record ++ []) s.session := by rwa [List.append_nil]
  cases place with
  | receive =>
      unfold turn
      dsimp only
      split <;> exact ⟨hsilent, trivial⟩
  | console =>
      unfold turn
      dsimp only
      split
      · exact ⟨hsilent, trivial⟩
      · split <;> exact ⟨hsilent, trivial⟩
  | wait =>
      unfold turn
      dsimp only
      split_ifs <;> exact ⟨hsilent, trivial⟩
  | stamp =>
      refine ⟨hbooks.stamped s.session, ?_⟩
      have hopened : ((ledger record).note (.stamped s.session)).opened
          (ledger record).accepted.length = s.session := by
        rw [← hbooks.session, Ledger.opened, Ledger.note, List.take_length]
      unfold turn Stamped
      dsimp only
      rw [ledger_concat]
      exact hopened
  | send session =>
      unfold turn
      dsimp only
      split_ifs with hkind hzero hsession
      · have hnone := hbooks.sound.frames_eq_nil (hzero ▸ hstamped)
        refine ⟨hbooks.raw _ hnone, .inl ?_⟩
        rw [ledger_concat]
        exact hnone
      · exact encode_books i hbooks ⟨h.size, h.kind, fun hne => absurd hkind hne⟩ hzero hstamped
      · exact ⟨hsilent, trivial⟩
      · exact encode_books i hbooks h (h.session hkind) (hstamped.trans (not_not.mp hsession).symm)
  | transmit bytes control sent =>
      have hpart : (ledger record).frames = [] ∨
          ∀ n, (Label.wrote ((bytes.drop sent).take n)).Encoded := by
        refine hstamped.imp_right ?_
        rintro ⟨f, hf, rfl⟩ n
        exact ⟨f, hf, (List.take_prefix ..).isInfix.trans (List.drop_suffix ..).isInfix⟩
      unfold turn
      dsimp only
      split_ifs
      · refine ⟨hbooks.wrote (hpart.imp_right fun h => h _), ?_⟩
        unfold Stamped
        dsimp only
        rw [ledger_concat]
        exact hstamped
      · exact ⟨hsilent, trivial⟩
      · exact ⟨hsilent, trivial⟩
  | drop control =>
      refine ⟨?_, trivial⟩
      unfold turn
      rwa [countDrop_session]
  | lost => exact absurd h id

end TxTask

/-- Only the receiver touches the session word, and no other task than the transmitter puts frames
on the wire. -/
theorem turn_cases_of_ne_tx (config : Config) {task : Task} (hne : task ≠ .tx) (i : Inputs)
    (s : Shared) {t : task.Own} (h : task.Sound t) :
    ((turn config task i s t).record = [] ∧ (turn config task i s t).shared.session = s.session) ∨
    ∃ x, x ≠ 0 ∧ (turn config task i s t).record = [.accepted x] ∧
      (turn config task i s t).shared.session = x := by
  cases task with
  | tx => exact absurd rfl hne
  | rx =>
      obtain ⟨decoder, frame, bytes, place⟩ := t
      dsimp only [turn]
      cases place with
      | hello => exact .inr ⟨frame.session, h.2.session, rfl, rfl⟩
      | feed =>
          left
          unfold RxTask.turn
          dsimp only
          split <;> exact ⟨rfl, rfl⟩
      | input payload =>
          left
          cases payload with
          | nil => exact ⟨rfl, rfl⟩
          | cons b payload =>
              unfold RxTask.turn
              dsimp only
              split <;> exact ⟨rfl, rfl⟩
      | request =>
          left
          unfold RxTask.turn
          dsimp only
          split <;> exact ⟨rfl, rfl⟩
      | enqueue call => exact .inl ⟨rfl, Enqueue.turn_session s call⟩
      | _ => exact .inl ⟨rfl, rfl⟩
  | command =>
      left
      dsimp only [turn]
      cases t with
      | receive =>
          unfold CommandTask.turn
          dsimp only
          split <;> exact ⟨rfl, rfl⟩
      | enqueue call => exact ⟨rfl, Enqueue.turn_session s call⟩
      | _ => exact ⟨rfl, rfl⟩
  | publisher n =>
      left
      dsimp only [turn]
      cases t with
      | enqueue call => exact ⟨rfl, Enqueue.turn_session s call⟩
      | _ => exact ⟨rfl, rfl⟩
  | writer n =>
      left
      obtain ⟨bytes, chunk, place⟩ := t
      dsimp only [turn]
      cases place with
      | send =>
          unfold Writer.turn
          dsimp only
          split <;> exact ⟨rfl, rfl⟩
      | drop => exact ⟨rfl, countDrop_session s false⟩
      | _ => exact ⟨rfl, rfl⟩
  | reader n =>
      left
      dsimp only [turn]
      unfold Reader.turn
      cases t with
      | idle returned => exact ⟨rfl, rfl⟩
      | first size =>
          dsimp only
          split <;> exact ⟨rfl, rfl⟩
      | more size bytes =>
          dsimp only
          split_ifs
          · split <;> exact ⟨rfl, rfl⟩
          · exact ⟨rfl, rfl⟩

theorem TxTask.Stamped.accepted {record : List Label} {session : UInt64} {t : TxTask}
    (h : t.Stamped record) (hbooks : Books record session) (x : UInt64) :
    t.Stamped (record ++ [.accepted x]) := by
  obtain ⟨frame, wire, place⟩ := t
  unfold Stamped at h ⊢
  rw [ledger_concat]
  cases place with
  | send session =>
      dsimp only at h ⊢
      rw [Ledger.opened, Ledger.note, List.take_append_of_le_length hbooks.sound.stamp]
      exact h
  | transmit bytes control sent => exact h
  | _ => trivial

def Common (scene : Scene Shared Label) : Prop :=
  scene.shared.Sound ∧ Books scene.record scene.shared.session

def Relies : (task : Task) → Scene Shared Label → task.Own → Prop
  | .tx => fun scene t => TxTask.Sound t ∧ TxTask.Stamped scene.record t
  | task => fun _ t => task.Sound t

theorem Relies.sound {task : Task} {scene : Scene Shared Label} {t : task.Own}
    (h : Relies task scene t) : task.Sound t := by
  cases task with
  | tx => exact h.1
  | _ => exact h

theorem relies_of_ne_tx {task : Task} (hne : task ≠ .tx) {scene : Scene Shared Label}
    {t : task.Own} (h : task.Sound t) : Relies task scene t := by
  cases task with
  | tx => exact absurd rfl hne
  | _ => exact h

theorem books_turn (config : Config) {task : Task} (i : Inputs) {scene : Scene Shared Label}
    {t : task.Own} (hcommon : Common scene) (h : Relies task scene t) :
    Books (scene.record ++ (turn config task i scene.shared t).record)
      (turn config task i scene.shared t).shared.session := by
  by_cases htx : task = .tx
  · subst htx
    exact (TxTask.turn_books i hcommon.2 h.1 h.2).1
  · rcases turn_cases_of_ne_tx config htx i scene.shared h.sound with
        ⟨hrecord, hsession⟩ | ⟨x, hx, hrecord, hsession⟩
    · rw [hrecord, hsession, List.append_nil]
      exact hcommon.2
    · rw [hrecord, hsession]
      exact hcommon.2.accepted hx

theorem harmony (config : Config) : Harmony (turn config) Common Relies where
  common task i _ _ hcommon h :=
    ⟨(turn_sound config task i hcommon.1 h.sound).1, books_turn config i hcommon h⟩
  keeps task i scene t hcommon h := by
    have hsound := (turn_sound config task i hcommon.1 h.sound).2
    by_cases htx : task = .tx
    · subst htx
      exact ⟨hsound, (TxTask.turn_books i hcommon.2 h.1 h.2).2⟩
    · exact relies_of_ne_tx htx hsound
  spares task other i scene t u hne hcommon h hother := by
    by_cases htx : other = .tx
    · subst htx
      refine ⟨hother.1, ?_⟩
      rcases turn_cases_of_ne_tx config hne i scene.shared h.sound with
          ⟨hrecord, -⟩ | ⟨x, -, hrecord, -⟩
      · rw [Scene.after, hrecord, List.append_nil]
        exact hother.2
      · rw [Scene.after, hrecord]
        exact hother.2.accepted hcommon.2 x
    · exact relies_of_ne_tx htx hother.sound

/-- In whatever order the tasks take their turns: behind the transmission of a `MUX_HELLO_ACK` only
frames are transmitted; a frame carries the session that was accepted last when it was stamped; and
of two frames the later one was stamped later, and carries the session of the other or one accepted
since that was stamped. -/
theorem framed_across_sessions (config : Config) (outgoing incoming : MuxFrame)
    (wire : Vector UInt8 muxMaxWire) (steps : List (Task × Inputs)) :
    let record := ((start outgoing wire incoming).run (turn config) steps).scene.record
    let l := ledger record
    (record.Pairwise fun a b => a.acknowledges = true → b.Encoded) ∧
    (∀ p ∈ l.frames, (l.accepted.take p.1).getLast? = some p.2) ∧
    l.frames.Pairwise fun p q => p.1 ≤ q.1 ∧ (q.2 = p.2 ∨ q.2 ∈ l.accepted.drop p.1) := by
  have hstart := start_sound outgoing wire incoming
  have hcommon : Common (start outgoing wire incoming).scene := ⟨hstart.1, .empty⟩
  have hrelies : ∀ task, Relies task (start outgoing wire incoming).scene
      ((start outgoing wire incoming).own task) := by
    intro task
    by_cases htx : task = .tx
    · subst htx
      exact ⟨hstart.2 .tx, trivial⟩
    · exact relies_of_ne_tx htx (hstart.2 task)
  obtain ⟨⟨-, hbooks⟩, -⟩ := (harmony config).run hcommon hrelies steps
  refine ⟨hbooks.encoded.imp ?_, fun p hp => (hbooks.sound.frames p hp).2, hbooks.sound.follows⟩
  exact fun hencoded hacknowledges => hencoded (Label.isFramed_of_acknowledges hacknowledges)

def braces : Config := { identity := [0x7b, 0x7d], identity_le := by decide, ending := .lf }

def blank : MuxFrame :=
  { kind := 0, session := 0, request := 0, size := 0, data := .replicate _ 0 }

/-- Nothing is read, and the driver takes 64 bytes. -/
def plain : Inputs where
  read := []
  written := 64
  body := .replicate _ 0
  text := .replicate _ 0
  print _ := some [0x7b, 0x7d]
  parse _ := none
  handler _ _ := .ok none
  event := .null
  bytes := [0x68, 0x69]
  size := 0
  nonblocking := true

def helloOf (session : UInt64) : Frame :=
  { kind := muxHello, session := session, request := 0, payload := [] }

/-- The host opens a session. -/
def openingSteps (session : UInt64) : List (Task × Inputs) :=
  (.rx, { plain with read := (helloOf session).wire }) :: List.replicate 24 (.rx, plain)

/-- An event of session 7 is still queued when session 9 is opened, and is dropped. -/
def reopeningSteps : List (Task × Inputs) :=
  openingSteps 7 ++ List.replicate 5 (.tx, plain) ++ List.replicate 4 (.publisher 0, plain) ++
    openingSteps 9 ++ List.replicate 6 (.writer 0, plain) ++ List.replicate 20 (.tx, plain)

example : ledger ((start blank (.replicate _ 0) blank).run (turn braces)
    reopeningSteps).scene.record =
      { accepted := [7, 9], stamp := 2, frames := [(1, 7), (2, 9), (2, 9)] } := by decide +kernel

end IdfRemote.Firmware
