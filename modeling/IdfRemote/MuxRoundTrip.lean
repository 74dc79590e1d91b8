import IdfRemote.MuxStream
import Mathlib.Data.LawfulXor.Basic

/-!
# Encoded frames and self-synchronisation

Any delimiter leaves the decoder at the start of a segment, whatever it has read
before. From there the escaped body of an encodable frame is accumulated byte by
byte without an output, and the closing delimiter decodes it. An encoded frame
begins with a delimiter of its own, so it is received after every prefix.
-/
namespace IdfRemote.Mux
open LittleEndian StreamMachine

namespace Frame

/-- The frames `encode` accepts. -/
def Encodable (f : Frame) : Prop :=
  f.payload.length ≤ maxPayload ∧ (hello ≤ f.kind ∧ f.kind ≤ error) ∧ f.session ≠ 0

instance (f : Frame) : Decidable f.Encodable := inferInstanceAs (Decidable (_ ∧ _ ∧ _))

theorem encode_eq_ok {f : Frame} {w : List UInt8} :
    f.encode = .ok w ↔ f.Encodable ∧ w = f.wire := by
  unfold encode Encodable ensure
  by_cases h₁ : f.payload.length ≤ maxPayload <;>
    by_cases h₂ : hello ≤ f.kind ∧ f.kind ≤ error <;>
      by_cases h₃ : f.session = 0 <;>
        simp [h₁, h₂, h₃, bind, Except.bind, pure, Except.pure, eq_comm]

@[simp] theorem length_header (f : Frame) : f.header.length = 14 + f.payload.length := by
  simp [header]
  omega

@[simp] theorem length_body (f : Frame) : f.body.length = 18 + f.payload.length := by
  simp [body]
  omega

theorem body_length_le {f : Frame} (h : f.Encodable) : f.body.length ≤ maxBody := by
  have := h.1
  simp only [length_body, maxBody]
  omega

theorem body_eq_cons (f : Frame) : f.body = 1 :: f.body.tail := by
  simp [body, header]

theorem take_body (f : Frame) : f.body.take (f.body.length - 4) = f.header := by
  have h : f.body.length - 4 = f.header.length := by simp; omega
  rw [h, body, List.take_left]

theorem drop_body (f : Frame) :
    f.body.drop (f.body.length - 4) = toLeBytes 4 (crc32 f.header).toNat := by
  have h : f.body.length - 4 = f.header.length := by simp; omega
  rw [h, body, List.drop_left]

theorem session_bytes (f : Frame) :
    (f.body.drop 2).take 8 = toLeBytes 8 f.session.toNat := by
  have h : f.body.drop 2 = toLeBytes 8 f.session.toNat ++ (toLeBytes 4 f.request.toNat ++
      f.payload ++ toLeBytes 4 (crc32 f.header).toNat) := by
    simp [body, header]
  rw [h, List.take_left' (length_toLeBytes 8 _)]

theorem request_bytes (f : Frame) :
    (f.body.drop 10).take 4 = toLeBytes 4 f.request.toNat := by
  have h : f.body.drop 10 = toLeBytes 4 f.request.toNat ++
      (f.payload ++ toLeBytes 4 (crc32 f.header).toNat) := by
    have hd : f.body.drop 10 = (f.body.drop 2).drop 8 := by rw [List.drop_drop]
    rw [hd]
    have hb : f.body.drop 2 = toLeBytes 8 f.session.toNat ++ (toLeBytes 4 f.request.toNat ++
        f.payload ++ toLeBytes 4 (crc32 f.header).toNat) := by
      simp [body, header]
    rw [hb, List.drop_left' (length_toLeBytes 8 _), List.append_assoc]
  rw [h, List.take_left' (length_toLeBytes 4 _)]

theorem payload_bytes (f : Frame) : f.header.drop 14 = f.payload := by
  have h : f.header = ([1, f.kind] ++ toLeBytes 8 f.session.toNat ++
      toLeBytes 4 f.request.toNat) ++ f.payload := rfl
  rw [h, List.drop_left' (by simp)]

theorem decode_body {f : Frame} (h : f.Encodable) : decode f.body = some f := by
  have hkind : f.body.getD 1 0 = f.kind := by simp [body, header]
  have hhead : f.body[0]? = some 1 := by simp [body, header]
  have hcrc : (crc32 f.header).toNat < 256 ^ 4 := (crc32 f.header).toNat_lt
  have hsession : f.session.toNat < 256 ^ 8 := f.session.toNat_lt
  have hrequest : f.request.toNat < 256 ^ 4 := f.request.toNat_lt
  have hlen : ¬ f.body.length < 18 := by simp
  unfold decode
  rw [if_neg (by simp only [hkind, hhead, hlen, h.2.1]; simp)]
  simp only [take_body, drop_body, session_bytes, request_bytes, payload_bytes, hkind,
    fromLeBytes_toLeBytes_of_lt hcrc, fromLeBytes_toLeBytes_of_lt hsession,
    fromLeBytes_toLeBytes_of_lt hrequest, UInt64.ofNat_toNat, UInt32.ofNat_toNat]
  simp [h.2.2]

end Frame

namespace Decoder

/-- Outside a frame nothing is accumulated. -/
def WellFormed (d : Decoder) : Prop :=
  d.inFrame = false → d.escaped = false ∧ d.overflow = false ∧ d.body = []

/-- The state right after a delimiter. -/
def synced : Decoder := { inFrame := true }

theorem wellFormed_default : WellFormed {} := fun _ => ⟨rfl, rfl, rfl⟩

theorem restart_eq_synced {d : Decoder} (h : d.WellFormed) : d.restart = synced := by
  unfold restart synced
  split_ifs with hd
  · rfl
  · obtain ⟨h₁, h₂, h₃⟩ := h (by simpa using hd)
    simp [h₁, h₂, h₃]

@[simp] theorem unescape_inFrame (d : Decoder) (b : UInt8) :
    (d.unescape b).inFrame = d.inFrame := by
  unfold unescape
  split_ifs <;> rfl

@[simp] theorem limit_inFrame (d : Decoder) : d.limit.inFrame = d.inFrame := by
  unfold limit
  split_ifs <;> rfl

@[simp] theorem push_inFrame (d : Decoder) (b : UInt8) : (d.push b).inFrame = d.inFrame := by
  unfold push
  split_ifs <;> simp

theorem limit_of_le {d : Decoder} (h : d.body.length ≤ maxBody) : d.limit = d := by
  rw [limit, if_neg (by omega)]

theorem wellFormed_step {d : Decoder} (b : UInt8) (h : d.WellFormed) :
    (d.step b).1.WellFormed := by
  unfold step
  split_ifs with h₁ h₂
  · rw [restart_eq_synced h]
    exact fun hf => absurd hf (by simp [synced])
  · intro _
    cases hd : d.inFrame with
    | false => exact h hd
    | true =>
        have hfirst : d.body = [] ∧ d.escaped = false ∧ d.overflow = false := by
          simp only [unframed, hd, Bool.not_true, Bool.false_or, Bool.and_eq_true,
            List.isEmpty_iff, Bool.not_eq_true'] at h₂
          exact ⟨h₂.1.1.1, h₂.1.1.2, h₂.1.2⟩
        exact ⟨hfirst.2.1, hfirst.2.2, hfirst.1⟩
  · intro hf
    have hd : d.inFrame = false := by simpa using hf
    exact absurd (by simp [unframed, hd]) h₂

theorem wellFormed_run {d : Decoder} (bytes : List UInt8) (h : d.WellFormed) :
    (machine.run d bytes).1.WellFormed :=
  machine.run_invariant (fun _ b => wellFormed_step b) d bytes h

/-- A delimiter synchronises every decoder. -/
theorem step_delimiter {d : Decoder} (h : d.WellFormed) :
    machine.step d 0x7e = (synced, d.finish.flatMap Decoded.events) := by
  simp [machine, step, restart_eq_synced h]

/-- One escaped byte inside a frame is accumulated without an output. -/
theorem run_escapeByte (acc : List UInt8) (b : UInt8) (hb : acc ≠ [] ∨ b = 1)
    (hlen : acc.length + 1 ≤ maxBody) :
    machine.run { inFrame := true, body := acc } (escapeByte b) =
      ({ inFrame := true, body := acc ++ [b] }, []) := by
  have hstore : ({ inFrame := true, body := acc ++ [b] } : Decoder).limit =
      { inFrame := true, body := acc ++ [b] } := limit_of_le (by simpa using hlen)
  unfold escapeByte
  split_ifs with h
  · have hacc : acc ≠ [] := by
      rcases hb with hb | rfl
      · exact hb
      · simp at h
    have hescape : ({ inFrame := true, escaped := true, body := acc } : Decoder).limit =
        { inFrame := true, escaped := true, body := acc } := limit_of_le (by simp; omega)
    have hne : b ^^^ 0x20 ≠ 0x7e := by rcases h with rfl | rfl <;> decide
    simp [machine, Machine.run, step, unframed, push, unescape, hacc, hescape, hne,
      xor_cancel_right, hstore]
  · obtain ⟨h₁, h₂⟩ := not_or.mp h
    have hframed : ¬ (acc = [] ∧ ¬ b = 1) := by
      rcases hb with hb | rfl
      · simp [hb]
      · simp
    simp [machine, Machine.run, step, unframed, push, unescape, h₁, h₂, hframed, hstore]

theorem run_escaped (acc bs : List UInt8) (hhead : acc ≠ [] ∨ bs.head? = some 1 ∨ bs = [])
    (hlen : acc.length + bs.length ≤ maxBody) :
    machine.run { inFrame := true, body := acc } (bs.flatMap escapeByte) =
      ({ inFrame := true, body := acc ++ bs }, []) := by
  induction bs generalizing acc with
  | nil => simp
  | cons b bs ih =>
      rw [List.length_cons] at hlen
      have hb : acc ≠ [] ∨ b = 1 := by simpa using hhead
      rw [List.flatMap_cons, Machine.run_append, run_escapeByte acc b hb (by omega),
        ih (acc ++ [b]) (.inl (by simp)) (by simp; omega)]
      simp

/-- An encoded frame is received after every prefix, and leaves the decoder synchronised. -/
theorem run_wire {f : Frame} (hf : f.Encodable) {d : Decoder} (hd : d.WellFormed) :
    machine.run d f.wire = (synced, (machine.step d 0x7e).2 ++ [.frame f]) := by
  have hbody := run_escaped [] f.body (.inr (.inl (by rw [Frame.body_eq_cons]; rfl)))
    (by simpa using Frame.body_length_le hf)
  have hne : f.body ≠ [] := by rw [Frame.body_eq_cons]; simp
  have hlast : machine.step { inFrame := true, body := f.body } 0x7e =
      (synced, [.frame f]) := by
    simp [machine, step, finish, restart, synced, hne, Frame.decode_body hf, Decoded.events]
  rw [Frame.wire, List.cons_append, Machine.run_cons, Machine.run_append, step_delimiter hd]
  change (_, _ ++ ((machine.run { inFrame := true, body := [] } _).2 ++ _)) = _
  simp only [synced] at hbody ⊢
  rw [hbody]
  simp [hlast, synced]

/-- A synchronised decoder reads a list of encoded frames as that list. -/
theorem run_wires (fs : List Frame) (hf : ∀ f ∈ fs, f.Encodable) {d : Decoder}
    (hd : d.WellFormed) (hquiet : d.finish = []) :
    (machine.run d (fs.flatMap Frame.wire)).2 = fs.map .frame := by
  induction fs generalizing d with
  | nil => rfl
  | cons f fs ih =>
      have hfirst := run_wire (hf f List.mem_cons_self) hd
      have hrest := ih (fun g hg => hf g (List.mem_cons_of_mem _ hg)) (d := synced)
        (fun h => absurd h (by simp [synced])) rfl
      rw [List.flatMap_cons, Machine.run_append, hfirst, hrest, step_delimiter hd, hquiet]
      rfl

end Decoder

theorem encode_forall₂ {fs : List Frame} {ws : List (List UInt8)}
    (h : List.Forall₂ (fun f w => f.encode = .ok w) fs ws) :
    (∀ f ∈ fs, f.Encodable) ∧ ws.flatten = fs.flatMap Frame.wire := by
  induction h with
  | nil => simp
  | cons hf _ ih =>
      obtain ⟨henc, rfl⟩ := Frame.encode_eq_ok.mp hf
      exact ⟨List.forall_mem_cons.mpr ⟨henc, ih.1⟩, by simp [ih.2]⟩

/-- For every prefix, every encodable frame and every way of cutting the stream,
the frame is received after exactly what the prefix and one delimiter yield; a
list of encoded frames is received as that list. -/
theorem decoder_round_trip :
    (∀ (p w : List UInt8) (f : Frame) (cs cs' : List (List UInt8)), f.encode = .ok w →
      cs.flatten = p ++ w → cs'.flatten = p ++ [0x7e] →
      mergeRaw (Decoder.feedAll {} cs).2 =
        mergeRaw (Decoder.feedAll {} cs').2 ++ [.frame f]) ∧
    (∀ (fs : List Frame) (ws cs : List (List UInt8)),
      List.Forall₂ (fun f w => f.encode = .ok w) fs ws → cs.flatten = ws.flatten →
      mergeRaw (Decoder.feedAll {} cs).2 = fs.map .frame) := by
  refine ⟨fun p w f cs cs' hw hcs hcs' => ?_, fun fs ws cs hws hcs => ?_⟩
  · obtain ⟨hf, rfl⟩ := Frame.encode_eq_ok.mp hw
    have hp := Decoder.wellFormed_run p Decoder.wellFormed_default
    rw [Decoder.mergeRaw_feedAll, Decoder.mergeRaw_feedAll, hcs, hcs', Machine.run_append,
      Machine.run_append, Decoder.run_wire hf hp, Machine.run_singleton, ← List.append_assoc,
      collect_append_frame]
  · obtain ⟨hf, hflat⟩ := encode_forall₂ hws
    rw [Decoder.mergeRaw_feedAll, hcs, hflat,
      Decoder.run_wires fs hf Decoder.wellFormed_default rfl, collect_frames]

def helloFrame : Frame :=
  { kind := hello, session := 0x7d7e, request := 7, payload := [0x7e, 0x41] }

/-- Noise that ends inside an escape, with the first frame cut in the middle of its header. -/
theorem decoder_round_trip_hello :
    mergeRaw (Decoder.feedAll {} [[0x41, 0x7e, 0x01, 0x7d] ++ helloFrame.wire.take 5,
        helloFrame.wire.drop 5]).2 =
      mergeRaw (Decoder.feedAll {} [[0x41, 0x7e, 0x01], [0x7d, 0x7e]]).2 ++
        [.frame helloFrame] ∧
    mergeRaw (Decoder.feedAll {} [helloFrame.wire, helloFrame.wire]).2 =
      [.frame helloFrame, .frame helloFrame] := by
  have hencode : helloFrame.encode = .ok helloFrame.wire :=
    Frame.encode_eq_ok.mpr ⟨by decide, rfl⟩
  constructor
  · apply decoder_round_trip.1 [0x41, 0x7e, 0x01, 0x7d] _ helloFrame _ _ hencode
    · simp
    · rfl
  · exact decoder_round_trip.2 [helloFrame, helloFrame] [helloFrame.wire, helloFrame.wire] _
      (.cons hencode (.cons hencode .nil)) rfl

end IdfRemote.Mux
