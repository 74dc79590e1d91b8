import IdfRemote.MuxGrammar
import IdfRemote.Thinning
import IdfRemote.TransmitDrops

/-!
# Frames that are cut off

A sender may give up inside a frame and go on with the next one. What the decoder then
makes of the part that was sent is nothing, unless the part ends in four bytes that happen
to be its checksum: a frame carries no length. So every frame that is received is one that
was sent, or the start of one with the header of the whole.
-/
namespace IdfRemote.Mux
open LittleEndian StreamMachine TransmitDrops

namespace Frame

/-- The same header, and the start of the payload. -/
structure Abridges (f g : Frame) : Prop where
  kind : f.kind = g.kind
  session : f.session = g.session
  request : f.request = g.request
  payload : f.payload <+: g.payload

@[refl] theorem Abridges.refl (f : Frame) : f.Abridges f := ⟨rfl, rfl, rfl, List.prefix_rfl⟩

/-- The fields in front of the payload have fixed places. -/
theorem abridges_of_header {f g : Frame} (h : f.header <+: g.header) : f.Abridges g := by
  obtain ⟨rest, hrest⟩ := h
  simp only [header, List.append_assoc, List.cons_append, List.nil_append, List.cons.injEq,
    true_and] at hrest
  obtain ⟨hkind, hrest⟩ := hrest
  obtain ⟨hsession, hrest⟩ := List.append_inj hrest (by simp)
  obtain ⟨hrequest, hpayload⟩ := List.append_inj hrest (by simp)
  refine ⟨hkind, ?_, ?_, ⟨rest, hpayload⟩⟩
  · have heq := congrArg fromLeBytes hsession
    rw [fromLeBytes_toLeBytes_of_lt f.session.toNat_lt,
      fromLeBytes_toLeBytes_of_lt g.session.toNat_lt] at heq
    exact UInt64.toNat_inj.mp heq
  · have heq := congrArg fromLeBytes hrequest
    rw [fromLeBytes_toLeBytes_of_lt f.request.toNat_lt,
      fromLeBytes_toLeBytes_of_lt g.request.toNat_lt] at heq
    exact UInt32.toNat_inj.mp heq

/-- The start of a body decodes to nothing, or to the start of its frame. -/
theorem abridges_of_decode {f g : Frame} (hg : g.Encodable) {k : ℕ}
    (h : decode (g.body.take k) = some f) : f.Abridges g := by
  have hlen : (g.body.take k).length ≤ maxBody :=
    (List.length_take_le' ..).trans (body_length_le hg)
  have hbody : f.body <+: g.body := by
    rw [← ((decode_eq_some hlen).mp h).2]
    exact List.take_prefix ..
  have hle := hbody.length_le
  rw [length_body, length_body] at hle
  have hheader : f.header <+: g.body := (List.prefix_append ..).trans hbody
  exact abridges_of_header (List.prefix_of_prefix_length_le hheader (List.prefix_append ..)
    (by simp; omega))

end Frame

/-- The frames among the events. -/
def framesOf (events : List Event) : List Frame := events.filterMap Mux.Event.frame?

@[simp] theorem framesOf_append (xs ys : List Event) :
    framesOf (xs ++ ys) = framesOf xs ++ framesOf ys := List.filterMap_append

@[simp] theorem framesOf_frame (f : Frame) : framesOf [.frame f] = [f] := rfl

/-- A frame, and how many bytes of its encoding have been sent. -/
structure Piece where
  frame : Frame
  count : ℕ

def Piece.bytes (p : Piece) : List UInt8 := p.frame.wire.take p.count

namespace Decoder

/-- What a delimiter would complete is at most the start of the frame. -/
def Holds (d : Decoder) (held : Option Frame) : Prop :=
  List.SublistForall₂ Frame.Abridges (framesOf (d.finish.flatMap Decoded.events)) held.toList

theorem holds_synced : synced.Holds none := .nil

/-- Within a frame, behind the first bytes of its body. -/
structure Within (d : Decoder) (f : Frame) : Prop where
  inFrame : d.inFrame = true
  overflow : d.overflow = false
  body : ∃ k, d.body = f.body.take k

theorem Within.holds {d : Decoder} {f : Frame} (h : d.Within f) (hf : f.Encodable) :
    d.Holds (some f) := by
  obtain ⟨k, hk⟩ := h.body
  unfold Holds finish
  rw [if_pos h.inFrame, h.overflow]
  split_ifs with hescaped hbody
  · exact .nil
  · rw [hk]
    cases hdecode : Frame.decode (f.body.take k) with
    | none => exact .nil
    | some g => exact .cons (Frame.abridges_of_decode hf hdecode) .nil
  · exact .nil

/-- The escaped body is accumulated byte by byte, wherever it is cut off. -/
theorem run_escaped_take (acc bs : List UInt8) (hhead : acc ≠ [] ∨ bs.head? = some 1 ∨ bs = [])
    (hlen : acc.length + bs.length ≤ maxBody) (n : ℕ) :
    ∃ escaped k, machine.run { inFrame := true, body := acc } ((bs.flatMap escapeByte).take n) =
      ({ inFrame := true, escaped := escaped, body := acc ++ bs.take k }, []) := by
  induction bs generalizing acc n with
  | nil => exact ⟨false, 0, by simp⟩
  | cons b bs ih =>
      rw [List.length_cons] at hlen
      have hb : acc ≠ [] ∨ b = 1 := by simpa using hhead
      have hfirst := run_escapeByte acc b hb (by omega)
      rw [List.flatMap_cons]
      by_cases hn : (escapeByte b).length ≤ n
      · obtain ⟨escaped, k, hrun⟩ := ih (acc ++ [b]) (.inl (by simp)) (by simp; omega)
          (n - (escapeByte b).length)
        refine ⟨escaped, k + 1, ?_⟩
        rw [List.take_append, List.take_of_length_le hn, Machine.run_append, hfirst]
        simp [hrun]
      · rw [List.take_append_of_le_length (by omega)]
        -- An escape byte without the byte behind it, or nothing at all.
        unfold escapeByte at hn ⊢
        split_ifs at hn ⊢ with hspecial
        · have hacc : acc ≠ [] := by
            rcases hb with hb | rfl
            · exact hb
            · simp at hspecial
          have hcases : n = 0 ∨ n = 1 := by
            simp only [List.length_cons, List.length_nil] at hn
            omega
          rcases hcases with rfl | rfl
          · exact ⟨false, 0, by simp⟩
          · refine ⟨true, 0, ?_⟩
            have hlimit : ({ inFrame := true, escaped := true, body := acc } : Decoder).limit =
                { inFrame := true, escaped := true, body := acc } := limit_of_le (by simp; omega)
            simp [machine, step, unframed, push, unescape, hacc, hlimit]
        · have hzero : n = 0 := by
            simp only [List.length_cons, List.length_nil] at hn
            omega
          exact ⟨false, 0, by simp [hzero]⟩

/-- A piece completes at most what was held before it, and its frame; the rest is held. -/
theorem run_piece {p : Piece} (hp : p.frame.Encodable) {d : Decoder} (hd : d.WellFormed)
    {held : Option Frame} (hheld : d.Holds held) :
    ∃ held', (machine.run d p.bytes).1.Holds held' ∧ ∀ fs,
      List.SublistForall₂ Frame.Abridges fs held'.toList →
      List.SublistForall₂ Frame.Abridges (framesOf (machine.run d p.bytes).2 ++ fs)
        (held.toList ++ [p.frame]) := by
  obtain ⟨f, n⟩ := p
  unfold Piece.bytes
  dsimp only at hp ⊢
  cases n with
  | zero =>
      refine ⟨held, hheld, fun fs hfs => ?_⟩
      exact Thinning.sublist_right hfs (List.sublist_append_left ..)
  | succ n =>
      by_cases hwhole : f.wire.length ≤ n + 1
      · refine ⟨none, ?_, fun fs hfs => ?_⟩
        · rw [List.take_of_length_le hwhole, run_wire hp hd]
          exact holds_synced
        · have hnil : fs = [] := by cases hfs; rfl
          rw [List.take_of_length_le hwhole, run_wire hp hd, step_delimiter hd, framesOf_append,
            framesOf_frame, hnil, List.append_nil]
          exact Thinning.append hheld (.cons (Frame.Abridges.refl f) .nil)
      · have hcut : f.wire.take (n + 1) = 0x7e :: (f.body.flatMap escapeByte).take n := by
          have hlt : n ≤ (f.body.flatMap escapeByte).length := by
            simp only [Frame.wire, List.cons_append, List.length_cons, List.length_append,
              List.length_nil] at hwhole
            omega
          rw [Frame.wire, List.cons_append, List.take_succ_cons,
            List.take_append_of_le_length hlt]
        obtain ⟨escaped, k, hrun⟩ := run_escaped_take [] f.body
          (.inr (.inl (by rw [Frame.body_eq_cons]; rfl))) (by simpa using Frame.body_length_le hp) n
        rw [hcut, Machine.run_cons, step_delimiter hd]
        dsimp only
        rw [show synced = { inFrame := true, body := [] } from rfl, hrun]
        refine ⟨some f, Within.holds ⟨rfl, rfl, k, by simp⟩ hp, fun fs hfs => ?_⟩
        rw [List.append_nil]
        exact Thinning.append hheld hfs

theorem run_pieces_held {pieces : List Piece} (hp : ∀ p ∈ pieces, p.frame.Encodable) {d : Decoder}
    (hd : d.WellFormed) {held : Option Frame} (hheld : d.Holds held) :
    List.SublistForall₂ Frame.Abridges (framesOf (machine.run d (pieces.flatMap Piece.bytes)).2)
      (held.toList ++ pieces.map Piece.frame) := by
  induction pieces generalizing d held with
  | nil => exact .nil
  | cons p pieces ih =>
      obtain ⟨held', hnext, hfirst⟩ := run_piece (hp p List.mem_cons_self) hd hheld
      have hrest := ih (fun q hq => hp q (List.mem_cons_of_mem _ hq))
        (wellFormed_run p.bytes hd) hnext
      obtain ⟨zs, hzs, hsub⟩ := List.sublistForall₂_iff.mp hrest
      obtain ⟨us, vs, rfl, hus, hvs⟩ := List.sublist_append_iff.mp hsub
      obtain ⟨xs, ys, hxs, hys, hsplit⟩ : ∃ xs ys, List.Forall₂ Frame.Abridges xs us ∧
          List.Forall₂ Frame.Abridges ys vs ∧
          framesOf (machine.run (machine.run d p.bytes).1 (pieces.flatMap Piece.bytes)).2 =
            xs ++ ys :=
        ⟨_, _, List.forall₂_take_append _ _ _ hzs, List.forall₂_drop_append _ _ _ hzs,
          (List.take_append_drop ..).symm⟩
      rw [List.flatMap_cons, Machine.run_append, framesOf_append, hsplit, ← List.append_assoc,
        List.map_cons, List.append_cons]
      exact Thinning.append (hfirst xs (List.sublistForall₂_iff.mpr ⟨us, hxs, hus⟩))
        (List.sublistForall₂_iff.mpr ⟨vs, hys, hvs⟩)

theorem run_pieces {pieces : List Piece} (hp : ∀ p ∈ pieces, p.frame.Encodable) {d : Decoder}
    (hd : d.WellFormed) (hquiet : d.Holds none) :
    List.SublistForall₂ Frame.Abridges (framesOf (machine.run d (pieces.flatMap Piece.bytes)).2)
      (pieces.map Piece.frame) :=
  run_pieces_held hp hd hquiet

/-- As long as no piece but the last is cut off, what is received was sent as it is. -/
theorem run_whole_pieces {fs : List Frame} (hfs : ∀ f ∈ fs, f.Encodable) {f : Frame}
    (hf : f.Encodable) (n : ℕ) {d : Decoder} (hd : d.WellFormed) (hquiet : d.finish = []) :
    (framesOf (machine.run d (fs.flatMap Frame.wire ++ f.wire.take n)).2).Sublist (fs ++ [f]) := by
  have hcomplete : ∀ gs : List Frame, framesOf (gs.map .frame) = gs := by
    intro gs
    simp [framesOf, List.filterMap_map, Function.comp_def, Mux.Event.frame?]
  obtain ⟨rest, hrest⟩ : f.wire.take n <+: f.wire := List.take_prefix ..
  have hall := run_wires (fs ++ [f]) (List.forall_mem_append.mpr ⟨hfs, by simpa using hf⟩) hd hquiet
  rw [List.flatMap_append, List.flatMap_singleton, ← hrest, ← List.append_assoc,
    Machine.run_append] at hall
  rw [← hcomplete (fs ++ [f]), ← hall, framesOf_append]
  exact List.sublist_append_left ..

theorem run_whole_pieces_sublist {pieces : List Piece} (hp : ∀ p ∈ pieces, p.frame.Encodable)
    (hwhole : ∀ p ∈ pieces.dropLast, p.bytes = p.frame.wire) {d : Decoder} (hd : d.WellFormed)
    (hquiet : d.finish = []) :
    (framesOf (machine.run d (pieces.flatMap Piece.bytes)).2).Sublist
      (pieces.map Piece.frame) := by
  rcases List.eq_nil_or_concat' pieces with rfl | ⟨before, p, rfl⟩
  · exact List.Sublist.refl _
  · rw [List.dropLast_concat] at hwhole
    have hbytes : before.flatMap Piece.bytes = (before.map Piece.frame).flatMap Frame.wire := by
      rw [List.flatMap_map]
      exact List.flatMap_congr hwhole
    rw [List.flatMap_append, List.flatMap_singleton, hbytes, List.map_append, Piece.bytes]
    refine run_whole_pieces (fun f hf => ?_) (hp p (by simp)) p.count hd hquiet
    obtain ⟨q, hq, rfl⟩ := List.mem_map.mp hf
    exact hp q (List.mem_append_left _ hq)

/-- Nothing has been begun. -/
def Idle (d : Decoder) : Prop := d = {} ∨ d = synced

theorem Idle.wellFormed {d : Decoder} (h : d.Idle) : d.WellFormed := by
  rcases h with rfl | rfl
  · exact wellFormed_default
  · exact fun hframe => by cases hframe

theorem Idle.holds {d : Decoder} (h : d.Idle) : d.Holds none := by
  rcases h with rfl | rfl <;> exact .nil

theorem run_text {text : List UInt8} (htext : 1 ∉ text) {d : Decoder} (hd : d.Idle) :
    (machine.run d text).1.Idle ∧ framesOf (machine.run d text).2 = [] := by
  induction text generalizing d with
  | nil => exact ⟨hd, rfl⟩
  | cons b text ih =>
      have hb : b ≠ 1 := fun h => htext (h ▸ List.mem_cons_self)
      have hstep : (machine.step d b).1.Idle ∧ framesOf (machine.step d b).2 = [] := by
        by_cases hdelimiter : b = 0x7e
        · rcases hd with rfl | rfl
          · exact ⟨.inr (by simp [machine, step, restart, synced, hdelimiter]),
              by simp [machine, step, finish, framesOf, hdelimiter]⟩
          · exact ⟨.inr (by simp [machine, step, restart, synced, hdelimiter]),
              by simp [machine, step, finish, synced, framesOf, hdelimiter]⟩
        · rcases hd with rfl | rfl
          · exact ⟨.inl (by simp [machine, step, unframed, hdelimiter]),
              by simp [machine, step, unframed, framesOf, Mux.Event.frame?, hdelimiter]⟩
          · exact ⟨.inl (by simp [machine, step, unframed, synced, hdelimiter, hb]),
              by simp [machine, step, unframed, synced, framesOf, Mux.Event.frame?, hdelimiter,
                hb]⟩
      obtain ⟨hidle, hframes⟩ := ih (fun h => htext (List.mem_cons_of_mem b h)) hstep.1
      rw [Machine.run_cons]
      refine ⟨hidle, ?_⟩
      rw [framesOf_append, hstep.2, hframes, List.append_nil]

theorem run_outside {text : List UInt8} (htext : 0x7e ∉ text) :
    (machine.run {} text).1 = {} ∧ framesOf (machine.run {} text).2 = [] := by
  induction text with
  | nil => exact ⟨rfl, rfl⟩
  | cons b text ih =>
      have hb : b ≠ 0x7e := fun h => htext (h ▸ List.mem_cons_self)
      have hstep : machine.step {} b = ({}, [.raw b]) := by simp [machine, step, unframed, hb]
      obtain ⟨hstate, hframes⟩ := ih fun h => htext (List.mem_cons_of_mem b h)
      rw [Machine.run_cons, hstep]
      exact ⟨hstate, by rw [framesOf_append, hframes]; rfl⟩

theorem delimiter_not_mem_escaped (bs : List UInt8) : 0x7e ∉ bs.flatMap escapeByte := by
  intro h
  obtain ⟨b, -, hb⟩ := List.mem_flatMap.mp h
  unfold escapeByte at hb
  split_ifs at hb with hspecial
  · rcases hspecial with rfl | rfl <;> exact absurd hb (by decide)
  · rw [List.mem_singleton] at hb
    exact hspecial (.inl hb.symm)

theorem run_tail (p : Piece) {i : ℕ} (hi : 0 < i) :
    (machine.run {} (p.bytes.drop i)).1.Idle ∧
      framesOf (machine.run {} (p.bytes.drop i)).2 = [] := by
  obtain ⟨f, n⟩ := p
  have hpart : (Piece.bytes ⟨f, n⟩).drop i <+:
      (f.body.flatMap escapeByte ++ [0x7e]).drop (i - 1) := by
    obtain ⟨j, rfl⟩ := Nat.exists_eq_succ_of_ne_zero hi.ne'
    rw [Piece.bytes, Frame.wire, List.drop_take, List.cons_append, List.drop_succ_cons]
    exact List.take_prefix ..
  have hclean := delimiter_not_mem_escaped f.body
  generalize (Piece.bytes ⟨f, n⟩).drop i = bytes at hpart ⊢
  by_cases hj : i - 1 ≤ (f.body.flatMap escapeByte).length
  · rw [List.drop_append_of_le_length hj] at hpart
    have hdrop : 0x7e ∉ (f.body.flatMap escapeByte).drop (i - 1) := fun h =>
      hclean (List.mem_of_mem_drop h)
    rcases List.prefix_concat_iff.mp hpart with rfl | hbytes
    · obtain ⟨hstate, hframes⟩ := run_outside hdrop
      rw [Machine.run_append, hstate, framesOf_append, hframes, Machine.run_singleton,
        step_delimiter wellFormed_default]
      exact ⟨.inr rfl, rfl⟩
    · obtain ⟨hstate, hframes⟩ := run_outside fun h => hdrop (hbytes.subset h)
      exact ⟨.inl hstate, hframes⟩
  · rw [List.drop_of_length_le (by rw [List.length_append, List.length_singleton]; omega)] at hpart
    rw [List.prefix_nil.mp hpart]
    exact ⟨.inl rfl, rfl⟩

/-- A stream of pieces, joined anywhere. -/
theorem drop_pieces (pieces : List Piece) (i : ℕ) :
    ∃ lead rest, (pieces.flatMap Piece.bytes).drop i = lead ++ rest.flatMap Piece.bytes ∧
      rest <:+ pieces ∧ (machine.run {} lead).1.Idle ∧ framesOf (machine.run {} lead).2 = [] := by
  induction pieces generalizing i with
  | nil => exact ⟨[], [], by simp, List.suffix_rfl, .inl rfl, rfl⟩
  | cons p pieces ih =>
      rw [List.flatMap_cons]
      by_cases hi : i ≤ p.bytes.length
      · rw [List.drop_append_of_le_length hi]
        cases i with
        | zero => exact ⟨[], p :: pieces, by simp, List.suffix_rfl, .inl rfl, rfl⟩
        | succ i =>
            obtain ⟨hidle, hframes⟩ := run_tail p i.succ_pos
            exact ⟨_, pieces, rfl, List.suffix_cons .., hidle, hframes⟩
      · obtain ⟨lead, rest, hsplit, hrest, hlead⟩ := ih (i - p.bytes.length)
        refine ⟨lead, rest, ?_, hrest.trans (List.suffix_cons ..), hlead⟩
        rw [List.drop_append, List.drop_of_length_le (by omega), List.nil_append, hsplit]

/-- Whoever joins the stream anywhere receives frames that were sent, or the starts of some. -/
theorem frames_of_infix {text : List UInt8} (htext : 1 ∉ text) {pieces : List Piece}
    (hp : ∀ p ∈ pieces, p.frame.Encodable) {bytes : List UInt8}
    (hbytes : bytes <:+: text ++ pieces.flatMap Piece.bytes) {f : Frame}
    (hf : f ∈ framesOf (machine.run {} bytes).2) : ∃ p ∈ pieces, f.Abridges p.frame := by
  obtain ⟨before, behind, hstream⟩ := hbytes
  obtain ⟨lead, rest, hlead, hrest, hidle, hframes⟩ : ∃ lead rest,
      bytes ++ behind = lead ++ rest.flatMap Piece.bytes ∧ rest <:+ pieces ∧
      (machine.run {} lead).1.Idle ∧ framesOf (machine.run {} lead).2 = [] := by
    have hdrop := congrArg (List.drop before.length) hstream
    rw [List.append_assoc, List.drop_left] at hdrop
    rw [hdrop]
    by_cases hle : before.length ≤ text.length
    · rw [List.drop_append_of_le_length hle]
      exact ⟨_, pieces, rfl, List.suffix_rfl,
        run_text (fun h => htext (List.mem_of_mem_drop h)) (.inl rfl)⟩
    · rw [List.drop_append, List.drop_of_length_le (by omega), List.nil_append]
      exact drop_pieces pieces _
  have hmem : f ∈ framesOf (machine.run {} (bytes ++ behind)).2 := by
    rw [Machine.run_append, framesOf_append]
    exact List.mem_append_left _ hf
  rw [hlead, Machine.run_append, framesOf_append, hframes, List.nil_append] at hmem
  have hreceived := run_pieces (fun p hmem => hp p (hrest.subset hmem)) hidle.wellFormed
    hidle.holds
  obtain ⟨g, hg, habridges⟩ := Thinning.mem_left hreceived hmem
  obtain ⟨p, hmem, rfl⟩ := List.mem_map.mp hg
  exact ⟨p, hrest.subset hmem, habridges⟩

end Decoder
end IdfRemote.Mux
