import IdfRemote.MuxAgreement

/-!
# The firmware's codec stays within its buffers

A decoder that has read any bytes from the start holds no more than a body, so the
next store has room, and a body that is complete has room for its header and its
checksum. The encoder fills at most a body and a wire.
-/
namespace IdfRemote.MuxAgreement
open CArray MuxCodec
open Mux (Decoder Frame)

theorem andThen_eq_true {a b : Option Bool} (h : andThen a b = some true) :
    a = some true ∧ b = some true := by
  unfold andThen at h
  obtain ⟨x, hx, hrest⟩ := Option.bind_eq_some_iff.mp h
  cases x with
  | false => cases hrest
  | true => exact ⟨hx, hrest⟩

theorem complete_size {c : MuxDecoder} (h : complete c = some true) : 18 ≤ c.size := by
  unfold complete at h
  have hfirst := (andThen_eq_true h).1
  simp only [Option.some.injEq, Bool.and_eq_true, decide_eq_true_eq] at hfirst
  exact hfirst.2

theorem readFrame_fields {c : MuxDecoder} {f f' : MuxFrame} (h : readFrame c f = some f') :
    get c.data 2 8 = some f'.session ∧ f'.size = c.size - 18 := by
  unfold readFrame at h
  simp only [Option.bind_eq_bind, Option.bind_eq_some_iff, Option.pure_def,
    Option.some.injEq] at h
  obtain ⟨kind, -, session, hsession, request, -, data, -, rfl⟩ := h
  exact ⟨hsession, rfl⟩

/-- Only a delimiter completes a frame. -/
theorem muxFeed_one {d : Decoder} {c c' : MuxDecoder} (hd : Matches d c) {b : UInt8}
    {f f' : MuxFrame} (h : muxFeed c b f = some (1, c', f')) :
    complete c = some true ∧ readFrame c f = some f' := by
  by_cases hb : b = 0x7e
  · unfold muxFeed at h
    rw [if_pos hb] at h
    dsimp only at h
    split_ifs at h with hinside
    · obtain ⟨whole, hcomplete, h⟩ := Option.bind_eq_some_iff.mp h
      cases whole with
      | true =>
          rw [if_pos rfl] at h
          obtain ⟨f'', hread, hsame⟩ := Option.bind_eq_some_iff.mp h
          cases hsame
          exact ⟨hcomplete, hread⟩
      | false => cases h
    · cases h
  · cases hu : d.unframed b with
    | true => cases h.symm.trans (feed_unframed hd f hb hu)
    | false =>
        obtain ⟨c'', hpush, -⟩ := feed_push hd f hb hu
        cases h.symm.trans hpush

theorem store_eq_some {α : Type} {n : ℕ} {a a' : Vector α n} {i : ℕ} {x : α}
    (h : store a i x = some a') : i < n := by
  unfold store at h
  split_ifs at h with hi
  exact hi

/-- The body changes by a store at its size alone. -/
theorem muxFeed_data {c c' : MuxDecoder} {b : UInt8} {f f' : MuxFrame} {r : ℤ}
    (h : muxFeed c b f = some (r, c', f')) :
    c'.data = c.data ∨ ∃ x, store c.data c.size x = some c'.data := by
  unfold muxFeed at h
  by_cases hb : b = 0x7e
  · rw [if_pos hb] at h
    dsimp only at h
    split_ifs at h
    · obtain ⟨whole, -, h⟩ := Option.bind_eq_some_iff.mp h
      cases whole with
      | true =>
          rw [if_pos rfl] at h
          obtain ⟨f'', -, hsame⟩ := Option.bind_eq_some_iff.mp h
          cases hsame
          exact .inl rfl
      | false =>
          cases h
          exact .inl rfl
    · cases h
      exact .inl rfl
  · rw [if_neg hb] at h
    split_ifs at h
    · cases h
      exact .inl rfl
    · cases h
      exact .inl rfl
    · cases h
      exact .inl rfl
    all_goals
      dsimp only at h
      split_ifs at h
      · cases h
        exact .inl rfl
      · obtain ⟨data, hstore, hsame⟩ := Option.bind_eq_some_iff.mp h
        cases hsame
        exact .inr ⟨_, hstore⟩

/-- What a call of `mux_feed` stores and copies. -/
structure FeedBounds (c c' : MuxDecoder) (r : ℤ) (f' : MuxFrame) : Prop where
  size : c.size ≤ muxMaxBody
  body : c'.data = c.data ∨ c.size < muxMaxBody ∧ ∃ x, store c.data c.size x = some c'.data
  payload : r = 1 → 18 ≤ c.size ∧ f'.size = c.size - 18 ∧ f'.size ≤ muxMaxPayload

theorem feedBounds {d : Decoder} {c c' : MuxDecoder} (hd : Matches d c) {b : UInt8}
    {f f' : MuxFrame} {r : ℤ} (h : muxFeed c b f = some (r, c', f')) : FeedBounds c c' r f' := by
  have hsize : c.size ≤ muxMaxBody := hd.size ▸ hd.size_le
  refine ⟨hsize, ?_, ?_⟩
  · exact (muxFeed_data h).imp_right fun ⟨x, hstore⟩ => ⟨store_eq_some hstore, x, hstore⟩
  · rintro rfl
    obtain ⟨hcomplete, hread⟩ := muxFeed_one hd h
    have hread := (readFrame_fields hread).2
    refine ⟨complete_size hcomplete, hread, ?_⟩
    simp only [muxMaxBody] at hsize
    omega

/-- What a call of `mux_encode` builds and writes for a frame that it accepts. -/
structure EncodeBounds (f : MuxFrame) (n : ℕ) (wire : Vector UInt8 muxMaxWire) : Prop where
  accepted : 0 < n
  body : (hostFrame f).body.length = 14 + f.size + 4
  body_le : 14 + f.size + 4 ≤ muxMaxBody
  wire : wire.toList.take n = (hostFrame f).wire
  wire_le : n ≤ muxMaxWire

theorem encodeBounds {f : MuxFrame} (hsize : f.size ≤ muxMaxPayload)
    (hf : (hostFrame f).Encodable) (body : Vector UInt8 muxMaxBody)
    (wire : Vector UInt8 muxMaxWire) :
    ∃ n wire', muxEncode f body wire = some (n, wire') ∧ EncodeBounds f n wire' := by
  obtain ⟨wire', hencode, hheld⟩ := muxEncode_wire (represents_hostFrame hsize) hf body wire
  have hwire := List.IsPrefix.length_le hheld
  rw [Vector.length_toList] at hwire
  have hpayload := (represents_hostFrame hsize).size
  refine ⟨_, wire', hencode, by simp [Frame.wire], ?_, ?_, hheld.take, hwire⟩
  · rw [Frame.length_body, ← hpayload]
    omega
  · simp only [muxMaxBody]
    omega

/-- Behind any stream the next byte is stored and the next payload copied within the buffers, and
so are the body and the wire of a frame; a frame that has no room in them is refused. -/
theorem codec_within_bounds :
    (∀ (stream : List UInt8) (b : UInt8) (buffer : MuxFrame), ∃ c f events r c' f',
      firmware.run (MuxDecoder.zeroed, buffer) stream = some ((c, f), events) ∧
        muxFeed c b f = some (r, c', f') ∧ FeedBounds c c' r f') ∧
    (∀ (f : MuxFrame) (body : Vector UInt8 muxMaxBody) (wire : Vector UInt8 muxMaxWire),
      muxEncode f body wire = some (0, wire) ∨
        ∃ n wire', muxEncode f body wire = some (n, wire') ∧ EncodeBounds f n wire') := by
  refine ⟨fun stream b buffer => ?_, fun f body wire => ?_⟩
  · have hstart : Matches {} MuxDecoder.zeroed ∧ Decoder.WellFormed {} :=
      ⟨matches_zeroed, Decoder.wellFormed_default⟩
    obtain ⟨⟨c, f⟩, hrun, hmatch⟩ := firmware_refines.run (t := (MuxDecoder.zeroed, buffer))
      hstart stream
    obtain ⟨s, hstep, -⟩ := firmware_refines.step b hmatch
    obtain ⟨⟨r, c', f'⟩, hfeed, -⟩ := Option.map_eq_some_iff.mp hstep
    exact ⟨c, f, _, r, c', f', hrun, hfeed, feedBounds hmatch.1 hfeed⟩
  · by_cases hrefused : f.size > muxMaxPayload ∨ f.session = 0 ∨ f.kind < 1 ∨ f.kind > 7
    · exact .inl (if_pos hrefused)
    · have hsize : f.size ≤ muxMaxPayload := not_lt.mp fun h => hrefused (.inl h)
      have hf : (hostFrame f).Encodable := by
        by_contra hnone
        exact hrefused ((refuses_iff (represents_hostFrame hsize)).mpr hnone)
      exact .inr (encodeBounds hsize hf body wire)

end IdfRemote.MuxAgreement
