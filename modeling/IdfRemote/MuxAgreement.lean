import IdfRemote.MuxCodec
import IdfRemote.MuxRoundTrip
import Mathlib.Data.List.Induction

/-!
# Host and firmware codecs agree

The firmware's decoder keeps its body in a fixed array and tests the length
before it stores a byte; the host's grows a vector and tests after the push. The
relation below matches the two after every byte, so both emit the same events,
and no access of the firmware leaves its arrays. The encoder fills the body and
the wire in the order of the host's lists.
-/
namespace IdfRemote.MuxAgreement
open CArray LittleEndian StreamMachine MuxCodec Mux

theorem pow_256 (i : ℕ) : (256 : ℕ) ^ i = 2 ^ (8 * i) := by
  rw [pow_mul]
  rfl

theorem shift_byte (v : UInt64) (i : ℕ) (hi : i < 8) :
    (v >>> UInt64.ofNat (8 * i)).toUInt8 = UInt8.ofNat (v.toNat / 256 ^ i) := by
  have hshift : (UInt64.ofNat (8 * i)).toNat % 64 = 8 * i := by
    rw [UInt64.toNat_ofNat']
    omega
  apply UInt8.toNat_inj.mp
  rw [UInt64.toNat_toUInt8, UInt64.toNat_shiftRight, hshift, Nat.shiftRight_eq_div_pow, pow_256]
  simp

/-- `put` writes the little-endian bytes. -/
theorem map_shift_byte (v : UInt64) (count : ℕ) (h : count ≤ 8) :
    ((List.range count).map fun i => (v >>> UInt64.ofNat (8 * i)).toUInt8) =
      toLeBytes count v.toNat := by
  apply List.ext_getElem
  · simp
  · intro i hi hj
    have hi : i < count := by simpa using hi
    rw [getElem_toLeBytes, List.getElem_map, List.getElem_range, shift_byte v i (by omega)]

theorem Holds.put {n : ℕ} {a : Vector UInt8 n} {xs : List UInt8} (h : Holds a xs) (v : UInt64)
    (count : ℕ) (hc : count ≤ 8) (hn : xs.length + count ≤ n) :
    ∃ b, MuxCodec.put a xs.length v count = some b ∧ Holds b (xs ++ toLeBytes count v.toNat) := by
  have := h.storeLoop (fun i => some (v >>> UInt64.ofNat (8 * i)).toUInt8) _ count
    (fun _ _ => rfl) hn
  rwa [map_shift_byte v count hc] at this

theorem or_shiftLeft {a k : ℕ} (h : a < 2 ^ k) (b : ℕ) : a ||| b <<< k = a + 2 ^ k * b := by
  rw [Nat.or_comm, ← Nat.shiftLeft_add_eq_or_of_lt h, Nat.shiftLeft_eq, Nat.mul_comm,
    Nat.add_comm]

/-- The shifted bytes occupy disjoint bits, so the disjunction is their sum. -/
theorem foldl_or_bytes (bs : List UInt8) (h : bs.length ≤ 8) :
    (bs.zipIdx.foldl (fun value p => value ||| (p.1.toUInt64 <<< UInt64.ofNat (8 * p.2)))
      0).toNat = fromLeBytes bs := by
  induction bs using List.reverseRecOn with
  | nil => rfl
  | append_singleton bs b ih =>
      have hlen : bs.length < 8 := by
        rw [List.length_append] at h
        exact h
      have hlow : fromLeBytes bs < 2 ^ (8 * bs.length) := pow_256 _ ▸ fromLeBytes_lt bs
      have hb : b.toNat < 2 ^ 8 := b.toNat_lt
      have hfit : b.toNat * 2 ^ (8 * bs.length) < 2 ^ 64 := by
        calc b.toNat * 2 ^ (8 * bs.length) < 2 ^ 8 * 2 ^ (8 * bs.length) :=
              Nat.mul_lt_mul_of_pos_right hb (Nat.two_pow_pos _)
          _ = 2 ^ (8 + 8 * bs.length) := by rw [pow_add]
          _ ≤ 2 ^ 64 := Nat.pow_le_pow_right (by omega) (by omega)
      have hshift : (UInt64.ofNat (8 * bs.length)).toNat % 64 = 8 * bs.length := by
        rw [UInt64.toNat_ofNat']
        omega
      rw [List.zipIdx_append, List.foldl_append]
      simp only [List.zipIdx_cons, List.zipIdx_nil, List.foldl_cons, List.foldl_nil,
        UInt64.toNat_or, UInt64.toNat_shiftLeft, UInt8.toNat_toUInt64, Nat.zero_add]
      rw [ih (by omega), hshift, Nat.shiftLeft_eq, Nat.mod_eq_of_lt hfit, ← Nat.shiftLeft_eq,
        or_shiftLeft hlow, fromLeBytes_concat, pow_256]

theorem Holds.get {n : ℕ} {a : Vector UInt8 n} {xs : List UInt8} (h : Holds a xs)
    (offset count : ℕ) (hc : count ≤ 8) (hxs : offset + count ≤ xs.length) :
    MuxCodec.get a offset count =
      some (UInt64.ofNat (fromLeBytes ((xs.drop offset).take count))) := by
  rw [MuxCodec.get, h.loadLoop offset count hxs, ← foldl_or_bytes _ (by simp; omega),
    UInt64.ofNat_toNat]

theorem foldl_zipIdx {α β : Type} (f : β → α → β) (xs : List α) (k : ℕ) (init : β) :
    (xs.zipIdx k).foldl (fun acc p => f acc p.1) init = xs.foldl f init := by
  induction xs generalizing k init with
  | nil => rfl
  | cons x xs ih => rw [List.zipIdx_cons, List.foldl_cons, List.foldl_cons, ih]

theorem Holds.muxCrc32 {n : ℕ} {a : Vector UInt8 n} {xs : List UInt8} (h : Holds a xs) (size : ℕ)
    (hxs : size ≤ xs.length) : MuxCodec.muxCrc32 a size = some (crc32 (xs.take size)) := by
  rw [MuxCodec.muxCrc32, h.loadLoop 0 size (by omega),
    foldl_zipIdx (fun (crc : UInt32) (b : UInt8) => crcBit^[8] (crc ^^^ b.toUInt32))]
  rfl

/-- The firmware's body array holds the host's body. -/
structure Matches (d : Decoder) (c : MuxDecoder) : Prop where
  inside : c.inside = d.inFrame
  escaped : c.escaped = d.escaped
  overflow : c.overflow = d.overflow
  size : c.size = d.body.length
  body : Holds c.data d.body

theorem Matches.size_le {d : Decoder} {c : MuxDecoder} (h : Matches d c) :
    d.body.length ≤ maxBody := by
  have hle := List.IsPrefix.length_le h.body
  rwa [Vector.length_toList] at hle

theorem matches_zeroed : Matches {} MuxDecoder.zeroed :=
  ⟨rfl, rfl, rfl, rfl, holds_nil _⟩

/-- The frame the caller finds in its buffer. -/
def hostFrame (f : MuxFrame) : Frame :=
  { kind := f.kind, session := f.session, request := f.request
    payload := f.data.toList.take f.size }

theorem toNat_ofNat_fromLeBytes {bs : List UInt8} (h : bs.length ≤ 8) :
    (UInt64.ofNat (fromLeBytes bs)).toNat = fromLeBytes bs := by
  have hlt := fromLeBytes_lt bs
  have hpow : 2 ^ (8 * bs.length) ≤ 2 ^ 64 := Nat.pow_le_pow_right (by omega) (by omega)
  rw [pow_256] at hlt
  rw [UInt64.toNat_ofNat', Nat.mod_eq_of_lt (hlt.trans_le hpow)]

theorem andThen_some (a b : Bool) : andThen (some a) (some b) = some (a && b) := by
  cases a <;> rfl

theorem decode_isSome (body : List UInt8) (hlen : 18 ≤ body.length) :
    (Frame.decode body).isSome =
      (body[0]? == some 1 && (hello ≤ body.getD 1 0 && body.getD 1 0 ≤ Mux.error) &&
        UInt64.ofNat (fromLeBytes ((body.drop 2).take 8)) != 0 &&
        (crc32 (body.take (body.length - 4))).toNat ==
          fromLeBytes (body.drop (body.length - 4))) := by
  have hshort : ¬ body.length < 18 := by omega
  unfold Frame.decode
  rw [Bool.eq_iff_iff]
  simp only [hshort, false_or]
  split_ifs with h₁ h₂ h₃
  · simp only [Option.isSome_none, Bool.false_eq_true, Bool.and_eq_true, beq_iff_eq,
      decide_eq_true_eq, false_iff]
    rintro ⟨⟨⟨hv, hk⟩, -⟩, -⟩
    exact h₁.elim (fun hn => hn hv) (fun hn => hn hk)
  · simp [h₂]
  · obtain ⟨hv, hk⟩ := not_or.mp h₁
    simp only [not_not] at hv hk h₂
    simp only [Option.isSome_some, true_iff, Bool.and_eq_true, beq_iff_eq, decide_eq_true_eq,
      bne_iff_ne]
    exact ⟨⟨⟨hv, hk⟩, h₃⟩, h₂⟩
  · simp [h₃]

/-- The nested conditions of the firmware are the host's decoding test. -/
theorem complete_eq {d : Decoder} {c : MuxDecoder} (h : Matches d c) (ho : d.overflow = false)
    (he : d.escaped = false) : complete c = some (Frame.decode d.body).isSome := by
  unfold complete
  rw [h.overflow, h.escaped, ho, he, h.size]
  by_cases hlen : d.body.length < 18
  · simp [andThen, Frame.decode, hlen]
  · have hdrop : (d.body.drop (d.body.length - 4)).take 4 = d.body.drop (d.body.length - 4) :=
      List.take_of_length_le (by simp; omega)
    have h0 : d.body[0]? = some d.body[0] := List.getElem?_eq_getElem (by omega)
    have h1 : d.body.getD 1 0 = d.body[1] := by
      rw [List.getD, List.getElem?_eq_getElem (by omega), Option.getD_some]
    have hcrc : ((crc32 (d.body.take (d.body.length - 4))).toUInt64 ==
        UInt64.ofNat (fromLeBytes (d.body.drop (d.body.length - 4)))) =
        ((crc32 (d.body.take (d.body.length - 4))).toNat ==
          fromLeBytes (d.body.drop (d.body.length - 4))) := by
      rw [Bool.eq_iff_iff, beq_iff_eq, beq_iff_eq, ← UInt64.toNat_inj, UInt32.toNat_toUInt64,
        toNat_ofNat_fromLeBytes (by simp; omega)]
    rw [decode_isSome _ (by omega), h.body.load (i := 0) (by omega),
      h.body.load (i := 1) (by omega), Holds.get h.body 2 8 (by omega) (by omega),
      Holds.get h.body (d.body.length - 4) 4 (by omega) (by omega),
      Holds.muxCrc32 h.body (d.body.length - 4) (by omega), hdrop, h0, h1, ← hcrc]
    simp only [Option.map_some, Option.bind_eq_bind, Option.bind_some, Option.pure_def,
      andThen_some]
    have hsize : decide (18 ≤ d.body.length) = true := by simp; omega
    simp [hello, Mux.error, hsize, Bool.and_assoc]
    rfl

theorem readFrame_eq {d : Decoder} {c : MuxDecoder} (h : Matches d c) (f : MuxFrame) {g : Frame}
    (hg : Frame.decode d.body = some g) : ∃ f', readFrame c f = some f' ∧ hostFrame f' = g := by
  unfold Frame.decode at hg
  dsimp only at hg
  split_ifs at hg with h₁
  obtain ⟨hshort, -⟩ := not_or.mp h₁
  have hlen : 18 ≤ d.body.length := by omega
  have hle := h.size_le
  simp only [maxBody, maxPayload] at hle
  obtain ⟨data, hcopy, hdata⟩ := (holds_nil f.data).copy h.body 14 (d.body.length - 18)
    (by omega) (by simp only [muxMaxPayload, List.length_nil]; omega)
  have hpayload : data.toList.take (d.body.length - 18) =
      (d.body.take (d.body.length - 4)).drop 14 := by
    have htake := hdata.take
    rw [List.nil_append, List.length_take_of_le (by simp; omega)] at htake
    rw [htake, List.drop_take]
    congr 1
  refine ⟨{ kind := d.body[1]
            session := UInt64.ofNat (fromLeBytes ((d.body.drop 2).take 8))
            request := (UInt64.ofNat (fromLeBytes ((d.body.drop 10).take 4))).toUInt32
            size := d.body.length - 18
            data := data }, ?_, ?_⟩
  · unfold readFrame
    rw [h.size, h.body.load (i := 1) (by omega), Holds.get h.body 2 8 (by omega) (by omega),
      Holds.get h.body 10 4 (by omega) (by omega)]
    simp only [Option.bind_eq_bind, Option.bind_some]
    rw [show copy f.data 0 c.data 14 (d.body.length - 18) = some data from hcopy]
    rfl
  · have h1 : d.body.getD 1 0 = d.body[1] := by
      rw [List.getD, List.getElem?_eq_getElem (by omega), Option.getD_some]
    have hrequest : (UInt64.ofNat (fromLeBytes ((d.body.drop 10).take 4))).toUInt32 =
        UInt32.ofNat (fromLeBytes ((d.body.drop 10).take 4)) := by
      apply UInt32.toNat_inj.mp
      rw [UInt64.toNat_toUInt32, toNat_ofNat_fromLeBytes (by simp), UInt32.toNat_ofNat']
    rw [← Option.some.inj hg, hostFrame]
    simp only [h1, hrequest, hpayload]

/-- The events of one call of `mux_feed`. -/
def eventsOf (result : ℤ) (b : UInt8) (f : MuxFrame) : List Event :=
  if result = 1 then [.frame (hostFrame f)]
  else if result = 2 then [.raw b]
  else if result = -1 then [.corrupt]
  else []

/-- `mux_feed` called on each byte with the same decoder and frame buffer. -/
def firmware : PartialMachine (MuxDecoder × MuxFrame) UInt8 Event where
  step s b := (muxFeed s.1 b s.2).map fun r => ((r.2.1, r.2.2), eventsOf r.1 b r.2.2)

theorem Matches.restart {d : Decoder} {c : MuxDecoder} (hd : d.WellFormed) :
    Matches d.restart
      { c with inside := true, size := 0, escaped := false, overflow := false } := by
  rw [Decoder.restart_eq_synced hd]
  exact ⟨rfl, rfl, rfl, rfl, holds_nil _⟩

theorem feed_delimiter {d : Decoder} {c : MuxDecoder} (h : Matches d c) (f : MuxFrame) :
    ∃ r f', muxFeed c 0x7e f =
        some (r, { c with inside := true, size := 0, escaped := false, overflow := false }, f') ∧
      eventsOf r 0x7e f' = d.finish.flatMap Decoded.events := by
  have hempty : (c.size != 0) = !d.body.isEmpty := by
    rw [h.size]
    cases d.body <;> rfl
  have hguard : (c.inside && (c.size != 0 || c.overflow || c.escaped)) =
      (d.inFrame && (!d.body.isEmpty || d.overflow || d.escaped)) := by
    rw [hempty, h.inside, h.overflow, h.escaped]
  by_cases hin : d.inFrame = true ∧ (d.overflow = true ∨ d.escaped = true)
  · have hfalse : complete c = some false := by
      rcases hin.2 with ho | he
      · simp [complete, h.overflow, ho, andThen]
      · simp [complete, h.escaped, he, andThen]
    refine ⟨-1, f, ?_, ?_⟩
    · have hg : (d.inFrame && (!d.body.isEmpty || d.overflow || d.escaped)) = true := by
        rcases hin.2 with ho | he <;> simp [*]
      simp [muxFeed, hguard, hg, hfalse]
    · rcases hin.2 with ho | he <;> simp [eventsOf, Decoder.finish, Decoded.events, *]
  · by_cases hbody : d.inFrame = true ∧ d.body ≠ []
    · have ho : d.overflow = false := by
        by_contra ho
        exact hin ⟨hbody.1, .inl (by simpa using ho)⟩
      have he : d.escaped = false := by
        by_contra he
        exact hin ⟨hbody.1, .inr (by simpa using he)⟩
      have hg : (d.inFrame && (!d.body.isEmpty || d.overflow || d.escaped)) = true := by
        simp [hbody]
      cases hdec : Frame.decode d.body with
      | none =>
          refine ⟨-1, f, ?_, ?_⟩
          · simp [muxFeed, hguard, hg, complete_eq h ho he, hdec]
          · simp [eventsOf, Decoder.finish, Decoded.events, hbody, ho, he, hdec]
      | some g =>
          obtain ⟨f', hread, hframe⟩ := readFrame_eq h f hdec
          refine ⟨1, f', ?_, ?_⟩
          · simp [muxFeed, hguard, hg, complete_eq h ho he, hdec, hread]
          · simp [eventsOf, Decoder.finish, Decoded.events, hbody, ho, he, hdec, hframe]
    · have hg : (d.inFrame && (!d.body.isEmpty || d.overflow || d.escaped)) = false := by
        cases hd : d.inFrame with
        | false => rfl
        | true => simp_all
      refine ⟨0, f, by simp [muxFeed, hguard, hg], ?_⟩
      cases hd : d.inFrame with
      | false => simp [eventsOf, Decoder.finish, hd]
      | true => simp_all [eventsOf, Decoder.finish]

theorem unframed_eq {d : Decoder} {c : MuxDecoder} (h : Matches d c) (b : UInt8) :
    (!c.inside || (c.size == 0 && !c.escaped && !c.overflow && b != 1)) = d.unframed b := by
  have hempty : (c.size == 0) = d.body.isEmpty := by
    rw [h.size]
    cases d.body <;> rfl
  rw [Decoder.unframed, hempty, h.inside, h.escaped, h.overflow]

theorem feed_unframed {d : Decoder} {c : MuxDecoder} (h : Matches d c) (f : MuxFrame) {b : UInt8}
    (hb : b ≠ 0x7e) (hu : d.unframed b = true) :
    muxFeed c b f = some (2, { c with inside := false }, f) := by
  rw [muxFeed, if_neg hb, if_pos ((unframed_eq h b).trans hu)]

/-- Testing the length before the store is the host's test after the push. -/
theorem feed_push {d : Decoder} {c : MuxDecoder} (h : Matches d c) (f : MuxFrame) {b : UInt8}
    (hb : b ≠ 0x7e) (hu : d.unframed b = false) :
    ∃ c', muxFeed c b f = some (0, c', f) ∧ Matches (d.push b) c' := by
  have hle := h.size_le
  have hguard : ¬ (!c.inside || (c.size == 0 && !c.escaped && !c.overflow && b != 1)) = true := by
    rw [unframed_eq h b, hu]
    exact Bool.false_ne_true
  rw [muxFeed, if_neg hb, if_neg hguard, Decoder.push]
  cases ho : d.overflow with
  | true => exact ⟨c, by simp [h.overflow, ho], by simpa [ho] using h⟩
  | false =>
      by_cases hesc : d.escaped = false ∧ b = 0x7d
      · refine ⟨{ c with escaped := true }, ?_, ?_⟩
        · simp [h.overflow, ho, h.escaped, hesc]
        · have hpush : (d.unescape b).limit = { d with escaped := true } := by
            rw [Decoder.unescape, if_neg (by simp [hesc.1]), if_pos hesc.2]
            exact Decoder.limit_of_le hle
          rw [if_neg (by simp), hpush]
          exact ⟨h.inside, rfl, h.overflow, h.size, h.body⟩
      · -- The byte is stored, or both decoders overflow on it.
        let x := if d.escaped then b ^^^ 0x20 else b
        have hpush : d.unescape b = { d with body := d.body ++ [x], escaped := false } := by
          cases he : d.escaped with
          | true => simp [Decoder.unescape, he, x]
          | false => simp [Decoder.unescape, he, x, show b ≠ 0x7d from fun hb => hesc ⟨he, hb⟩]
        have hskip : ¬ (!c.escaped && b == 0x7d) = true := by
          rw [h.escaped]
          simpa using hesc
        have hroom : ¬ c.overflow = true := by simp [h.overflow, ho]
        rw [if_neg hroom, if_neg hskip, if_neg Bool.false_ne_true, hpush, h.escaped]
        dsimp only
        by_cases hfull : d.body.length = maxBody
        · refine ⟨_, if_pos (h.size.trans hfull), ?_⟩
          rw [Decoder.limit, if_pos (by simp [hfull])]
          exact ⟨h.inside, rfl, rfl, rfl, holds_nil _⟩
        · obtain ⟨data, hstore, hdata⟩ := h.body.store
            (show d.body.length < muxMaxBody from Nat.lt_of_le_of_ne hle hfull) x
          refine ⟨{ c with escaped := false, data := data, size := c.size + 1 }, ?_, ?_⟩
          · rw [if_neg (by rw [h.size]; exact hfull), h.size]
            simp only [Option.bind_eq_bind, Option.pure_def]
            rw [show store c.data d.body.length (if d.escaped then b ^^^ 0x20 else b) = some data
              from hstore]
            rfl
          · rw [Decoder.limit_of_le (by simp; omega)]
            exact ⟨h.inside, rfl, h.overflow, by simp [h.size], hdata⟩

/-- The firmware's decoder refines the host's byte machine. -/
theorem firmware_refines :
    firmware.Refines Decoder.machine fun d s => Matches d s.1 ∧ d.WellFormed where
  step := by
    rintro d ⟨c, f⟩ b ⟨h, hd⟩
    have hwf : (Decoder.machine.step d b).1.WellFormed := Decoder.wellFormed_step b hd
    by_cases hb : b = 0x7e
    · subst hb
      obtain ⟨r, f', hfeed, hevents⟩ := feed_delimiter h f
      refine ⟨({ c with inside := true, size := 0, escaped := false, overflow := false }, f'),
        ?_, Matches.restart hd, hwf⟩
      simp [firmware, hfeed, hevents, Decoder.machine, Decoder.step]
    · cases hu : d.unframed b with
      | true =>
          refine ⟨({ c with inside := false }, f), ?_, ?_, hwf⟩
          · simp [firmware, feed_unframed h f hb hu, eventsOf, Decoder.machine, Decoder.step, hb,
              hu]
          · simp only [Decoder.machine, Decoder.step, hb, hu, if_true, if_false]
            exact ⟨rfl, h.escaped, h.overflow, h.size, h.body⟩
      | false =>
          obtain ⟨c', hfeed, hmatch⟩ := feed_push h f hb hu
          refine ⟨(c', f), ?_, ?_, hwf⟩
          · simp [firmware, hfeed, hb, hu, eventsOf, Decoder.machine, Decoder.step]
          · simpa [Decoder.machine, Decoder.step, hb, hu] using hmatch

/-- One byte of the body is escaped behind what the wire already holds. -/
theorem escapeInto_holds {body : Vector UInt8 muxMaxBody} {bs xs : List UInt8} {i : ℕ}
    (hbody : Holds body bs) (hi : i < bs.length) {wire : Vector UInt8 muxMaxWire}
    (hwire : Holds wire xs) (hroom : xs.length + 2 ≤ muxMaxWire) :
    ∃ wire', escapeInto body (xs.length, wire) i =
        some ((xs ++ escapeByte bs[i]).length, wire') ∧
      Holds wire' (xs ++ escapeByte bs[i]) := by
  by_cases hesc : bs[i] = 0x7e ∨ bs[i] = 0x7d
  · obtain ⟨w₁, hs₁, hh₁⟩ := hwire.store (by omega) 0x7d
    obtain ⟨w₂, hs₂, hh₂⟩ := hh₁.store (by simp; omega) (bs[i] ^^^ 0x20)
    have hlen : (xs ++ [0x7d]).length = xs.length + 1 := by simp
    have hescape : escapeByte bs[i] = [0x7d, bs[i] ^^^ 0x20] := if_pos hesc
    rw [hlen] at hs₂
    refine ⟨w₂, ?_, by simpa [hescape] using hh₂⟩
    simp [escapeInto, hbody.load hi, hesc, hs₁, hs₂, hescape]
  · obtain ⟨w₁, hs₁, hh₁⟩ := hwire.store (by omega) bs[i]
    have hescape : escapeByte bs[i] = [bs[i]] := if_neg hesc
    refine ⟨w₁, ?_, by simpa [hescape] using hh₁⟩
    simp [escapeInto, hbody.load hi, hesc, hs₁, hescape]

theorem length_escapeByte_le (b : UInt8) : (escapeByte b).length ≤ 2 := by
  unfold escapeByte
  split_ifs <;> simp

theorem length_flatMap_escapeByte_le (bs : List UInt8) :
    (bs.flatMap escapeByte).length ≤ 2 * bs.length := by
  induction bs with
  | nil => simp
  | cons b bs ih =>
      have := length_escapeByte_le b
      simp only [List.flatMap_cons, List.length_append, List.length_cons]
      omega

theorem escapeLoop_holds {body : Vector UInt8 muxMaxBody} {bs : List UInt8}
    (hbody : Holds body bs) (size : ℕ) (hsize : size ≤ bs.length)
    {wire : Vector UInt8 muxMaxWire} (hwire : Holds wire [0x7e])
    (hroom : 1 + 2 * size ≤ muxMaxWire) :
    ∃ wire', (List.range size).foldlM (escapeInto body) (1, wire) =
        some ((0x7e :: (bs.take size).flatMap escapeByte).length, wire') ∧
      Holds wire' (0x7e :: (bs.take size).flatMap escapeByte) := by
  induction size with
  | zero => exact ⟨wire, rfl, by simpa using hwire⟩
  | succ size ih =>
      obtain ⟨w, hloop, hheld⟩ := ih (by omega) (by omega)
      have hlen := length_flatMap_escapeByte_le (bs.take size)
      rw [List.length_take_of_le (by omega)] at hlen
      obtain ⟨w', hstep, hnext⟩ := escapeInto_holds hbody (show size < bs.length by omega) hheld
        (by rw [List.length_cons]; omega)
      have htake : 0x7e :: (bs.take (size + 1)).flatMap escapeByte =
          0x7e :: (bs.take size).flatMap escapeByte ++ escapeByte bs[size] := by
        rw [List.take_add_one, List.getElem?_eq_getElem (by omega), Option.toList_some,
          List.flatMap_append, List.flatMap_singleton, List.cons_append]
      refine ⟨w', ?_, htake ▸ hnext⟩
      rw [List.range_succ, List.foldlM_append, hloop, htake, ← hstep]
      simp

/-- The C structure of a host frame. Its array has no room for a longer payload. -/
structure Represents (c : MuxFrame) (f : Frame) : Prop where
  kind : c.kind = f.kind
  session : c.session = f.session
  request : c.request = f.request
  size : c.size = f.payload.length
  payload : f.payload.length ≤ maxPayload → Holds c.data f.payload

theorem represents_hostFrame {c : MuxFrame} (h : c.size ≤ muxMaxPayload) :
    Represents c (hostFrame c) where
  kind := rfl
  session := rfl
  request := rfl
  size := by
    simp [hostFrame]
    omega
  payload := fun _ => List.take_prefix _ _

theorem refuses_iff {c : MuxFrame} {f : Frame} (h : Represents c f) :
    (c.size > muxMaxPayload ∨ c.session = 0 ∨ c.kind < 1 ∨ c.kind > 7) ↔ ¬ f.Encodable := by
  rw [Frame.Encodable, h.size, h.session, h.kind, not_and_or, not_and_or, not_and_or, not_le,
    UInt8.not_le, UInt8.not_le, not_not]
  tauto

/-- The body array is filled in the order of the host's body. -/
theorem muxEncode_wire {c : MuxFrame} {f : Frame} (h : Represents c f) (hf : f.Encodable)
    (body : Vector UInt8 muxMaxBody) (wire : Vector UInt8 muxMaxWire) :
    ∃ wire', muxEncode c body wire = some (f.wire.length, wire') ∧ Holds wire' f.wire := by
  have hp : f.payload.length ≤ muxMaxPayload := hf.1
  have hbodySize : muxMaxBody = muxMaxPayload + 18 := rfl
  have hwireSize : muxMaxWire = 2 * muxMaxPayload + 38 := rfl
  obtain ⟨b₁, hs₁, hh₁⟩ := (holds_nil body).store (by simp; omega) 1
  obtain ⟨b₂, hs₂, hh₂⟩ := hh₁.store (by simp; omega) f.kind
  obtain ⟨b₃, hs₃, hh₃⟩ := Holds.put hh₂ f.session 8 le_rfl (by simp; omega)
  obtain ⟨b₄, hs₄, hh₄⟩ := Holds.put hh₃ f.request.toUInt64 4 (by omega) (by simp; omega)
  obtain ⟨b₅, hs₅, hh₅⟩ := hh₄.copy (h.payload hf.1) 0 f.payload.length (by omega)
    (by simp; omega)
  have hheader : [] ++ [1] ++ [f.kind] ++ toLeBytes 8 f.session.toNat ++
      toLeBytes 4 f.request.toUInt64.toNat ++ (f.payload.drop 0).take f.payload.length =
      f.header := by
    simp [Frame.header]
  rw [hheader] at hh₅
  obtain ⟨b₆, hs₆, hh₆⟩ := Holds.put hh₅ (crc32 f.header).toUInt64 4 (by omega) (by simp; omega)
  have hbody : f.header ++ toLeBytes 4 (crc32 f.header).toUInt64.toNat = f.body := by
    rw [UInt32.toNat_toUInt64]
    rfl
  rw [hbody] at hh₆
  obtain ⟨w₁, ht₁, hw₁⟩ := (holds_nil wire).store (by simp; omega) 0x7e
  obtain ⟨w₂, ht₂, hw₂⟩ := escapeLoop_holds hh₆ f.body.length le_rfl hw₁ (by simp; omega)
  rw [List.take_length] at ht₂ hw₂
  have hwireLen := length_flatMap_escapeByte_le f.body
  rw [Frame.length_body] at hwireLen
  obtain ⟨w₃, ht₃, hw₃⟩ := hw₂.store (by rw [List.length_cons]; omega) 0x7e
  refine ⟨w₃, ?_, hw₃⟩
  have hsize : 14 + f.payload.length = f.header.length := by simp
  have hbodyLen : f.header.length + 4 = f.body.length := by simp; omega
  rw [muxEncode, if_neg (fun hr => (refuses_iff h).mp hr hf), h.kind, h.session, h.request,
    h.size]
  rw [show store body 0 1 = some b₁ from hs₁, Option.bind_eq_bind, Option.bind_some,
    show store b₁ 1 f.kind = some b₂ from hs₂, Option.bind_some,
    show put b₂ 2 f.session 8 = some b₃ from hs₃, Option.bind_some,
    show put b₃ 10 f.request.toUInt64 4 = some b₄ from hs₄, Option.bind_some,
    show copy b₄ 14 c.data 0 f.payload.length = some b₅ from hs₅, Option.bind_some]
  dsimp only
  have ht₀ : store wire 0 0x7e = some w₁ := ht₁
  rw [hsize, Holds.muxCrc32 hh₅ _ le_rfl, List.take_length]
  simp only [Option.bind_eq_bind, Option.bind_some, hs₆, ht₀, hbodyLen, ht₂, ht₃]
  simp [Frame.wire]

/-- What is on the wire is the host's encoding of the frame in the buffer. -/
theorem muxEncode_hostFrame {c : MuxFrame} (h : c.size ≤ muxMaxPayload)
    (hf : (hostFrame c).Encodable) (body : Vector UInt8 muxMaxBody)
    (wire : Vector UInt8 muxMaxWire) :
    ∃ size wire', muxEncode c body wire = some (size, wire') ∧
      wire'.toList.take size = (hostFrame c).wire := by
  obtain ⟨wire', hencode, hheld⟩ := muxEncode_wire (represents_hostFrame h) hf body wire
  exact ⟨_, wire', hencode, hheld.take⟩

/-- For every stream, the firmware's events are those of the host under any cut, and no access
leaves an array; every frame is encoded to the same bytes or refused by both. -/
theorem codecs_agree :
    (∀ (stream : List UInt8) (cs : List (List UInt8)) (buffer : MuxFrame), cs.flatten = stream →
      ∃ s, firmware.run (MuxDecoder.zeroed, buffer) stream =
        some (s, (Decoder.feedAll {} cs).2.flatMap Decoded.events)) ∧
    (∀ (c : MuxFrame) (f : Frame) (body : Vector UInt8 muxMaxBody)
        (wire : Vector UInt8 muxMaxWire), Represents c f →
      ∃ n wire', muxEncode c body wire = some (n, wire') ∧
        ((n = 0 ∧ ∃ e, f.encode = .error e) ∨
          (0 < n ∧ f.encode = .ok (wire'.toList.take n)))) := by
  refine ⟨fun stream cs buffer hcs => ?_, fun c f body wire h => ?_⟩
  · have hstart : Matches {} MuxDecoder.zeroed ∧ Decoder.WellFormed {} :=
      ⟨matches_zeroed, Decoder.wellFormed_default⟩
    obtain ⟨s, hrun, -⟩ := firmware_refines.run
      (t := (MuxDecoder.zeroed, buffer)) hstart stream
    exact ⟨s, by rw [hrun, (Decoder.feedAll_refines {} cs).2, hcs]⟩
  · by_cases hf : f.Encodable
    · obtain ⟨wire', henc, hheld⟩ := muxEncode_wire h hf body wire
      refine ⟨_, wire', henc, .inr ⟨by simp [Frame.wire], ?_⟩⟩
      rw [hheld.take]
      exact Frame.encode_eq_ok.mpr ⟨hf, rfl⟩
    · refine ⟨0, wire, if_pos ((refuses_iff h).mpr hf), .inl ⟨rfl, ?_⟩⟩
      cases henc : f.encode with
      | error e => exact ⟨e, rfl⟩
      | ok w => exact absurd (Frame.encode_eq_ok.mp henc).1 hf

def emptyHello : MuxFrame :=
  { kind := 1, session := 1, request := 0, size := 0, data := .replicate _ 0 }

theorem codecs_agree_hello :
    (∃ s, firmware.run (MuxDecoder.zeroed, emptyHello) [0x41, 0x7e, 0x01, 0x7e] =
      some (s, (Decoder.feedAll {} [[0x41, 0x7e], [0x01, 0x7e]]).2.flatMap Decoded.events)) ∧
    (∃ n wire', muxEncode emptyHello (.replicate _ 0) (.replicate _ 0) = some (n, wire') ∧
      ((n = 0 ∧ ∃ e, Frame.encode { kind := 1, session := 1, request := 0, payload := [] } =
          .error e) ∨
        (0 < n ∧ Frame.encode { kind := 1, session := 1, request := 0, payload := [] } =
          .ok (wire'.toList.take n)))) := by
  constructor
  · apply codecs_agree.1 _ [[0x41, 0x7e], [0x01, 0x7e]]
    rfl
  · apply codecs_agree.2 emptyHello
    exact ⟨rfl, rfl, rfl, rfl, fun _ => holds_nil _⟩

end IdfRemote.MuxAgreement
