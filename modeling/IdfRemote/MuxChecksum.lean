import IdfRemote.MuxRoundTrip
import IdfRemote.ShiftRegister

/-!
# Damage the frame checksum always shows

The loop of `crc32` is a shift register of 32 bits that takes bytes. A body passes
the check of `decode` when the register, fed with the whole body and its stored
checksum, ends in one fixed value; the stored bytes are then bytes like the others.
Two bodies of one length that differ within four bytes leave different registers.
-/
namespace IdfRemote.Mux
open LittleEndian ShiftRegister

def polynomial : BitVec 32 := 0xedb88320

theorem polynomial_msb : polynomial.msb = true := by decide

/-- A byte as a symbol of the register. -/
def symbol (b : UInt8) : BitVec 32 := b.toBitVec.setWidth 32

theorem symbol_below (b : UInt8) : Below 8 (symbol b) := by
  intro i hi
  simp [symbol, BitVec.getLsbD_of_ge b.toBitVec i hi]

theorem symbol_injective : Function.Injective symbol := by
  intro a b h
  apply UInt8.toBitVec_inj.mp
  have hcut := congrArg (BitVec.setWidth 8) h
  simpa [symbol] using hcut

/-- The mask of the source selects the feedback word by the low bit. -/
theorem crcShift_toBitVec (c : UInt32) :
    (crcShift c).toBitVec = shift polynomial c.toBitVec := by
  have hmask : (0xedb88320 &&& (0 - (c &&& 1)) : UInt32).toBitVec =
      if c.toBitVec.getLsbD 0 then polynomial else 0 := by
    have hlow : (c &&& 1 : UInt32).toBitVec =
        BitVec.setWidth 32 (BitVec.ofBool (c.toBitVec.getLsbD 0)) :=
      BitVec.and_one_eq_setWidth_ofBool_getLsbD
    rw [UInt32.toBitVec_and, UInt32.toBitVec_sub, hlow]
    cases c.toBitVec.getLsbD 0 <;> rfl
  rw [crcShift, UInt32.toBitVec_xor, hmask]
  rfl

theorem crcShift_iterate_toBitVec (c : UInt32) (n : ℕ) :
    (crcShift^[n] c).toBitVec = (shift polynomial)^[n] c.toBitVec := by
  induction n generalizing c with
  | zero => rfl
  | succ n ih => simp only [Function.iterate_succ_apply, ih, crcShift_toBitVec]

theorem crcByte_toBitVec (c : UInt32) (b : UInt8) :
    (crcByte c b).toBitVec = feed polynomial 8 c.toBitVec (symbol b) := by
  rw [crcByte, crcShift_iterate_toBitVec]
  rfl

theorem foldl_crcByte_toBitVec (bytes : List UInt8) (c : UInt32) :
    (bytes.foldl crcByte c).toBitVec =
      (bytes.map symbol).foldl (feed polynomial 8) c.toBitVec := by
  induction bytes generalizing c with
  | nil => rfl
  | cons b bytes ih => simp only [List.foldl_cons, List.map_cons, ih, crcByte_toBitVec]

theorem word_symbols (bytes : List UInt8) :
    word 8 (bytes.map symbol) = BitVec.ofNat 32 (fromLeBytes bytes) := by
  induction bytes with
  | nil => rfl
  | cons b bytes ih =>
      apply BitVec.eq_of_getLsbD_eq
      intro i hi
      have hb : b.toNat < 2 ^ 8 := b.toNat_lt
      have hsum : fromLeBytes (b :: bytes) = 2 ^ 8 * fromLeBytes bytes + b.toNat := by
        rw [fromLeBytes, Nat.add_comm]
        rfl
      rw [List.map_cons, word, ih, hsum, BitVec.getLsbD_xor, BitVec.getLsbD_shiftLeft,
        BitVec.getLsbD_ofNat, BitVec.getLsbD_ofNat, Nat.testBit_two_pow_mul_add _ hb]
      by_cases hlow : i < 8
      · simp [symbol, BitVec.getLsbD, hi, hlow]
      · simp [symbol, BitVec.getLsbD_of_ge b.toBitVec i (by omega), hi, hlow,
          show i - 8 < 32 by omega]

theorem symbols_below (bytes : List UInt8) : ∀ x ∈ bytes.map symbol, Below 8 x := by
  intro x hx
  obtain ⟨b, -, rfl⟩ := List.mem_map.mp hx
  exact symbol_below b

/-- The value of the register after a body with a matching checksum. -/
def residue : BitVec 32 := (shift polynomial)^[32] (BitVec.allOnes 32)

/-- The check of `decode` as a fact about the register after the whole body. -/
theorem stored_crc32_iff (bytes stored : List UInt8) (hlen : stored.length = 4) :
    (crc32 bytes).toNat = fromLeBytes stored ↔
      ((bytes ++ stored).foldl crcByte (~~~ 0)).toBitVec = residue := by
  have hfit : 8 * (stored.map symbol).length = 32 := by simp [hlen]
  have hlt : fromLeBytes stored < 2 ^ 32 := by
    have := fromLeBytes_lt stored
    rw [hlen] at this
    exact this
  have hnum : (crc32 bytes).toNat = fromLeBytes stored ↔
      BitVec.ofNat 32 (fromLeBytes stored) =
        ~~~ (bytes.foldl crcByte (~~~ 0)).toBitVec := by
    rw [← BitVec.toNat_inj, BitVec.toNat_ofNat, Nat.mod_eq_of_lt hlt, eq_comm]
    rfl
  rw [hnum, foldl_crcByte_toBitVec, foldl_crcByte_toBitVec, List.map_append, ← word_symbols]
  exact (foldl_feed_eq_residue polynomial_msb _ (symbols_below stored) hfit).symm

/-- At most four damaged bytes show in the register. -/
theorem crc_burst {before xs ys after : List UInt8} {c : UInt32}
    (hlen : xs.length = ys.length) (hfour : xs.length ≤ 4)
    (h : (before ++ xs ++ after).foldl crcByte c = (before ++ ys ++ after).foldl crcByte c) :
    xs = ys := by
  have hbits := congrArg UInt32.toBitVec h
  rw [foldl_crcByte_toBitVec, foldl_crcByte_toBitVec] at hbits
  simp only [List.map_append] at hbits
  have hmap := foldl_feed_burst polynomial_msb 8 _ (by simpa using hlen) (symbols_below xs)
    (symbols_below ys) (by simpa using (by omega : 8 * xs.length ≤ 32)) hbits
  exact (symbol_injective.list_map) hmap

namespace Frame

/-- What passes `decode` leaves the fixed value in the register. -/
theorem decode_residue {body : List UInt8} {f : Frame} (h : decode body = some f) :
    (body.foldl crcByte (~~~ 0)).toBitVec = residue := by
  unfold decode at h
  split at h
  · cases h
  · rename_i hguard
    push Not at hguard
    have hlen : (body.drop (body.length - 4)).length = 4 := by
      rw [List.length_drop]
      omega
    dsimp only at h
    split at h
    · cases h
    · rename_i hcrc
      rw [← List.take_append_drop (body.length - 4) body]
      exact (stored_crc32_iff _ _ hlen).mp (not_not.mp hcrc)

/-- Every damage within four consecutive bytes of a body is detected, wherever the
window lies. -/
theorem decode_burst {f : Frame} (hf : f.Encodable) {damaged : List UInt8} {i : ℕ}
    (hlen : damaged.length = f.body.length)
    (houtside : ∀ j, j < i ∨ i + 4 ≤ j → damaged[j]? = f.body[j]?)
    (hdiffer : damaged ≠ f.body) :
    decode damaged = none := by
  rw [Option.eq_none_iff_forall_ne_some]
  intro g hg
  -- The bytes before and behind the window are those of the body.
  have hbefore : damaged.take i = f.body.take i := by
    apply List.ext_getElem?
    intro j
    by_cases hj : j < i
    · simp only [List.getElem?_take_of_lt hj, houtside j (.inl hj)]
    · simp [hj]
  have hafter : damaged.drop (i + 4) = f.body.drop (i + 4) := by
    apply List.ext_getElem?
    intro j
    simp only [List.getElem?_drop, houtside (i + 4 + j) (.inr (by omega))]
  have hcut : ∀ bytes : List UInt8,
      bytes.take i ++ (bytes.drop i).take 4 ++ bytes.drop (i + 4) = bytes := by
    intro bytes
    rw [List.append_assoc, ← List.drop_drop, List.take_append_drop, List.take_append_drop]
  -- Both registers end in the fixed value, so the windows agree as well.
  have hregister : damaged.foldl crcByte (~~~ 0) = f.body.foldl crcByte (~~~ 0) :=
    UInt32.toBitVec_inj.mp ((decode_residue hg).trans (decode_residue (decode_body hf)).symm)
  rw [← hcut damaged, ← hcut f.body, hbefore, hafter] at hregister
  have hwindow : (damaged.drop i).take 4 = (f.body.drop i).take 4 :=
    crc_burst (by simp [hlen]) (by simp) hregister
  apply hdiffer
  rw [← hcut damaged, hbefore, hwindow, hafter, hcut]

/-- The last byte of the payload and the first of the checksum changed. -/
theorem decode_burst_straddling :
    decode ((helloFrame.body.set 15 0).set 16 0) = none := by
  apply decode_burst (f := helloFrame) (i := 14)
  case hf => decide
  case hlen => simp
  case hdiffer => decide
  case houtside =>
    intro j hj
    rw [List.getElem?_set_ne (by omega), List.getElem?_set_ne (by omega)]

end Frame
end IdfRemote.Mux
