import Mathlib.Data.Nat.Basic
import Mathlib.Tactic.Ring

/-!
# Little-endian byte strings

The byte order of `to_le_bytes` and `from_le_bytes`. A number is written into a
fixed count of bytes, least significant byte first, and truncated to that count;
reading is total on byte strings of every length. Both directions are stated on
natural numbers so that one library serves every fixed-width integer.
-/
namespace IdfRemote.LittleEndian

/-- The `n` low-order bytes of `v`, least significant first. -/
def toLeBytes : ℕ → ℕ → List UInt8
  | 0, _ => []
  | n + 1, v => UInt8.ofNat v :: toLeBytes n (v / 256)

/-- The number a byte string denotes, least significant byte first. -/
def fromLeBytes : List UInt8 → ℕ
  | [] => 0
  | b :: bs => b.toNat + 256 * fromLeBytes bs

@[simp] theorem length_toLeBytes (n v : ℕ) : (toLeBytes n v).length = n := by
  induction n generalizing v with
  | zero => rfl
  | succ n ih => simp [toLeBytes, ih]

theorem fromLeBytes_toLeBytes (n v : ℕ) : fromLeBytes (toLeBytes n v) = v % 256 ^ n := by
  induction n generalizing v with
  | zero => simp [toLeBytes, fromLeBytes, Nat.mod_one]
  | succ n ih =>
      have hb : (UInt8.ofNat v).toNat = v % 256 := by simp
      rw [toLeBytes, fromLeBytes, ih, hb, pow_succ, Nat.mul_comm (256 ^ n), Nat.mod_mul]

theorem fromLeBytes_toLeBytes_of_lt {n v : ℕ} (h : v < 256 ^ n) :
    fromLeBytes (toLeBytes n v) = v := by
  rw [fromLeBytes_toLeBytes, Nat.mod_eq_of_lt h]

theorem fromLeBytes_lt (bs : List UInt8) : fromLeBytes bs < 256 ^ bs.length := by
  induction bs with
  | nil => simp [fromLeBytes]
  | cons b bs ih =>
      have hb : b.toNat < 256 := b.toNat_lt
      simp only [fromLeBytes, List.length_cons, pow_succ]
      omega

theorem toLeBytes_fromLeBytes {n : ℕ} {bs : List UInt8} (h : bs.length = n) :
    toLeBytes n (fromLeBytes bs) = bs := by
  subst h
  induction bs with
  | nil => rfl
  | cons b bs ih =>
      have hb : b.toNat < 256 := b.toNat_lt
      have hdiv : (b.toNat + 256 * fromLeBytes bs) / 256 = fromLeBytes bs := by omega
      have hlow : UInt8.ofNat (b.toNat + 256 * fromLeBytes bs) = b := by
        apply UInt8.toNat.inj
        rw [UInt8.toNat_ofNat']
        omega
      rw [List.length_cons, fromLeBytes, toLeBytes, hdiv, ih, hlow]

theorem fromLeBytes_concat (bs : List UInt8) (b : UInt8) :
    fromLeBytes (bs ++ [b]) = fromLeBytes bs + 256 ^ bs.length * b.toNat := by
  induction bs with
  | nil => simp [fromLeBytes]
  | cons c bs ih =>
      simp only [List.cons_append, fromLeBytes, ih, List.length_cons, pow_succ]
      ring

/-- The `i`th byte written is the `i`th base-256 digit. -/
theorem getElem_toLeBytes (n v i : ℕ) (h : i < (toLeBytes n v).length) :
    (toLeBytes n v)[i] = UInt8.ofNat (v / 256 ^ i) := by
  induction n generalizing v i with
  | zero => simp [toLeBytes] at h
  | succ n ih =>
      cases i with
      | zero => simp [toLeBytes]
      | succ i =>
          have hi : i < (toLeBytes n (v / 256)).length := by
            simpa only [length_toLeBytes, Nat.add_lt_add_iff_right] using h
          have := ih (v / 256) i hi
          simp only [toLeBytes, List.getElem_cons_succ, this, Nat.div_div_eq_div_mul,
            pow_succ, Nat.mul_comm]

end IdfRemote.LittleEndian
