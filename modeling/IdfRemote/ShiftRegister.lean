import Mathlib.Data.BitVec
import Mathlib.Logic.Function.Iterate

/-!
# Reflected shift registers

A checksum register of `w` bits that is shifted towards its low end. The bit that
leaves selects whether the feedback word is added, and a symbol of `m` bits is added
at the low end before `m` shifts. One shift is linear over exclusive or, and where
the feedback word has its top bit set it loses nothing. A run of symbols that fits
into the register therefore acts as one word, so two registers that agree before a
short run and differ in it never meet again.
-/
namespace IdfRemote.ShiftRegister

variable {w : ℕ}

/-- One shift: the low bit leaves and selects the feedback word. -/
def shift (poly c : BitVec w) : BitVec w :=
  (c >>> 1) ^^^ (if c.getLsbD 0 then poly else 0)

/-- One symbol enters at the low end and is shifted through. -/
def feed (poly : BitVec w) (m : ℕ) (c x : BitVec w) : BitVec w := (shift poly)^[m] (c ^^^ x)

/-- Nothing is set from bit `n` on. -/
def Below (n : ℕ) (x : BitVec w) : Prop := ∀ i, n ≤ i → x.getLsbD i = false

/-- A run of symbols as one word, first symbol lowest. -/
def word (m : ℕ) : List (BitVec w) → BitVec w
  | [] => 0
  | x :: xs => x ^^^ (word m xs <<< m)

theorem shift_xor (poly a b : BitVec w) : shift poly (a ^^^ b) = shift poly a ^^^ shift poly b := by
  apply BitVec.eq_of_getLsbD_eq
  intro i _
  unfold shift
  simp only [BitVec.getLsbD_xor, BitVec.getLsbD_ushiftRight]
  cases a.getLsbD 0 <;> cases b.getLsbD 0 <;>
    simp [Bool.xor_left_comm, Bool.xor_comm]

/-- The top bit of the feedback word shows in the result whenever the word was added. -/
theorem eq_zero_of_shift {poly c : BitVec w} (hpoly : poly.msb = true) (h : shift poly c = 0) :
    c = 0 := by
  have hbit : ∀ i, (shift poly c).getLsbD i = false := by simp [h]
  have hw : 0 < w := by
    rcases Nat.eq_zero_or_pos w with rfl | hw
    · simp [BitVec.msb] at hpoly
    · exact hw
  cases hc : c.getLsbD 0 with
  | true =>
      have htop := hbit (w - 1)
      have hlast : c.getLsbD (1 + (w - 1)) = false := BitVec.getLsbD_of_ge c _ (by omega)
      rw [BitVec.msb_eq_getLsbD_last] at hpoly
      simp [shift, BitVec.getLsbD_xor, BitVec.getLsbD_ushiftRight, hc, hlast, hpoly] at htop
  | false =>
      apply BitVec.eq_of_getLsbD_eq
      intro i _
      cases i with
      | zero => simp [hc]
      | succ i =>
          have hi := hbit i
          simp only [shift, hc, BitVec.getLsbD_xor, BitVec.getLsbD_ushiftRight] at hi
          simpa [Nat.add_comm] using hi

theorem iterate_xor (poly a b : BitVec w) (n : ℕ) :
    (shift poly)^[n] (a ^^^ b) = (shift poly)^[n] a ^^^ (shift poly)^[n] b := by
  induction n generalizing a b with
  | zero => rfl
  | succ n ih => simp only [Function.iterate_succ_apply, shift_xor, ih]

theorem shift_injective {poly : BitVec w} (hpoly : poly.msb = true) :
    Function.Injective (shift poly) := by
  intro a b h
  have hz : shift poly (a ^^^ b) = 0 := by rw [shift_xor, h, BitVec.xor_self]; rfl
  exact BitVec.xor_eq_zero_iff.mp (eq_zero_of_shift hpoly hz)

theorem iterate_injective {poly : BitVec w} (hpoly : poly.msb = true) (n : ℕ) :
    Function.Injective (shift poly)^[n] :=
  (shift_injective hpoly).iterate n

/-- Below the top, a word moved up comes down again without meeting the feedback. -/
theorem iterate_shiftLeft (poly v : BitVec w) (n : ℕ) (hv : Below (w - n) v) :
    (shift poly)^[n] (v <<< n) = v := by
  induction n with
  | zero => simp
  | succ n ih =>
      have hstep : shift poly (v <<< (n + 1)) = v <<< n := by
        apply BitVec.eq_of_getLsbD_eq
        intro i hi
        simp only [shift, BitVec.getLsbD_xor, BitVec.getLsbD_ushiftRight, BitVec.getLsbD_shiftLeft]
        by_cases hlast : 1 + i < w
        · have hin : 1 + i - (n + 1) = i - n := by omega
          by_cases hlow : i < n
          · simp [hlow, show 1 + i < n + 1 by omega]
          · simp [hlow, hlast, hi, hin, show ¬ 1 + i < n + 1 by omega]
        · have htop : v.getLsbD (i - n) = false := hv _ (by omega)
          simp [hlast, htop]
      rw [Function.iterate_succ_apply, hstep]
      exact ih fun i hi => hv i (by omega)

theorem word_below (m : ℕ) {xs : List (BitVec w)} (hxs : ∀ x ∈ xs, Below m x) :
    Below (m * xs.length) (word m xs) := by
  induction xs with
  | nil => intro i _; simp [word]
  | cons x xs ih =>
      intro i hi
      rw [List.length_cons, Nat.mul_succ] at hi
      have hx : x.getLsbD i = false := hxs x (by simp) i (by omega)
      have ht : (word m xs).getLsbD (i - m) = false :=
        ih (fun y hy => hxs y (by simp [hy])) (i - m) (by omega)
      simp [word, BitVec.getLsbD_shiftLeft, hx, ht]

theorem iterate_shiftLeft_word (poly : BitVec w) (m : ℕ) {xs : List (BitVec w)}
    (hxs : ∀ x ∈ xs, Below m x) (hfit : m * xs.length + m ≤ w) :
    (shift poly)^[m] (word m xs <<< m) = word m xs := by
  apply iterate_shiftLeft
  intro i hi
  exact word_below m hxs i (by omega)

theorem foldl_feed (poly : BitVec w) (m : ℕ) (c : BitVec w) {xs : List (BitVec w)}
    (hxs : ∀ x ∈ xs, Below m x) (hfit : m * xs.length ≤ w) :
    xs.foldl (feed poly m) c = (shift poly)^[m * xs.length] (c ^^^ word m xs) := by
  induction xs generalizing c with
  | nil => simp [word]
  | cons x xs ih =>
      have ht : ∀ y ∈ xs, Below m y := fun y hy => hxs y (by simp [hy])
      rw [List.length_cons, Nat.mul_succ] at hfit
      have hup := iterate_shiftLeft_word poly m ht hfit
      calc
        (x :: xs).foldl (feed poly m) c
            = (shift poly)^[m * xs.length] (feed poly m c x ^^^ word m xs) := by
              rw [List.foldl_cons, ih _ ht (by omega)]
        _ = (shift poly)^[m * xs.length] ((shift poly)^[m] (c ^^^ x ^^^ (word m xs <<< m))) := by
              rw [iterate_xor poly (c ^^^ x), hup, feed]
        _ = (shift poly)^[m * (x :: xs).length] (c ^^^ word m (x :: xs)) := by
              rw [← Function.iterate_add_apply, List.length_cons, Nat.mul_succ, word,
                BitVec.xor_assoc]

theorem word_injective (m : ℕ) {xs ys : List (BitVec w)} (hlen : xs.length = ys.length)
    (hxs : ∀ x ∈ xs, Below m x) (hys : ∀ y ∈ ys, Below m y) (hfit : m * xs.length ≤ w)
    (h : word m xs = word m ys) : xs = ys := by
  induction xs generalizing ys with
  | nil => exact (List.length_eq_zero_iff.mp hlen.symm).symm
  | cons x xs ih =>
      cases ys with
      | nil => simp at hlen
      | cons y ys =>
          have hlen' : xs.length = ys.length := by simpa using hlen
          have htx : ∀ z ∈ xs, Below m z := fun z hz => hxs z (by simp [hz])
          have hty : ∀ z ∈ ys, Below m z := fun z hz => hys z (by simp [hz])
          rw [List.length_cons, Nat.mul_succ] at hfit
          have hxy : x = y := by
            apply BitVec.eq_of_getLsbD_eq
            intro i hi
            by_cases hm : i < m
            · have hbit : (word m (x :: xs)).getLsbD i = (word m (y :: ys)).getLsbD i := by rw [h]
              simpa [word, BitVec.getLsbD_shiftLeft, hm] using hbit
            · rw [hxs x (by simp) i (by omega), hys y (by simp) i (by omega)]
          subst hxy
          have hup : word m xs <<< m = word m ys <<< m := (BitVec.xor_right_inj x).mp h
          have hword : word m xs = word m ys := by
            rw [← iterate_shiftLeft_word 0 m htx hfit,
              ← iterate_shiftLeft_word 0 m hty (hlen' ▸ hfit), hup]
          rw [ih hlen' htx hty (by omega) hword]

/-- Equal symbols do not bring two registers together. -/
theorem foldl_feed_injective {poly : BitVec w} (hpoly : poly.msb = true) (m : ℕ)
    (xs : List (BitVec w)) : Function.Injective fun c => xs.foldl (feed poly m) c := by
  induction xs with
  | nil => exact fun a b h => h
  | cons x xs ih =>
      intro a b h
      have hx := iterate_injective hpoly m (ih h)
      exact (BitVec.xor_left_inj x).mp hx

/-- Symbols outside a run that fits keep two registers apart that differ in it. -/
theorem foldl_feed_burst {poly : BitVec w} (hpoly : poly.msb = true) (m : ℕ) (c : BitVec w)
    {before xs ys after : List (BitVec w)} (hlen : xs.length = ys.length)
    (hxs : ∀ x ∈ xs, Below m x) (hys : ∀ y ∈ ys, Below m y) (hfit : m * xs.length ≤ w)
    (h : (before ++ xs ++ after).foldl (feed poly m) c =
      (before ++ ys ++ after).foldl (feed poly m) c) : xs = ys := by
  simp only [List.foldl_append] at h
  have hmid := foldl_feed_injective hpoly m after h
  rw [foldl_feed poly m _ hxs hfit, foldl_feed poly m _ hys (hlen ▸ hfit), hlen] at hmid
  have hw := iterate_injective hpoly _ hmid
  exact word_injective m hlen hxs hys hfit ((BitVec.xor_right_inj _).mp hw)

/-- A stored complement of the register brings every register to the same value. -/
theorem foldl_feed_eq_residue {poly : BitVec w} (hpoly : poly.msb = true) {m : ℕ} (c : BitVec w)
    {xs ys : List (BitVec w)} (hys : ∀ y ∈ ys, Below m y) (hfit : m * ys.length = w) :
    (xs ++ ys).foldl (feed poly m) c = (shift poly)^[w] (BitVec.allOnes w) ↔
      word m ys = ~~~ xs.foldl (feed poly m) c := by
  rw [List.foldl_append, foldl_feed poly m _ hys hfit.le, hfit,
    (iterate_injective hpoly w).eq_iff]
  generalize xs.foldl (feed poly m) c = r
  generalize word m ys = v
  constructor
  · intro h
    have := congrArg (r ^^^ ·) h
    simpa [← BitVec.xor_assoc, BitVec.xor_allOnes] using this
  · intro h
    rw [h]
    apply BitVec.eq_of_getLsbD_eq
    intro i hi
    simp [hi]

end IdfRemote.ShiftRegister
