import IdfRemote.Error
import Mathlib.Algebra.Order.Floor.Div

/-!
# Arithmetic of fixed width

Sums and roundings of machine integers as natural numbers. An operation whose
result leaves the width of its type has no result. A program that only compares,
adds and rounds either returns a value, fails with an error of its own, or
overflows: `Checked` keeps the three apart. What such a program accepts is stated
by `Decides`, which excludes the third.
-/
namespace IdfRemote.Checked

/-- `none` is an overflow. -/
def add (bits a b : ℕ) : Option ℕ := if a + b < 2 ^ bits then some (a + b) else none

def sub (a b : ℕ) : Option ℕ := if b ≤ a then some (a - b) else none

def nextMultipleOf (bits a m : ℕ) : Option ℕ :=
  if a % m = 0 then some a else add bits a (m - a % m)

def sum (bits : ℕ) (xs : List ℕ) : Option ℕ := xs.foldlM (add bits) 0

/-- The least multiple of `m` that is not below `a`. -/
def roundUp (m a : ℕ) : ℕ := m * (a ⌈/⌉ m)

def roundDown (m a : ℕ) : ℕ := m * (a / m)

section Rounding
variable {m a b : ℕ}

theorem dvd_roundUp (m a : ℕ) : m ∣ roundUp m a := dvd_mul_right _ _

theorem roundUp_le_iff (hm : 0 < m) (hb : m ∣ b) : roundUp m a ≤ b ↔ a ≤ b := by
  obtain ⟨k, rfl⟩ := hb
  rw [roundUp, Nat.mul_le_mul_left_iff hm, ceilDiv_le_iff_le_mul hm]

theorem le_roundUp (hm : 0 < m) (a : ℕ) : a ≤ roundUp m a :=
  (roundUp_le_iff hm (dvd_roundUp m a)).mp le_rfl

theorem roundDown_le (m a : ℕ) : roundDown m a ≤ a := Nat.mul_div_le a m

theorem roundDown_mono (m : ℕ) (h : a ≤ b) : roundDown m a ≤ roundDown m b :=
  Nat.mul_le_mul_left _ (Nat.div_le_div_right h)

theorem roundUp_eq (hm : 0 < m) (a : ℕ) :
    roundUp m a = if a % m = 0 then a else a + (m - a % m) := by
  have hdiv := Nat.div_add_mod a m
  have hmod := Nat.mod_lt a hm
  apply le_antisymm
  · split_ifs with h
    · exact (roundUp_le_iff hm (Nat.dvd_of_mod_eq_zero h)).mpr le_rfl
    · apply (roundUp_le_iff hm _).mpr (Nat.le_add_right _ _)
      refine ⟨a / m + 1, ?_⟩
      rw [Nat.mul_add, Nat.mul_one]
      omega
  · split_ifs with h
    · exact le_roundUp hm a
    · have hlt : m * (a / m) < roundUp m a := by
        have := le_roundUp hm a
        omega
      have hnext : a / m < a ⌈/⌉ m := lt_of_mul_lt_mul_left hlt (Nat.zero_le m)
      have hle : m * (a / m + 1) ≤ roundUp m a := Nat.mul_le_mul_left m hnext
      rw [Nat.mul_add, Nat.mul_one] at hle
      omega

theorem roundUp_lt (hm : 0 < m) (a : ℕ) : roundUp m a < a + m := by
  have hmod := Nat.mod_lt a hm
  rw [roundUp_eq hm]
  split_ifs <;> omega

end Rounding

theorem add_eq_some {bits a b : ℕ} (h : a + b < 2 ^ bits) : add bits a b = some (a + b) :=
  if_pos h

theorem sub_eq_some {a b : ℕ} (h : b ≤ a) : sub a b = some (a - b) := if_pos h

theorem nextMultipleOf_eq_some {bits m a : ℕ} (hm : 0 < m) (h : roundUp m a < 2 ^ bits) :
    nextMultipleOf bits a m = some (roundUp m a) := by
  have heq := roundUp_eq hm a
  unfold nextMultipleOf
  split_ifs at heq ⊢ with hmod
  · rw [heq]
  · rw [heq] at h ⊢
    exact add_eq_some h

theorem foldlM_add_eq_some {bits : ℕ} (xs : List ℕ) (a : ℕ) (h : a + xs.sum < 2 ^ bits) :
    xs.foldlM (add bits) a = some (a + xs.sum) := by
  induction xs generalizing a with
  | nil => rfl
  | cons x xs ih =>
      rw [List.sum_cons, ← Nat.add_assoc] at h ⊢
      rw [List.foldlM_cons, add_eq_some (by omega)]
      exact ih (a + x) h

theorem sum_eq_some {bits : ℕ} {xs : List ℕ} (h : xs.sum < 2 ^ bits) :
    sum bits xs = some xs.sum := by
  have := foldlM_add_eq_some xs 0 (by rwa [Nat.zero_add])
  rwa [Nat.zero_add] at this

end IdfRemote.Checked

namespace IdfRemote

/-- A program that returns, fails with an error, or overflows. -/
abbrev Checked (α : Type) := ExceptT Error Option α

namespace Checked
variable {ε α β : Type}

/-- The program returns this value if the condition holds, and fails with an error of its own
otherwise. -/
structure Decides (x : ExceptT ε Option α) (condition : Prop) (value : α) : Prop where
  accepts : condition → x = pure value
  rejects : ¬ condition → ∃ e, x = throw e

theorem decides_pure (value : α) : Decides (pure value : ExceptT ε Option α) True value :=
  ⟨fun _ => rfl, fun h => absurd trivial h⟩

theorem decides_throw (e : ε) (value : α) :
    Decides (throw e : ExceptT ε Option α) False value :=
  ⟨False.elim, fun _ => ⟨e, rfl⟩⟩

theorem decides_ensure (condition : Bool) (message : String) :
    Decides (liftM (ensure condition message) : Checked Unit) (condition = true) () := by
  cases condition with
  | false => exact ⟨by simp, fun _ => ⟨_, rfl⟩⟩
  | true => exact ⟨fun _ => rfl, by simp⟩

theorem decides_some {x : Option α} {value : α} (h : x = some value) :
    Decides (liftM x : ExceptT ε Option α) True value := by
  subst h
  exact decides_pure value

theorem decides_ok {x : Except ε α} {value : α} (h : x = .ok value) :
    Decides (liftM x : ExceptT ε Option α) True value := by
  subst h
  exact decides_pure value

/-- One step after another. The second is looked at only where the first returns. -/
theorem Decides.bind {x : ExceptT ε Option α} {f : α → ExceptT ε Option β} {p q : Prop} {a : α}
    {b : β} (hx : Decides x p a) (hf : p → Decides (f a) q b) : Decides (x >>= f) (p ∧ q) b := by
  constructor
  · rintro ⟨hp, hq⟩
    rw [hx.accepts hp, pure_bind]
    exact (hf hp).accepts hq
  · intro hn
    by_cases hp : p
    · rw [hx.accepts hp, pure_bind]
      exact (hf hp).rejects fun hq => hn ⟨hp, hq⟩
    · obtain ⟨e, he⟩ := hx.rejects hp
      exact ⟨e, by rw [he]; rfl⟩

theorem Decides.congr {x : ExceptT ε Option α} {p q : Prop} {a : α} (h : Decides x p a)
    (hpq : p ↔ q) : Decides x q a :=
  ⟨fun hq => h.accepts (hpq.mpr hq), fun hq => h.rejects fun hp => hq (hpq.mp hp)⟩

/-- A deciding program never overflows, and returns exactly where the condition holds. -/
theorem Decides.result {x : ExceptT ε Option α} {p : Prop} {a : α} (h : Decides x p a) :
    ∃ r : Except ε α, x.run = some r ∧ ((∃ b, r = .ok b) ↔ p) ∧ ∀ b, r = .ok b → b = a := by
  by_cases hp : p
  · exact ⟨.ok a, by rw [h.accepts hp]; rfl, by simp [hp], fun b hb => (Except.ok.inj hb).symm⟩
  · obtain ⟨e, he⟩ := h.rejects hp
    exact ⟨.error e, by rw [he]; rfl, by simp [hp], by simp⟩

/-- The program does not overflow, and what it returns satisfies the condition. -/
def Ensures (x : ExceptT ε Option α) (post : α → Prop) : Prop :=
  ∃ r : Except ε α, x.run = some r ∧ ∀ a, r = .ok a → post a

theorem ensures_pure {post : α → Prop} {value : α} (h : post value) :
    Ensures (pure value : ExceptT ε Option α) post :=
  ⟨.ok value, rfl, fun _ ha => Except.ok.inj ha ▸ h⟩

theorem ensures_result {x : Except ε α} {post : α → Prop} (h : ∀ a, x = .ok a → post a) :
    Ensures (liftM x : ExceptT ε Option α) post :=
  ⟨x, rfl, h⟩

theorem ensures_any (x : Except ε α) :
    Ensures (liftM x : ExceptT ε Option α) fun a => x = .ok a :=
  ensures_result fun _ h => h

theorem ensures_ensure (condition : Bool) (message : String) :
    Ensures (liftM (ensure condition message) : Checked Unit) fun _ => condition = true :=
  ensures_result fun _ h => ensure_eq_ok.mp h

theorem ensures_some {x : Option α} {value : α} (h : x = some value) :
    Ensures (liftM x : ExceptT ε Option α) fun a => a = value :=
  ⟨.ok value, by rw [h]; rfl, fun _ ha => (Except.ok.inj ha).symm⟩

theorem Ensures.bind {x : ExceptT ε Option α} {f : α → ExceptT ε Option β} {p : α → Prop}
    {q : β → Prop} (hx : Ensures x p) (hf : ∀ a, p a → Ensures (f a) q) :
    Ensures (x >>= f) q := by
  obtain ⟨r, hr, hp⟩ := hx
  cases r with
  | error e => exact ⟨.error e, by rw [ExceptT.run_bind, hr]; rfl, by simp⟩
  | ok a =>
      obtain ⟨r', hr', hq⟩ := hf a (hp a rfl)
      exact ⟨r', by rw [ExceptT.run_bind, hr]; exact hr', hq⟩

theorem Ensures.imp {x : ExceptT ε Option α} {p q : α → Prop} (h : Ensures x p)
    (hpq : ∀ a, p a → q a) : Ensures x q := by
  obtain ⟨r, hr, hp⟩ := h
  exact ⟨r, hr, fun a ha => hpq a (hp a ha)⟩

theorem Decides.ensures {x : ExceptT ε Option α} {p : Prop} {a : α} (h : Decides x p a) :
    Ensures x fun b => p ∧ b = a := by
  obtain ⟨r, hr, hiff, heq⟩ := h.result
  exact ⟨r, hr, fun b hb => ⟨hiff.mp ⟨b, hb⟩, heq b hb⟩⟩

end Checked
end IdfRemote
