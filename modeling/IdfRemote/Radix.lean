import IdfRemote.Error
import Mathlib.Order.Lattice.Nat

/-!
# Reading numbers

Texts of digits in a base are read from the left; each step multiplies, adds and compares with a
limit. A text that is read is worth less than the limit as a whole, and what `Nat.toDigits` writes
is read as the number.
-/
namespace IdfRemote.Radix

def digitValue (c : Char) : Option ℕ :=
  if '0' ≤ c ∧ c ≤ '9' then some (c.toNat - 48)
  else if 'a' ≤ c ∧ c ≤ 'z' then some (c.toNat - 87)
  else if 'A' ≤ c ∧ c ≤ 'Z' then some (c.toNat - 55)
  else none

/-- Letters count on behind the digits, in either case. -/
def toDigit (radix : ℕ) (c : Char) : Option ℕ := (digitValue c).filter (· < radix)

def readDigits (radix limit : ℕ) : List Char → ℕ → Result ℕ
  | [], n => .ok n
  | c :: cs, n =>
      match toDigit radix c with
      | none => .error (.msg "invalid digit found in string")
      | some d => do
          ensure (n * radix + d < limit) "number too large to fit in target type"
          readDigits radix limit cs (n * radix + d)

/-- `from_str_radix` for an unsigned type: one plus sign may stand in front. -/
def fromStrRadix (radix limit : ℕ) : List Char → Result ℕ
  | [] => .error (.msg "cannot parse integer from empty string")
  | ['+'] => .error (.msg "invalid digit found in string")
  | '+' :: cs => readDigits radix limit cs 0
  | cs => readDigits radix limit cs 0

/-- What digits are worth behind `n`. -/
def worth (radix : ℕ) : List Char → ℕ → Option ℕ
  | [], n => some n
  | c :: cs, n => (toDigit radix c).bind fun d => worth radix cs (n * radix + d)

variable {radix limit : ℕ}

theorem worth_append (cs ds : List Char) (n : ℕ) :
    worth radix (cs ++ ds) n = (worth radix cs n).bind (worth radix ds) := by
  induction cs generalizing n with
  | nil => rfl
  | cons c cs ih =>
      rw [List.cons_append, worth, worth, Option.bind_assoc]
      exact congrArg _ (funext fun d => ih _)

theorem le_worth (hradix : 0 < radix) {cs : List Char} {n m : ℕ} (h : worth radix cs n = some m) :
    n ≤ m := by
  induction cs generalizing n with
  | nil => exact (Option.some.inj h).le
  | cons c cs ih =>
      obtain ⟨d, -, hrest⟩ := Option.bind_eq_some_iff.mp h
      have hle := ih hrest
      have hmul := Nat.le_mul_of_pos_right n hradix
      omega

/-- No step leaves the limit unless the whole does. -/
theorem readDigits_ok_iff (hradix : 0 < radix) {cs : List Char} {n m : ℕ} (hn : n < limit) :
    readDigits radix limit cs n = .ok m ↔ worth radix cs n = some m ∧ m < limit := by
  induction cs generalizing n with
  | nil =>
      constructor
      · intro h
        obtain rfl := Except.ok.inj h
        exact ⟨rfl, hn⟩
      · rintro ⟨h, -⟩
        exact congrArg Except.ok (Option.some.inj h)
  | cons c cs ih =>
      cases hdigit : toDigit radix c with
      | none => simp [readDigits, worth, hdigit]
      | some d =>
          simp only [readDigits, worth, hdigit, Option.bind_some]
          by_cases hlt : n * radix + d < limit
          · rw [decide_eq_true hlt, ← ih hlt]
            exact Iff.rfl
          · constructor
            · intro h
              exact absurd (of_decide_eq_true (ensure_bind h).1) hlt
            · rintro ⟨h, hm⟩
              exact absurd ((le_worth hradix h).trans_lt hm) hlt

theorem fromStrRadix_ok_iff (hradix : 0 < radix) (hlimit : 0 < limit) {text : List Char} {n : ℕ} :
    fromStrRadix radix limit text = .ok n ↔
      ∃ digits, digits ≠ [] ∧ (text = digits ∨ text = '+' :: digits) ∧
        worth radix digits 0 = some n ∧ n < limit := by
  have hplus : toDigit radix '+' = none := by simp [toDigit, digitValue]
  unfold fromStrRadix
  split
  · simp
  · constructor
    · intro h
      cases h
    · rintro ⟨digits, hne, h | h, hworth, -⟩
      · rw [← h, worth, hplus] at hworth
        cases hworth
      · exact absurd (List.cons.inj h).2.symm hne
  · next cs hcs =>
    rw [readDigits_ok_iff hradix hlimit]
    constructor
    · rintro ⟨hworth, hlt⟩
      exact ⟨cs, fun h => hcs (h ▸ rfl), .inr rfl, hworth, hlt⟩
    · rintro ⟨digits, -, h | h, hworth, hlt⟩
      · rw [← h, worth, hplus] at hworth
        cases hworth
      · rw [(List.cons.inj h).2]
        exact ⟨hworth, hlt⟩
  · next hne hsign hplain =>
    rw [readDigits_ok_iff hradix hlimit]
    constructor
    · rintro ⟨hworth, hlt⟩
      exact ⟨text, hne, .inl rfl, hworth, hlt⟩
    · rintro ⟨digits, -, h | h, hworth, hlt⟩
      · rw [h]
        exact ⟨hworth, hlt⟩
      · exact absurd h (hplain digits)

theorem toDigit_digitChar : ∀ d < 16, ∀ radix < 17, d < radix →
    toDigit radix (Nat.digitChar d) = some d := by decide

theorem worth_toDigits (hradix : 1 < radix) (hle : radix ≤ 16) (n : ℕ) :
    worth radix (Nat.toDigits radix n) 0 = some n := by
  induction n using Nat.strongRecOn with
  | ind n ih =>
      have hdigit : ∀ d < radix, toDigit radix (Nat.digitChar d) = some d := fun d hd =>
        toDigit_digitChar d (by omega) radix (by omega) hd
      by_cases hlt : n < radix
      · rw [Nat.toDigits_of_lt_base hlt, worth, hdigit n hlt]
        simp [worth]
      · have hmod := Nat.mod_lt n (show 0 < radix by omega)
        rw [Nat.toDigits_of_base_le hradix (not_lt.mp hlt), worth_append,
          ih (n / radix) (Nat.div_lt_self (by omega) hradix), Option.bind_some, worth,
          hdigit _ hmod, Option.bind_some, worth, Nat.div_add_mod']

end IdfRemote.Radix
