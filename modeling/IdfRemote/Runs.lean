import Mathlib.Tactic.TypeStar

/-!
# Safe runs

A run takes one step after the other from a state. When a property survives every
safe step, it holds in all states of a run that takes each of its steps where it is
safe. When in addition no unsafe step leaves the property intact, these are the
only runs throughout which it holds. What the steps of a run emit is collected in order.
-/
namespace IdfRemote.Runs
variable {σ ι κ : Type*} {next : σ → ι → σ} {safe : σ → ι → Bool} {P Q R : σ → Prop}

/-- Each step is safe where it is taken. -/
def eachSafe (next : σ → ι → σ) (safe : σ → ι → Bool) : σ → List ι → Bool
  | _, [] => true
  | s, step :: steps => safe s step && eachSafe next safe (next s step) steps

/-- The property holds in all states of the run, the first and the last among them. -/
def Throughout (next : σ → ι → σ) (P : σ → Prop) : σ → List ι → Prop
  | s, [] => P s
  | s, step :: steps => P s ∧ Throughout next P (next s step) steps

theorem Throughout.first {s : σ} {steps : List ι} (h : Throughout next P s steps) : P s := by
  cases steps with
  | nil => exact h
  | cons step steps => exact h.1

theorem Throughout.last {s : σ} {steps : List ι} (h : Throughout next P s steps) :
    P (steps.foldl next s) := by
  induction steps generalizing s with
  | nil => exact h
  | cons step steps ih => exact ih h.2

theorem Throughout.mono {s : σ} {steps : List ι} (h : Throughout next P s steps)
    (hle : ∀ s, P s → Q s) : Throughout next Q s steps := by
  induction steps generalizing s with
  | nil => exact hle s h
  | cons step steps ih => exact ⟨hle s h.1, ih h.2⟩

theorem Throughout.concat {s : σ} {steps : List ι} (h : Throughout next P s steps) {step : ι}
    (hstep : P (next (steps.foldl next s) step)) : Throughout next P s (steps ++ [step]) := by
  induction steps generalizing s with
  | nil => exact ⟨h, hstep⟩
  | cons first steps ih => exact ⟨h.1, ih h.2 hstep⟩

theorem eachSafe_middle {s : σ} {front back : List ι} {step : ι}
    (h : eachSafe next safe s (front ++ step :: back) = true) :
    safe (front.foldl next s) step = true := by
  induction front generalizing s with
  | nil =>
      rw [List.nil_append, eachSafe, Bool.and_eq_true] at h
      exact h.1
  | cons first front ih =>
      rw [List.cons_append, eachSafe, Bool.and_eq_true] at h
      exact ih h.2

/-- What holds of all states beside the property may serve to prove it. -/
theorem throughout_of_eachSafe (hreach : ∀ s step, R s → R (next s step))
    (hsafe : ∀ s step, R s → P s → safe s step = true → P (next s step)) {s : σ} (hs : R s)
    (hP : P s) {steps : List ι} (h : eachSafe next safe s steps = true) :
    Throughout next P s steps := by
  induction steps generalizing s with
  | nil => exact hP
  | cons step steps ih =>
      rw [eachSafe, Bool.and_eq_true] at h
      exact ⟨hP, ih (hreach s step hs) (hsafe s step hs hP h.1) h.2⟩

theorem throughout_iff (hreach : ∀ s step, R s → R (next s step))
    (hsafe : ∀ s step, R s → P s → safe s step = true → P (next s step))
    (hbreaks : ∀ s step, R s → P s → safe s step = false → ¬ P (next s step)) {s : σ} (hs : R s)
    (hP : P s) (steps : List ι) :
    Throughout next P s steps ↔ eachSafe next safe s steps = true := by
  refine ⟨fun h => ?_, throughout_of_eachSafe hreach hsafe hs hP⟩
  induction steps generalizing s with
  | nil => rfl
  | cons step steps ih =>
      rw [eachSafe]
      cases hstep : safe s step with
      | false => exact absurd h.2.first (hbreaks s step hs hP hstep)
      | true => exact ih (hreach s step hs) h.2.first h.2

/-- What the steps of a run emit, in order. -/
def collect (next : σ → ι → σ) (emit : σ → ι → List κ) : σ → List ι → List κ
  | _, [] => []
  | s, step :: steps => emit s step ++ collect next emit (next s step) steps

theorem collect_append (emit : σ → ι → List κ) (s : σ) (steps more : List ι) :
    collect next emit s (steps ++ more) =
      collect next emit s steps ++ collect next emit (steps.foldl next s) more := by
  induction steps generalizing s with
  | nil => rfl
  | cons step steps ih => simp [collect, ih]

end IdfRemote.Runs
