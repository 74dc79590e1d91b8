import Mathlib.Data.List.Basic

/-!
# Stream machines

A deterministic machine that reads one symbol at a time and emits a finite list
of outputs for each. Everything a client may rely on when a stream reaches the
machine in pieces is a fact about `run`: it is a homomorphism from concatenation
of inputs to composition of states and concatenation of outputs, so the way a
stream is cut into pieces is invisible. A machine that may get stuck refines a
total one when related states emit the same outputs and never get stuck.
-/
namespace IdfRemote.StreamMachine

/-- One input symbol moves the state and emits outputs. -/
structure Machine (σ ι ο : Type*) where
  step : σ → ι → σ × List ο

namespace Machine
variable {σ ι ο : Type*} (M : Machine σ ι ο)

def run : σ → List ι → σ × List ο
  | s, [] => (s, [])
  | s, i :: is => ((run (M.step s i).1 is).1, (M.step s i).2 ++ (run (M.step s i).1 is).2)

@[simp] theorem run_nil (s : σ) : M.run s [] = (s, []) := rfl

theorem run_cons (s : σ) (i : ι) (is : List ι) :
    M.run s (i :: is) =
      ((M.run (M.step s i).1 is).1, (M.step s i).2 ++ (M.run (M.step s i).1 is).2) := rfl

@[simp] theorem run_singleton (s : σ) (i : ι) : M.run s [i] = M.step s i := by
  simp [run]

/-- A stream may be cut anywhere. -/
theorem run_append (s : σ) (is js : List ι) :
    M.run s (is ++ js) =
      ((M.run (M.run s is).1 js).1, (M.run s is).2 ++ (M.run (M.run s is).1 js).2) := by
  induction is generalizing s with
  | nil => simp
  | cons i is ih => simp only [List.cons_append, run_cons, ih, List.append_assoc]

/-- Feeding a list of pieces, one after the other. -/
def runChunks : σ → List (List ι) → σ × List ο
  | s, [] => (s, [])
  | s, c :: cs =>
      ((runChunks (M.run s c).1 cs).1, (M.run s c).2 ++ (runChunks (M.run s c).1 cs).2)

/-- The pieces of a stream are invisible. -/
theorem runChunks_eq (s : σ) (cs : List (List ι)) : M.runChunks s cs = M.run s cs.flatten := by
  induction cs generalizing s with
  | nil => rfl
  | cons c cs ih => simp only [runChunks, List.flatten_cons, run_append, ih]

theorem run_invariant {P : σ → Prop} (hstep : ∀ s i, P s → P (M.step s i).1)
    (s : σ) (is : List ι) (hs : P s) : P (M.run s is).1 := by
  induction is generalizing s with
  | nil => exact hs
  | cons i is ih => exact ih _ (hstep s i hs)

end Machine

/-- A machine that may get stuck on a symbol. -/
structure PartialMachine (τ ι ο : Type*) where
  step : τ → ι → Option (τ × List ο)

namespace PartialMachine
variable {τ ι ο : Type*} (N : PartialMachine τ ι ο)

def run : τ → List ι → Option (τ × List ο)
  | t, [] => some (t, [])
  | t, i :: is =>
      (N.step t i).bind fun r => (run r.1 is).map fun q => (q.1, r.2 ++ q.2)

@[simp] theorem run_nil (t : τ) : N.run t [] = some (t, []) := rfl

/-- Related states take related steps with equal outputs, and the partial
machine is never stuck in a related state. -/
structure Refines {σ : Type*} (M : Machine σ ι ο) (R : σ → τ → Prop) : Prop where
  step : ∀ {s t} (i : ι), R s t →
    ∃ u, N.step t i = some (u, (M.step s i).2) ∧ R (M.step s i).1 u

variable {N} in
theorem Refines.run {σ : Type*} {M : Machine σ ι ο} {R : σ → τ → Prop}
    (h : N.Refines M R) {s : σ} {t : τ} (hst : R s t) (is : List ι) :
    ∃ u, N.run t is = some (u, (M.run s is).2) ∧ R (M.run s is).1 u := by
  induction is generalizing s t with
  | nil => exact ⟨t, rfl, hst⟩
  | cons i is ih =>
      obtain ⟨v, hv, hR⟩ := h.step i hst
      obtain ⟨u, hu, hR'⟩ := ih hR
      refine ⟨u, ?_, hR'⟩
      simp [PartialMachine.run, Machine.run, hv, hu]

end PartialMachine

end IdfRemote.StreamMachine
