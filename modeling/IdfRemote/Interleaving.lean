import Mathlib.Logic.Function.Basic
import Mathlib.Tactic.TypeStar

/-!
# Tasks that take turns

Tasks share a state, and each has one of its own. A turn works on both, and what can be
seen of it goes on record. The tasks take their turns in any order. What they keep
throughout is shown for one turn of one task at a time: it keeps what all of them share
and what the task relies on, and it leaves alone what any other task relies on.
-/
namespace IdfRemote.Interleaving

/-- The shared state, and what is on record. -/
structure Scene (σ κ : Type*) where
  shared : σ
  record : List κ := []

/-- What a turn leaves behind, and what it adds to the record. -/
structure Turn (σ κ τ : Type*) where
  shared : σ
  own : τ
  record : List κ := []

def Scene.after {σ κ τ : Type*} (scene : Scene σ κ) (t : Turn σ κ τ) : Scene σ κ where
  shared := t.shared
  record := scene.record ++ t.record

variable {σ κ ι α : Type*} {τ : ι → Type*} [DecidableEq ι]

structure World (σ κ : Type*) (τ : ι → Type*) where
  scene : Scene σ κ
  own : ∀ i, τ i

namespace World

def next (turn : ∀ i, α → σ → τ i → Turn σ κ (τ i)) (w : World σ κ τ) (step : ι × α) :
    World σ κ τ :=
  let t := turn step.1 step.2 w.scene.shared (w.own step.1)
  { scene := w.scene.after t, own := Function.update w.own step.1 t.own }

theorem own_next_self (turn : ∀ i, α → σ → τ i → Turn σ κ (τ i)) (w : World σ κ τ)
    (step : ι × α) : (w.next turn step).own step.1 =
      (turn step.1 step.2 w.scene.shared (w.own step.1)).own := Function.update_self ..

theorem own_next_of_ne (turn : ∀ i, α → σ → τ i → Turn σ κ (τ i)) (w : World σ κ τ)
    {step : ι × α} {i : ι} (hi : i ≠ step.1) : (w.next turn step).own i = w.own i :=
  Function.update_of_ne hi ..

def run (turn : ∀ i, α → σ → τ i → Turn σ κ (τ i)) (w : World σ κ τ) (steps : List (ι × α)) :
    World σ κ τ :=
  steps.foldl (next turn) w

end World

/-- Turns keep what is common to all tasks, and what each task relies on. -/
structure Harmony (turn : ∀ i, α → σ → τ i → Turn σ κ (τ i)) (P : Scene σ κ → Prop)
    (Q : ∀ i, Scene σ κ → τ i → Prop) : Prop where
  common : ∀ i a {scene t}, P scene → Q i scene t → P (scene.after (turn i a scene.shared t))
  keeps : ∀ i a {scene t}, P scene → Q i scene t →
    Q i (scene.after (turn i a scene.shared t)) (turn i a scene.shared t).own
  spares : ∀ i j a {scene t u}, i ≠ j → P scene → Q i scene t → Q j scene u →
    Q j (scene.after (turn i a scene.shared t)) u

namespace Harmony
variable {turn : ∀ i, α → σ → τ i → Turn σ κ (τ i)} {P : Scene σ κ → Prop}
  {Q : ∀ i, Scene σ κ → τ i → Prop} {w : World σ κ τ}

theorem next (h : Harmony turn P Q) (hcommon : P w.scene) (hown : ∀ i, Q i w.scene (w.own i))
    (step : ι × α) :
    P (w.next turn step).scene ∧ ∀ i, Q i (w.next turn step).scene ((w.next turn step).own i) := by
  refine ⟨h.common step.1 step.2 hcommon (hown step.1), fun i => ?_⟩
  by_cases hi : i = step.1
  · subst hi
    rw [World.own_next_self]
    exact h.keeps step.1 step.2 hcommon (hown step.1)
  · rw [World.own_next_of_ne turn w hi]
    exact h.spares step.1 i step.2 (Ne.symm hi) hcommon (hown step.1) (hown i)

/-- In whatever order the turns are taken. -/
theorem run (h : Harmony turn P Q) (hcommon : P w.scene) (hown : ∀ i, Q i w.scene (w.own i))
    (steps : List (ι × α)) :
    P (w.run turn steps).scene ∧
      ∀ i, Q i (w.run turn steps).scene ((w.run turn steps).own i) := by
  induction steps generalizing w with
  | nil => exact ⟨hcommon, hown⟩
  | cons step steps ih =>
      have hnext := h.next hcommon hown step
      exact ih hnext.1 hnext.2

end Harmony
end IdfRemote.Interleaving
