import Mathlib.Data.List.Perm.Basic
import Mathlib.Data.List.Nodup

/-!
# Obligations taken on and discharged

A system takes on keys, holds them and discharges them. If no step loses or
invents one, then over a whole run with distinct keys each key is discharged at
most once, and what is held is exactly what has not been discharged.
-/
namespace IdfRemote.Obligations

/-- One step takes on some keys and discharges some, and neither loses nor repeats one. -/
structure Ledger (σ ι κ : Type*) where
  next : σ → ι → σ
  taken : σ → ι → List κ
  discharged : σ → ι → List κ
  held : σ → List κ
  conserve : ∀ s i, (held s ++ taken s i).Perm (discharged s i ++ held (next s i))

namespace Ledger
variable {σ ι κ : Type*} (L : Ledger σ ι κ)

def run : σ → List ι → σ
  | s, [] => s
  | s, i :: is => run (L.next s i) is

theorem run_eq_foldl (s : σ) (is : List ι) : L.run s is = is.foldl L.next s := by
  induction is generalizing s with
  | nil => rfl
  | cons i is ih => exact ih (L.next s i)

def allTaken : σ → List ι → List κ
  | _, [] => []
  | s, i :: is => L.taken s i ++ allTaken (L.next s i) is

def allDischarged : σ → List ι → List κ
  | _, [] => []
  | s, i :: is => L.discharged s i ++ allDischarged (L.next s i) is

theorem run_conserve (s : σ) (is : List ι) :
    (L.held s ++ L.allTaken s is).Perm (L.allDischarged s is ++ L.held (L.run s is)) := by
  induction is generalizing s with
  | nil => simp [run, allTaken, allDischarged]
  | cons i is ih =>
      simp only [run, allTaken, allDischarged]
      have hfirst := (L.conserve s i).append_right (L.allTaken (L.next s i) is)
      have hrest := (ih (L.next s i)).append_left (L.discharged s i)
      rw [List.append_assoc, List.append_assoc] at hfirst
      rw [List.append_assoc]
      exact hfirst.trans hrest

section
variable {s : σ} {is : List ι} (hstart : L.held s = [])
include hstart

theorem taken_perm : (L.allTaken s is).Perm (L.allDischarged s is ++ L.held (L.run s is)) := by
  have h := L.run_conserve s is
  rwa [hstart, List.nil_append] at h

variable (hnodup : (L.allTaken s is).Nodup)
include hnodup

theorem discharged_nodup : (L.allDischarged s is).Nodup :=
  (List.nodup_append.mp ((L.taken_perm hstart).nodup_iff.mp hnodup)).1

theorem held_nodup : (L.held (L.run s is)).Nodup :=
  (List.nodup_append.mp ((L.taken_perm hstart).nodup_iff.mp hnodup)).2.1

/-- A key is held as long as it has been taken on and not discharged. -/
theorem mem_held_iff (k : κ) :
    k ∈ L.held (L.run s is) ↔ k ∈ L.allTaken s is ∧ k ∉ L.allDischarged s is := by
  have hperm : (L.allTaken s is).Perm (L.allDischarged s is ++ L.held (L.run s is)) :=
    L.taken_perm hstart
  have hsplit := hperm.nodup_iff.mp hnodup
  rw [hperm.mem_iff, List.mem_append]
  constructor
  · intro hk
    refine ⟨.inr hk, fun hd => ?_⟩
    exact (List.nodup_append.mp hsplit).2.2 k hd k hk rfl
  · rintro ⟨hk | hk, hd⟩
    · exact absurd hk hd
    · exact hk

end

theorem mem_taken_of_mem_discharged {s : σ} {is : List ι} (hstart : L.held s = []) {k : κ}
    (hk : k ∈ L.allDischarged s is) : k ∈ L.allTaken s is :=
  (L.taken_perm hstart).mem_iff.mpr (List.mem_append_left _ hk)

end Ledger
end IdfRemote.Obligations
