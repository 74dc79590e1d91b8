import IdfRemote.Checked
import Mathlib.Data.List.Chain
import Mathlib.Data.List.Sort
import Mathlib.Order.CompletePartialOrder
import Mathlib.Order.Interval.Set.Disjoint

/-!
# Layouts of a sectored medium

Writing an extent erases every sector it touches. A layout is safe when no two
extents touch one sector. Sorted by their starts, it is enough to compare
neighbours: intervals that are not empty and whose left ends ascend are pairwise
disjoint as soon as neighbours are.
-/
namespace IdfRemote.SectorLayout
open Checked

section Intervals
variable {α β : Type} [LinearOrder β] {lo hi : α → β} {xs : List α}

theorem pairwise_of_isChain (h : ∀ x ∈ xs, lo x ≤ hi x)
    (hchain : xs.IsChain fun a b => hi a ≤ lo b) : xs.Pairwise fun a b => hi a ≤ lo b := by
  induction xs with
  | nil => exact .nil
  | cons a xs ih =>
      have htail := ih (fun x hx => h x (List.mem_cons_of_mem _ hx)) hchain.tail
      refine List.pairwise_cons.mpr ⟨?_, htail⟩
      cases xs with
      | nil => simp
      | cons b xs =>
          have hab : hi a ≤ lo b := (List.isChain_cons_cons.mp hchain).1
          intro c hc
          rcases List.mem_cons.mp hc with rfl | hc
          · exact hab
          · have hb := h b (List.mem_cons_of_mem _ List.mem_cons_self)
            exact hab.trans (hb.trans ((List.pairwise_cons.mp htail).1 c hc))

variable (lo hi) in
theorem disjoint_iff_le {a b : α} (hab : lo a ≤ lo b) (hb : lo b < hi b) :
    Disjoint (Set.Ico (lo a) (hi a)) (Set.Ico (lo b) (hi b)) ↔ hi a ≤ lo b := by
  rw [Set.Ico_disjoint_Ico, max_eq_right hab]
  constructor
  · intro h
    rcases min_le_iff.mp h with h | h
    · exact h
    · exact absurd h (not_le.mpr hb)
  · exact fun h => (min_le_left _ _).trans h

variable (lo hi) in
/-- Comparing neighbours of a sorted list decides whether all pairs are disjoint. -/
theorem isChain_iff_disjoint (hpos : ∀ x ∈ xs, lo x < hi x)
    (hsorted : xs.Pairwise fun a b => lo a ≤ lo b) :
    xs.IsChain (fun a b => hi a ≤ lo b) ↔
      xs.Pairwise fun a b => Disjoint (Set.Ico (lo a) (hi a)) (Set.Ico (lo b) (hi b)) := by
  constructor
  · intro h
    have hpairs := pairwise_of_isChain (fun x hx => (hpos x hx).le) h
    exact (hsorted.and hpairs).imp_of_mem fun _ hb hab =>
      (disjoint_iff_le lo hi hab.1 (hpos _ hb)).mpr hab.2
  · intro h
    have hpairs := (hsorted.and h).imp_of_mem fun _ hb hab =>
      (disjoint_iff_le lo hi hab.1 (hpos _ hb)).mp hab.2
    exact hpairs.isChain

end Intervals

/-- `size` bytes from `offset` on. -/
structure Extent where
  offset : ℕ
  size : ℕ
deriving DecidableEq, Repr

/-- The addresses of the sectors an extent touches. -/
def Extent.erased (sector : ℕ) (e : Extent) : Set ℕ :=
  Set.Ico (roundDown sector e.offset) (roundUp sector (e.offset + e.size))

theorem Extent.erased_pos {sector : ℕ} (hs : 0 < sector) {e : Extent} (he : 0 < e.size) :
    roundDown sector e.offset < roundUp sector (e.offset + e.size) := by
  have := roundDown_le sector e.offset
  have := le_roundUp hs (e.offset + e.size)
  omega

/-- The test of a sorted layout, neighbour by neighbour. -/
def Apart (sector : ℕ) (a b : Extent) : Prop :=
  roundUp sector (a.offset + a.size) ≤ roundDown sector b.offset

instance (sector : ℕ) (a b : Extent) : Decidable (Apart sector a b) :=
  inferInstanceAs (Decidable (_ ≤ _))

def Sorted (xs : List Extent) : Prop := xs.Pairwise fun a b => a.offset ≤ b.offset

def Disjointed (sector : ℕ) (xs : List Extent) : Prop :=
  xs.Pairwise fun a b => Disjoint (a.erased sector) (b.erased sector)

theorem isChain_apart_iff {sector : ℕ} (hs : 0 < sector) {xs : List Extent}
    (hsorted : Sorted xs) (hpos : ∀ e ∈ xs, 0 < e.size) :
    xs.IsChain (Apart sector) ↔ Disjointed sector xs :=
  isChain_iff_disjoint (fun e : Extent => roundDown sector e.offset)
    (fun e => roundUp sector (e.offset + e.size))
    (fun e he => Extent.erased_pos hs (hpos e he))
    (hsorted.imp fun hab => roundDown_mono sector hab)

/-- Which extents share a sector does not depend on their order. -/
theorem Disjointed.perm {sector : ℕ} {xs ys : List Extent} (h : xs.Perm ys) :
    Disjointed sector xs ↔ Disjointed sector ys :=
  h.pairwise_iff fun hab => hab.symm

theorem Apart.offset_lt {sector : ℕ} (hs : 0 < sector) {a b : Extent} (ha : 0 < a.size)
    (hab : Apart sector a b) : a.offset < b.offset := by
  have := le_roundUp hs (a.offset + a.size)
  have := roundDown_le sector b.offset
  unfold Apart at hab
  omega

theorem Disjointed.ascending {sector : ℕ} (hs : 0 < sector) {xs : List Extent}
    (h : Disjointed sector xs) (hsorted : Sorted xs) (hpos : ∀ e ∈ xs, 0 < e.size) :
    xs.Pairwise fun a b => a.offset < b.offset := by
  refine (hsorted.and h).imp_of_mem fun {a b} ha hb hab => ?_
  have hle := roundDown_mono sector hab.1
  have hapart : Apart sector a b :=
    (disjoint_iff_le (fun e : Extent => roundDown sector e.offset)
      (fun e => roundUp sector (e.offset + e.size)) hle
      (Extent.erased_pos hs (hpos b hb))).mp hab.2
  exact hapart.offset_lt hs (hpos a ha)

end IdfRemote.SectorLayout
