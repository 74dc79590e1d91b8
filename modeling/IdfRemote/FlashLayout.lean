import IdfRemote.SectorLayout

/-!
# Safe flash layouts

What client and server both ask of a list of artifacts before a device is
opened. The backend writes words, so an artifact is padded to four bytes; the
device erases sectors of 4096 bytes. The last check of both programs walks over
the sorted segments and compares neighbours.
-/
namespace IdfRemote.FlashLayout
open Checked SectorLayout

def sectorSize : ℕ := 4096

/-- The bytes that are written. -/
def padded (e : Extent) : Extent := { e with size := roundUp 4 e.size }

/-- At most `limit` bytes of artifacts that fit the address space and share no sector. -/
structure Safe (limit : ℕ) (segments : List Extent) : Prop where
  count : segments.length ≠ 0 ∧ segments.length ≤ 64
  nonempty : ∀ e ∈ segments, 0 < e.size
  aligned : ∀ e ∈ segments, 4 ∣ e.offset
  inside : ∀ e ∈ segments, e.offset + (padded e).size ≤ 2 ^ 32
  total : (segments.map Extent.size).sum ≤ limit
  disjoint : Disjointed sectorSize (segments.map padded)

/-- The `windows(2)` loop over sorted segments. -/
def eraseWindows {α : Type} (extent : α → Extent) (message : α → α → String) :
    List α → Checked Unit
  | a :: b :: rest => do
      let stop ← add 64 (extent a).offset (extent a).size
      let eraseEnd ← nextMultipleOf 64 stop sectorSize
      let nextStart := (extent b).offset / sectorSize * sectorSize
      ensure (eraseEnd ≤ nextStart) (message a b)
      eraseWindows extent message (b :: rest)
  | _ => return ()

theorem padded_pos {e : Extent} (h : 0 < e.size) : 0 < (padded e).size :=
  h.trans_le (le_roundUp (by decide) _)

/-- The ends of extents inside the address space are far from the width of the sums. -/
theorem decides_eraseWindows {α : Type} (extent : α → Extent) (message : α → α → String)
    (xs : List α) (hinside : ∀ x ∈ xs, (extent x).offset + (extent x).size ≤ 2 ^ 32) :
    Decides (eraseWindows extent message xs)
      ((xs.map extent).IsChain (Apart sectorSize)) () := by
  induction xs with
  | nil => exact (decides_pure ()).congr (by simp)
  | cons a xs ih =>
      cases xs with
      | nil => exact (decides_pure ()).congr (by simp)
      | cons b xs =>
          have ha := hinside a List.mem_cons_self
          have hup := roundUp_lt (m := sectorSize) (by decide)
            ((extent a).offset + (extent a).size)
          have hlt : roundUp sectorSize ((extent a).offset + (extent a).size) < 2 ^ 64 := by
            have : sectorSize = 4096 := rfl
            omega
          have hrest := ih fun x hx => hinside x (List.mem_cons_of_mem _ hx)
          refine (Decides.bind (decides_some (add_eq_some (by omega))) fun _ =>
            Decides.bind (decides_some (nextMultipleOf_eq_some (by decide) hlt)) fun _ =>
            Decides.bind (decides_ensure _ _) fun _ => hrest).congr ?_
          simp [Apart, roundDown, Nat.mul_comm]

/-- What both programs ask of one artifact by itself. -/
def Fits (e : Extent) : Prop :=
  4 ∣ e.offset ∧ 0 < e.size ∧ e.offset + (padded e).size ≤ 2 ^ 32

/-- A layout is safe if each artifact fits and the sorted neighbours are apart. -/
theorem safe_iff {limit : ℕ} {xs ys : List Extent} (hperm : ys.Perm (xs.map padded))
    (hsorted : Sorted ys) :
    Safe limit xs ↔ (xs.length ≠ 0 ∧ xs.length ≤ 64) ∧ (∀ e ∈ xs, Fits e) ∧
      (xs.map Extent.size).sum ≤ limit ∧ ys.IsChain (Apart sectorSize) := by
  have hchain : (∀ e ∈ xs, Fits e) →
      (ys.IsChain (Apart sectorSize) ↔ Disjointed sectorSize (xs.map padded)) := by
    intro hfits
    rw [isChain_apart_iff (by decide) hsorted, Disjointed.perm hperm]
    intro y hy
    obtain ⟨e, he, rfl⟩ := List.mem_map.mp (hperm.mem_iff.mp hy)
    exact padded_pos (hfits e he).2.1
  constructor
  · intro h
    have hfits : ∀ e ∈ xs, Fits e := fun e he => ⟨h.aligned e he, h.nonempty e he, h.inside e he⟩
    exact ⟨h.count, hfits, h.total, (hchain hfits).mpr h.disjoint⟩
  · rintro ⟨hcount, hfits, htotal, h⟩
    exact ⟨hcount, fun e he => (hfits e he).2.1, fun e he => (hfits e he).1,
      fun e he => (hfits e he).2.2, htotal, (hchain hfits).mp h⟩

theorem four_dvd_iff (n : UInt32) : n % 4 = 0 ↔ 4 ∣ n.toNat := by
  rw [Nat.dvd_iff_mod_eq_zero, ← UInt32.toNat_inj]
  simp

end IdfRemote.FlashLayout
