import Mathlib.Data.List.Sort
import Mathlib.Data.List.Dedup

/-!
# Grouping by a key

The values of a list by their keys, in the order of the keys: what a program gets
that pushes each value to the entry of its key in an ordered map.
-/
namespace IdfRemote.Grouping
variable {α κ : Type} [DecidableEq κ]

def groupBy (le : κ → κ → Bool) (key : α → κ) (xs : List α) : List (κ × List α) :=
  ((xs.map key).dedup.insertionSort fun a b => le a b).map fun k =>
    (k, xs.filter fun x => key x = k)

variable {le : κ → κ → Bool} {key : α → κ} {xs : List α}

theorem mem_groupBy {k : κ} {ys : List α} :
    (k, ys) ∈ groupBy le key xs ↔ (∃ x ∈ xs, key x = k) ∧ ys = xs.filter fun x => key x = k := by
  simp only [groupBy, List.mem_map, List.mem_insertionSort, List.mem_dedup, Prod.mk.injEq]
  constructor
  · rintro ⟨k', hk, rfl, rfl⟩
    exact ⟨hk, rfl⟩
  · rintro ⟨hk, rfl⟩
    exact ⟨k, hk, rfl, rfl⟩

/-- There is one group if and only if all values have one key; the group has them in order. -/
theorem groupBy_eq_singleton {k : κ} {ys : List α} (h : groupBy le key xs = [(k, ys)]) :
    ys = xs ∧ ∀ x ∈ xs, key x = k := by
  have hall : ∀ x ∈ xs, key x = k := by
    intro x hx
    have hmem : (key x, xs.filter fun y => key y = key x) ∈ groupBy le key xs :=
      mem_groupBy.mpr ⟨⟨x, hx, rfl⟩, rfl⟩
    rw [h] at hmem
    exact congrArg Prod.fst (List.mem_singleton.mp hmem)
  have hgroup : (k, ys) ∈ groupBy le key xs := h ▸ List.mem_singleton_self _
  refine ⟨?_, hall⟩
  rw [(mem_groupBy.mp hgroup).2, List.filter_eq_self]
  exact fun x hx => decide_eq_true (hall x hx)

variable (key) in
/-- With few values for each key, a list is not much longer than its list of keys. -/
theorem length_le_of_few {n : ℕ} {keys : List κ} (hmem : ∀ x ∈ xs, key x ∈ keys)
    (hfew : ∀ k, (xs.filter fun x => key x = k).length ≤ n) : xs.length ≤ n * keys.length := by
  induction keys generalizing xs with
  | nil =>
      have hnil : xs = [] := List.eq_nil_iff_forall_not_mem.mpr fun x hx => by
        simpa using hmem x hx
      simp [hnil]
  | cons k keys ih =>
      have hrest : (xs.filter fun x => !decide (key x = k)).length ≤ n * keys.length := by
        apply ih
        · intro x hx
          obtain ⟨hx, hne⟩ := List.mem_filter.mp hx
          rcases List.mem_cons.mp (hmem x hx) with heq | hkeys
          · simp [heq] at hne
          · exact hkeys
        · intro k'
          exact (List.filter_sublist.filter _).length_le.trans (hfew k')
      have hsplit := List.length_eq_length_filter_add (l := xs) fun x => decide (key x = k)
      have hfirst := hfew k
      rw [List.length_cons, Nat.mul_succ]
      omega

end IdfRemote.Grouping
