import Mathlib.Data.Multiset.AddSub
import Mathlib.Data.Multiset.Count
import Mathlib.Algebra.Order.Group.Int

/-!
# Counted leases

A counter goes up when a lease is taken and down when one is given back. Whoever took
and gave back is kept in two multisets. As long as nobody gives back what was not taken,
the counter is the number of leases that are out.
-/
namespace IdfRemote.Leasing
variable {ι : Type*}

structure Counted (taken returned : Multiset ι) (calls : ℤ) : Prop where
  le : returned ≤ taken
  calls_eq : calls = taken.card - returned.card

namespace Counted
variable {taken returned : Multiset ι} {calls : ℤ} {i : ι}

theorem zero : Counted (0 : Multiset ι) 0 0 := ⟨le_rfl, rfl⟩

theorem take (h : Counted taken returned calls) (i : ι) :
    Counted (taken + {i}) returned (calls + 1) := by
  refine ⟨h.le.trans (Multiset.le_add_right _ _), ?_⟩
  rw [h.calls_eq, Multiset.card_add, Multiset.card_singleton]
  omega

theorem nonneg (h : Counted taken returned calls) : 0 ≤ calls := by
  have hcard := Multiset.card_le_card h.le
  rw [h.calls_eq]
  omega

/-- When all leases are back, the counter is zero, and only then. -/
theorem eq_zero_iff (h : Counted taken returned calls) : calls = 0 ↔ returned = taken := by
  have hcard := Multiset.card_le_card h.le
  rw [h.calls_eq]
  constructor
  · intro hzero
    exact Multiset.eq_of_le_of_card_le h.le (by omega)
  · rintro rfl
    exact sub_self _

section
variable [DecidableEq ι]

theorem giveBack (h : Counted taken returned calls) (hi : returned.count i < taken.count i) :
    Counted taken (returned + {i}) (calls - 1) := by
  constructor
  · rw [Multiset.le_iff_count]
    intro j
    rw [Multiset.count_add, Multiset.count_singleton]
    split_ifs with hj
    · subst hj
      exact hi
    · exact Multiset.le_iff_count.mp h.le j
  · rw [h.calls_eq, Multiset.card_add, Multiset.card_singleton]
    omega

theorem pos (h : Counted taken returned calls) (hi : returned.count i < taken.count i) :
    0 < calls := by
  refine lt_of_le_of_ne h.nonneg fun hzero => ?_
  rw [h.eq_zero_iff.mp hzero.symm] at hi
  exact lt_irrefl _ hi

theorem exists_out (h : Counted taken returned calls) (hcalls : calls ≠ 0) :
    ∃ i, returned.count i < taken.count i := by
  by_contra hnone
  apply hcalls
  rw [h.eq_zero_iff]
  refine le_antisymm h.le (Multiset.le_iff_count.mpr fun i => ?_)
  exact not_lt.mp fun hi => hnone ⟨i, hi⟩

end
end Counted
end IdfRemote.Leasing
