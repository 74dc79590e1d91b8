import Mathlib.Data.List.Forall2

/-!
# What is left of a list

`SublistForall₂ R` says that one list is what is left of another when some elements are
lost and the others come out as `R` allows. Losing more, and looking only at some of the
elements, keeps the relation.
-/
namespace IdfRemote.Thinning
open List
variable {α β : Type*} {R : α → β → Prop}

theorem append {xs xs' : List α} {ys ys' : List β} (h : SublistForall₂ R xs ys)
    (h' : SublistForall₂ R xs' ys') : SublistForall₂ R (xs ++ xs') (ys ++ ys') := by
  obtain ⟨zs, hzs, hsub⟩ := sublistForall₂_iff.mp h
  obtain ⟨zs', hzs', hsub'⟩ := sublistForall₂_iff.mp h'
  exact sublistForall₂_iff.mpr ⟨zs ++ zs', rel_append hzs hzs', hsub.append hsub'⟩

theorem sublist_left {xs xs' : List α} {ys : List β} (hsub : xs' <+ xs)
    (h : SublistForall₂ R xs ys) : SublistForall₂ R xs' ys := by
  induction h generalizing xs' with
  | nil =>
      rw [sublist_nil.mp hsub]
      exact .nil
  | @cons x y xs ys hxy _ ih =>
      cases hsub with
      | cons _ hsub => exact .cons_right (ih hsub)
      | cons_cons _ hsub => exact .cons hxy (ih hsub)
  | cons_right _ ih => exact .cons_right (ih hsub)

theorem sublist_right {xs : List α} {ys ys' : List β} (h : SublistForall₂ R xs ys)
    (hsub : ys <+ ys') : SublistForall₂ R xs ys' := by
  obtain ⟨zs, hzs, hle⟩ := sublistForall₂_iff.mp h
  exact sublistForall₂_iff.mpr ⟨zs, hzs, hle.trans hsub⟩

theorem filter {p : α → Bool} {q : β → Bool} (hpq : ∀ x y, R x y → p x = q y) {xs : List α}
    {ys : List β} (h : SublistForall₂ R xs ys) :
    SublistForall₂ R (xs.filter p) (ys.filter q) := by
  induction h with
  | nil => exact .nil
  | @cons x y xs ys hxy _ ih =>
      rw [filter_cons, filter_cons, hpq x y hxy]
      split_ifs
      · exact .cons hxy ih
      · exact ih
  | @cons_right y xs ys _ ih =>
      rw [filter_cons]
      split_ifs
      · exact .cons_right ih
      · exact ih

theorem mem_left {xs : List α} {ys : List β} (h : SublistForall₂ R xs ys) {x : α} (hx : x ∈ xs) :
    ∃ y ∈ ys, R x y := by
  induction h with
  | nil => cases hx
  | cons hxy _ ih =>
      rcases mem_cons.mp hx with rfl | hx
      · exact ⟨_, mem_cons_self, hxy⟩
      · obtain ⟨y, hy, hR⟩ := ih hx
        exact ⟨y, mem_cons_of_mem _ hy, hR⟩
  | cons_right _ ih =>
      obtain ⟨y, hy, hR⟩ := ih hx
      exact ⟨y, mem_cons_of_mem _ hy, hR⟩

theorem map {γ : Type*} {f : α → γ} {g : β → γ} (hfg : ∀ x y, R x y → f x = g y) {xs : List α}
    {ys : List β} (h : SublistForall₂ R xs ys) : xs.map f <+ ys.map g := by
  induction h with
  | nil => exact nil_sublist _
  | @cons x y xs ys hxy _ ih =>
      rw [map_cons, map_cons, hfg x y hxy]
      exact ih.cons_cons _
  | cons_right _ ih => exact ih.cons _

end IdfRemote.Thinning
