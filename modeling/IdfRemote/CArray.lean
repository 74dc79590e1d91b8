import Mathlib.Data.List.Basic
import Mathlib.Data.Nat.Basic

/-!
# Fixed-size arrays with undefined behaviour outside their bounds

An array of a language without bounds checks has a fixed size. A load or a store
outside of it has no defined result, which is `none` here, so that a program
proved to return `some` is proved to stay within its arrays. Programs that fill
an array from its start are described by the list it holds so far: `Holds`.
-/
namespace IdfRemote.CArray

variable {α β : Type} {n m : ℕ}

def load (a : Vector α n) (i : ℕ) : Option α := a[i]?

def store (a : Vector α n) (i : ℕ) (x : α) : Option (Vector α n) :=
  if h : i < n then some (a.set i x) else none

/-- Storing `value i` at `start + i` for each `i` below `count`, in that order. -/
def storeLoop (start : ℕ) (value : ℕ → Option α) (count : ℕ) (a : Vector α n) :
    Option (Vector α n) :=
  (List.range count).foldlM (fun a i => (value i).bind (store a (start + i))) a

/-- `memcpy` between two arrays. -/
def copy (dst : Vector α n) (start : ℕ) (src : Vector α m) (offset count : ℕ) :
    Option (Vector α n) :=
  storeLoop start (fun i => load src (offset + i)) count dst

/-- Reading `count` elements in order into an accumulator. -/
def loadLoop (a : Vector α n) (offset : ℕ) (f : β → ℕ → α → β) (count : ℕ) (init : β) : Option β :=
  (List.range count).foldlM (fun acc i => (load a (offset + i)).map (f acc i)) init

/-- The array starts with this list. -/
def Holds (a : Vector α n) (xs : List α) : Prop := xs <+: a.toList

theorem holds_nil (a : Vector α n) : Holds a [] := List.nil_prefix

theorem Holds.take {a : Vector α n} {xs : List α} (h : Holds a xs) :
    a.toList.take xs.length = xs :=
  (List.prefix_iff_eq_take.mp h).symm

theorem Holds.load {a : Vector α n} {xs : List α} (h : Holds a xs) {i : ℕ} (hi : i < xs.length) :
    CArray.load a i = some xs[i] := by
  have hn : i < a.toList.length := Nat.lt_of_lt_of_le hi (List.IsPrefix.length_le h)
  rw [CArray.load, ← Vector.getElem?_toList, List.getElem?_eq_getElem hn, h.getElem hi]

/-- A store right behind the held list extends it. -/
theorem Holds.store {a : Vector α n} {xs : List α} (h : Holds a xs) (hn : xs.length < n) (x : α) :
    ∃ b, CArray.store a xs.length x = some b ∧ Holds b (xs ++ [x]) := by
  refine ⟨a.set xs.length x, by rw [CArray.store, dif_pos hn], ?_⟩
  obtain ⟨ys, hys⟩ := h
  have hlen : xs.length + ys.length = n := by
    have := congrArg List.length hys
    simpa using this
  cases ys with
  | nil => simp at hlen; omega
  | cons y ys =>
      refine ⟨ys, ?_⟩
      rw [Vector.toList_set hn, ← hys, List.set_append_right _ _ le_rfl]
      simp

theorem Holds.storeLoop {a : Vector α n} {xs : List α} (h : Holds a xs) (value : ℕ → Option α)
    (g : ℕ → α) (count : ℕ) (hvalue : ∀ i < count, value i = some (g i))
    (hn : xs.length + count ≤ n) :
    ∃ b, CArray.storeLoop xs.length value count a = some b ∧
      Holds b (xs ++ (List.range count).map g) := by
  induction count with
  | zero => exact ⟨a, rfl, by simpa using h⟩
  | succ count ih =>
      obtain ⟨b, hb, hheld⟩ := ih (fun i hi => hvalue i (by omega)) (by omega)
      have hlen : (xs ++ (List.range count).map g).length = xs.length + count := by simp
      obtain ⟨c, hc, hnext⟩ := hheld.store (by omega) (g count)
      rw [hlen] at hc
      refine ⟨c, ?_, ?_⟩
      · rw [CArray.storeLoop, List.range_succ, List.foldlM_append]
        change (CArray.storeLoop xs.length value count a).bind _ = _
        rw [hb]
        simp [hvalue count (by omega), hc]
      · simpa only [List.range_succ, List.map_append, List.map_cons, List.map_nil,
          List.append_assoc] using hnext

theorem map_range_getElem (xs : List α) (offset count : ℕ) (g : ℕ → α)
    (hg : ∀ i (h : offset + i < xs.length), i < count → g i = xs[offset + i])
    (hlen : offset + count ≤ xs.length) :
    (List.range count).map g = (xs.drop offset).take count := by
  apply List.ext_getElem
  · simp; omega
  · intro i hi _
    have hi : i < count := by simpa using hi
    simp [hg i (by omega) hi]

theorem Holds.copy {dst : Vector α n} {src : Vector α m} {xs ys : List α} (h : Holds dst xs)
    (hsrc : Holds src ys) (offset count : ℕ) (hys : offset + count ≤ ys.length)
    (hn : xs.length + count ≤ n) :
    ∃ b, CArray.copy dst xs.length src offset count = some b ∧
      Holds b (xs ++ (ys.drop offset).take count) := by
  cases ys with
  | nil =>
      have hz : count = 0 := by simp at hys; omega
      subst hz
      exact ⟨dst, rfl, by simpa using h⟩
  | cons y ys =>
      have hvalue : ∀ i < count, CArray.load src (offset + i) =
          some ((y :: ys).getD (offset + i) y) := by
        intro i hi
        rw [hsrc.load (by omega), List.getD, List.getElem?_eq_getElem (by omega), Option.getD_some]
      obtain ⟨b, hb, hheld⟩ := h.storeLoop _ _ count hvalue hn
      refine ⟨b, hb, ?_⟩
      rwa [map_range_getElem (y :: ys) offset count _ _ hys] at hheld
      intro i hi _
      rw [List.getD, List.getElem?_eq_getElem hi, Option.getD_some]

/-- A loop that reads held elements folds over the held list. -/
theorem Holds.loadLoop {a : Vector α n} {xs : List α} (h : Holds a xs) (offset count : ℕ)
    (hxs : offset + count ≤ xs.length) (f : β → ℕ → α → β) (init : β) :
    CArray.loadLoop a offset f count init =
      some (((xs.drop offset).take count).zipIdx.foldl (fun acc p => f acc p.2 p.1) init) := by
  induction count with
  | zero => simp [CArray.loadLoop]
  | succ count ih =>
      have hi : offset + count < xs.length := by omega
      have hstep := ih (by omega)
      have htake : (xs.drop offset).take (count + 1) =
          (xs.drop offset).take count ++ [xs[offset + count]] := by
        rw [List.take_add_one, List.getElem?_drop, List.getElem?_eq_getElem hi]
        rfl
      have hlen : ((xs.drop offset).take count).length = count := by simp; omega
      rw [CArray.loadLoop, List.range_succ, List.foldlM_append]
      change (CArray.loadLoop a offset f count init).bind _ = _
      rw [hstep, htake, List.zipIdx_append, List.foldl_append, hlen]
      simp [h.load hi]

end IdfRemote.CArray
