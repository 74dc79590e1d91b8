import IdfRemote.StreamMachine
import Mathlib.Data.List.Flatten
import Mathlib.Tactic.SplitIfs

/-!
# Streams cut at a separator or at a length

A separator ends a segment and is dropped. A segment that reaches the limit ends as
well, as a fragment. Nothing is lost: each segment tells whether a separator follows
it, and what has no end yet is pending.
-/
namespace IdfRemote.Segmentation
open StreamMachine
variable {α : Type*}

structure Segment (α : Type*) where
  symbols : List α
  fragment : Bool

/-- What a segment stood for in the stream. -/
def Segment.restore (separator : α) (s : Segment α) : List α :=
  s.symbols ++ if s.fragment then [] else [separator]

def restore (separator : α) (segments : List (Segment α)) : List α :=
  segments.flatMap (Segment.restore separator)

/-- Fragments have exactly the limit, other segments are shorter. -/
def Segment.Fits (limit : ℕ) (s : Segment α) : Prop :=
  if s.fragment then s.symbols.length = limit else s.symbols.length < limit

variable [DecidableEq α] (separator : α) (limit : ℕ)

/-- The machine whose state is what is pending. -/
def segments : Machine (List α) α (Segment α) where
  step pending a :=
    if a = separator then ([], [⟨pending, false⟩])
    else if (pending ++ [a]).length = limit then ([], [⟨pending ++ [a], true⟩])
    else (pending ++ [a], [])

theorem step_restore (pending : List α) (a : α) :
    restore separator ((segments separator limit).step pending a).2 ++
      ((segments separator limit).step pending a).1 = pending ++ [a] := by
  unfold segments
  dsimp only
  split_ifs with hseparator hlimit
  · simp [restore, Segment.restore, hseparator]
  · simp [restore, Segment.restore]
  · rfl

/-- The segments and what is pending are the stream. -/
theorem run_restore (pending stream : List α) :
    restore separator ((segments separator limit).run pending stream).2 ++
      ((segments separator limit).run pending stream).1 = pending ++ stream := by
  induction stream generalizing pending with
  | nil => simp [restore]
  | cons a stream ih =>
      have hstep := step_restore separator limit pending a
      rw [Machine.run_cons, restore, List.flatMap_append, List.append_assoc, ← restore, ← restore,
        ih, ← List.append_assoc, hstep, List.append_assoc, List.singleton_append]

variable {limit}

theorem step_pending {pending : List α} (h : pending.length < limit) (a : α) :
    ((segments separator limit).step pending a).1.length < limit := by
  unfold segments
  dsimp only
  split_ifs with hseparator hlimit
  · exact Nat.zero_lt_of_lt h
  · exact Nat.zero_lt_of_lt h
  · rw [List.length_append, List.length_singleton] at hlimit ⊢
    omega

theorem step_fits {pending : List α} (h : pending.length < limit) (a : α) :
    ∀ s ∈ ((segments separator limit).step pending a).2, s.Fits limit := by
  unfold segments
  dsimp only
  intro s hs
  split_ifs at hs with hseparator hlimit
  · rw [List.mem_singleton.mp hs]
    exact h
  · rw [List.mem_singleton.mp hs]
    exact hlimit
  · exact absurd hs List.not_mem_nil

theorem run_pending {pending : List α} (h : pending.length < limit) (stream : List α) :
    ((segments separator limit).run pending stream).1.length < limit :=
  @Machine.run_invariant _ _ _ (segments separator limit) (fun pending => pending.length < limit)
    (fun _ a hp => step_pending separator hp a) pending stream h

theorem run_fits {pending : List α} (h : pending.length < limit) (stream : List α) :
    ∀ s ∈ ((segments separator limit).run pending stream).2, s.Fits limit := by
  induction stream generalizing pending with
  | nil => exact fun s hs => absurd hs List.not_mem_nil
  | cons a stream ih =>
      intro s hs
      rw [Machine.run_cons] at hs
      rcases List.mem_append.mp hs with hfirst | hlater
      · exact step_fits separator h a s hfirst
      · exact ih (step_pending separator h a) s hlater

end IdfRemote.Segmentation
