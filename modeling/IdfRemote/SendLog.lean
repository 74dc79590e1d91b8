import Mathlib.Data.List.Basic
import Mathlib.Data.List.Chain
import Mathlib.Data.List.Infix

/-!
# Logs of partial writes

Several senders, each with a list of frames, share a line that takes part of a
frame at a time. The log of the accepted writes says which sender and which part
of which frame each of them was. `Follows` says that a log sends the frames of one
sender in order, without gaps and without starting one twice. `Turn` is the rule
by which the senders share the line.
-/
namespace IdfRemote.SendLog
variable {α : Type*}

/-- An accepted write, with the number of frames its sender has behind this one and the other
senders waiting in turn. -/
structure Write (α : Type*) where
  serial : ℕ
  index : ℕ
  frame : List α
  offset : ℕ
  bytes : List α
  behind : ℕ
  waiting : List ℕ

/-- The write reaches the end of its frame. -/
def Write.complete (w : Write α) : Bool := w.offset + w.bytes.length = w.frame.length

/-- Who sends next: inside a frame its sender, otherwise the first one waiting. -/
def Write.order (w : Write α) : List ℕ :=
  if w.complete then w.waiting ++ (if 0 < w.behind then [w.serial] else [])
  else w.serial :: w.waiting

/-- A write keeps to the order left by the one before; later senders come behind. -/
def Turn (v w : Write α) : Prop := v.order <+: w.serial :: w.waiting

def accepted (ws : List (Write α)) : List α := (ws.map (·.bytes)).flatten

def wholeFrames (ws : List (Write α)) : List (List α) :=
  (ws.filter (·.complete)).map (·.frame)

/-- The frames a log has started, by their indexes. -/
def starts (ws : List (Write α)) : List ℕ := (ws.filter (·.offset = 0)).map (·.index)

@[simp] theorem accepted_nil : accepted ([] : List (Write α)) = [] := rfl

@[simp] theorem wholeFrames_nil : wholeFrames ([] : List (Write α)) = [] := rfl

theorem accepted_concat (ws : List (Write α)) (w : Write α) :
    accepted (ws ++ [w]) = accepted ws ++ w.bytes := by
  simp [accepted]

theorem wholeFrames_concat (ws : List (Write α)) (w : Write α) :
    wholeFrames (ws ++ [w]) = wholeFrames ws ++ (if w.complete then [w.frame] else []) := by
  cases h : w.complete <;> simp [wholeFrames, h]

theorem starts_concat (ws : List (Write α)) (w : Write α) :
    starts (ws ++ [w]) = starts ws ++ (if w.offset = 0 then [w.index] else []) := by
  by_cases h : w.offset = 0 <;> simp [starts, h]

/-- The log sends `fs` from the start and has reached offset `o` of frame `i`. -/
inductive Follows (fs : List (List α)) : ℕ → ℕ → List (Write α) → Prop
  | nil : Follows fs 0 0 []
  | snoc {i o : ℕ} {ws : List (Write α)} (w : Write α) : Follows fs i o ws →
      w.index = i → w.offset = o → fs[i]? = some w.frame → w.bytes ≠ [] →
      w.bytes <+: w.frame.drop o →
      Follows fs (if w.complete then i + 1 else i) (if w.complete then 0 else o + w.bytes.length)
        (ws ++ [w])

namespace Follows
variable {fs : List (List α)} {i o : ℕ} {ws : List (Write α)}

theorem take_append_sent {frame bytes : List α} (h : bytes <+: frame.drop o) :
    frame.take (o + bytes.length) = frame.take o ++ bytes := by
  rw [List.take_add, ← List.prefix_iff_eq_take.mp h]

theorem accepted_eq (h : Follows fs i o ws) :
    accepted ws = (fs.take i).flatten ++ (fs[i]?.getD []).take o := by
  induction h with
  | nil => simp
  | @snoc i o ws w hws hindex hoffset hframe hbytes hpart ih =>
      have hgrow := take_append_sent hpart
      rw [accepted_concat, ih, hframe, Option.getD_some, List.append_assoc, ← hgrow]
      cases hc : w.complete with
      | false => simp [hframe]
      | true =>
          have hend : o + w.bytes.length = w.frame.length := by
            simpa [Write.complete, hoffset] using hc
          rw [hend, List.take_length, if_pos rfl, if_pos rfl, List.take_zero, List.append_nil,
            List.take_add_one, hframe, Option.toList_some, List.flatten_append]
          simp

/-- What a sender has sent is a prefix of its frames. -/
theorem accepted_prefix (h : Follows fs i o ws) : accepted ws <+: fs.flatten := by
  rw [h.accepted_eq]
  cases hi : fs[i]? with
  | none =>
      have hlen : fs.length ≤ i := List.getElem?_eq_none_iff.mp hi
      rw [List.take_of_length_le hlen]
      simp
  | some frame =>
      have hlt : i < fs.length := (List.getElem?_eq_some_iff.mp hi).1
      have hdrop : fs.drop i = frame :: fs.drop (i + 1) := by
        rw [List.drop_eq_getElem_cons hlt, (List.getElem?_eq_some_iff.mp hi).2]
      have hsplit : fs.flatten = (fs.take i).flatten ++ (frame ++ (fs.drop (i + 1)).flatten) := by
        rw [← List.flatten_cons, ← hdrop, ← List.flatten_append, List.take_append_drop]
      rw [hsplit, Option.getD_some]
      exact (List.prefix_append_right_inj _).mpr ((List.take_prefix o frame).trans
        (List.prefix_append _ _))

theorem starts_eq (h : Follows fs i o ws) :
    starts ws = List.range (if o = 0 then i else i + 1) := by
  induction h with
  | nil => rfl
  | @snoc i o ws w hws hindex hoffset hframe hbytes hpart ih =>
      have hpos : 0 < w.bytes.length := List.length_pos_iff.mpr hbytes
      rw [starts_concat, ih, hindex, hoffset]
      by_cases ho : o = 0
      · subst ho
        cases hc : w.complete with
        | false => simp [List.range_succ, hbytes]
        | true => simp [List.range_succ]
      · cases hc : w.complete with
        | false => simp [ho]
        | true => simp [ho]

theorem frame_eq (h : Follows fs i o ws) : ∀ w ∈ ws, fs[w.index]? = some w.frame := by
  induction h with
  | nil => simp
  | @snoc i o ws w hws hindex hoffset hframe hbytes hpart ih =>
      intro v hv
      rcases List.mem_append.mp hv with hv | hv
      · exact ih v hv
      · rw [List.mem_singleton.mp hv, hindex, hframe]

end Follows

/-- Up to the next complete frame the line belongs to the sender that was first in order. -/
theorem next_frame_serial {mid post : List (Write α)} {v w : Write α} {q : ℕ} {qs : List ℕ}
    (hchain : (v :: (mid ++ w :: post)).IsChain Turn) (hq : v.order = q :: qs)
    (hmid : ∀ u ∈ mid, u.complete = false) : w.serial = q := by
  induction mid generalizing v qs with
  | nil =>
      have hturn := (List.isChain_cons_cons.mp hchain).1
      rw [Turn, hq, List.cons_prefix_cons] at hturn
      exact hturn.1.symm
  | cons u mid ih =>
      obtain ⟨hturn, hrest⟩ := List.isChain_cons_cons.mp hchain
      rw [Turn, hq, List.cons_prefix_cons] at hturn
      have horder : u.order = q :: u.waiting := by
        unfold Write.order
        rw [hmid u List.mem_cons_self, hturn.1]
        rfl
      exact ih hrest horder fun x hx => hmid x (List.mem_cons_of_mem _ hx)

end IdfRemote.SendLog
