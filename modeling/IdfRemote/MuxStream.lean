import IdfRemote.Mux

/-!
# The decoder as a stream machine

`feed` collects unframed bytes of one call into one item, so the same stream cut
differently yields different items. The byte machine below emits each unframed
byte by itself. The items of any sequence of calls expand to the output of the
byte machine on the whole stream; merging adjacent raw items therefore forgets
exactly how the stream was cut.
-/
namespace IdfRemote.Mux
open StreamMachine

inductive Event
  | frame (f : Frame)
  | raw (b : UInt8)
  | corrupt
deriving DecidableEq, Repr

/-- One item as the events it stands for. -/
def Decoded.events : Decoded → List Event
  | .frame f => [.frame f]
  | .raw data => data.map .raw
  | .corrupt => [.corrupt]

/-- Adjacent raw items become one. -/
def mergeRaw : List Decoded → List Decoded
  | [] => []
  | .raw xs :: ds =>
      match mergeRaw ds with
      | .raw ys :: rest => .raw (xs ++ ys) :: rest
      | rest => .raw xs :: rest
  | .frame f :: ds => .frame f :: mergeRaw ds
  | .corrupt :: ds => .corrupt :: mergeRaw ds

/-- The merged items of a list of events. -/
def collect : List Event → List Decoded
  | [] => []
  | .raw b :: es =>
      match collect es with
      | .raw ys :: rest => .raw (b :: ys) :: rest
      | rest => .raw [b] :: rest
  | .frame f :: es => .frame f :: collect es
  | .corrupt :: es => .corrupt :: collect es

theorem collect_raw_append (x : UInt8) (xs : List UInt8) (es : List Event) :
    collect ((x :: xs).map .raw ++ es) =
      match collect es with
      | .raw ys :: rest => .raw (x :: xs ++ ys) :: rest
      | rest => .raw (x :: xs) :: rest := by
  induction xs generalizing x with
  | nil => rfl
  | cons y ys ih =>
      have h := ih y
      rw [List.map_cons, List.cons_append, collect, h]
      rcases collect es with _ | ⟨_ | _ | _, _⟩ <;> rfl

/-- Raw items are never empty, so merging and collecting agree. -/
theorem mergeRaw_eq_collect (ds : List Decoded) (h : ∀ d ∈ ds, d ≠ .raw []) :
    mergeRaw ds = collect (ds.flatMap Decoded.events) := by
  induction ds with
  | nil => rfl
  | cons d ds ih =>
      have ih := ih fun e he => h e (List.mem_cons_of_mem _ he)
      cases d with
      | frame f => simp [mergeRaw, collect, Decoded.events, ih]
      | corrupt => simp [mergeRaw, collect, Decoded.events, ih]
      | raw xs =>
          cases xs with
          | nil => exact absurd rfl (h _ List.mem_cons_self)
          | cons x xs =>
              rw [List.flatMap_cons, Decoded.events, collect_raw_append, mergeRaw, ih]

theorem collect_append_frame (es : List Event) (f : Frame) :
    collect (es ++ [.frame f]) = collect es ++ [.frame f] := by
  induction es with
  | nil => rfl
  | cons e es ih =>
      cases e with
      | frame g => simp [collect, ih]
      | corrupt => simp [collect, ih]
      | raw b =>
          rw [List.cons_append, collect, ih, collect]
          rcases collect es with _ | ⟨_ | _ | _, _⟩ <;> rfl

theorem collect_frames (fs : List Frame) :
    collect (fs.map .frame) = fs.map .frame := by
  induction fs with
  | nil => rfl
  | cons f fs ih => simp [collect, ih]

namespace Decoder

/-- One byte, unframed output leaving at once. -/
def step (d : Decoder) (b : UInt8) : Decoder × List Event :=
  if b = 0x7e then (d.restart, d.finish.flatMap Decoded.events)
  else if d.unframed b then ({ d with inFrame := false }, [.raw b])
  else (d.push b, [])

def machine : Machine Decoder UInt8 Event := ⟨step⟩

theorem finish_ne_raw (d : Decoder) : ∀ e ∈ d.finish, e ≠ .raw [] := by
  unfold finish
  intro e he
  split_ifs at he <;> simp at he
  · rw [he]; exact Decoded.noConfusion
  · cases hd : Frame.decode d.body <;> rw [hd] at he <;> simp [he]

theorem Loop.flush_events (s : Loop) :
    s.flush.flatMap Decoded.events =
      s.result.flatMap Decoded.events ++ s.raw.map .raw := by
  unfold flush
  split_ifs with h
  · simp [Decoded.events]
  · simp only [ne_eq, not_not] at h
    simp [h]

/-- One byte of the loop and one step of the machine emit the same events. -/
theorem Loop.byte_refines (s : Loop) (b : UInt8) :
    (s.byte b).decoder = (s.decoder.step b).1 ∧
      (s.byte b).flush.flatMap Decoded.events =
        s.flush.flatMap Decoded.events ++ (s.decoder.step b).2 := by
  simp only [flush_events]
  unfold Loop.byte step
  split_ifs
  · exact ⟨rfl, by simp [flush_events]⟩
  · exact ⟨rfl, by simp⟩
  · exact ⟨rfl, by simp⟩

theorem Loop.foldl_refines (s : Loop) (bytes : List UInt8) :
    (bytes.foldl byte s).decoder = (machine.run s.decoder bytes).1 ∧
      (bytes.foldl byte s).flush.flatMap Decoded.events =
        s.flush.flatMap Decoded.events ++ (machine.run s.decoder bytes).2 := by
  induction bytes generalizing s with
  | nil => simp
  | cons b bytes ih =>
      obtain ⟨hd, he⟩ := byte_refines s b
      obtain ⟨hd', he'⟩ := ih (s.byte b)
      rw [hd] at hd' he'
      refine ⟨hd', ?_⟩
      rw [List.foldl_cons, he', he, Machine.run_cons, List.append_assoc]
      rfl

theorem feed_decoder (d : Decoder) (bytes : List UInt8) :
    (d.feed bytes).1 = (machine.run d bytes).1 :=
  (Loop.foldl_refines { decoder := d } bytes).1

theorem feed_events (d : Decoder) (bytes : List UInt8) :
    (d.feed bytes).2.flatMap Decoded.events = (machine.run d bytes).2 :=
  (Loop.foldl_refines { decoder := d } bytes).2

theorem Loop.flush_ne_raw (s : Loop) (h : ∀ e ∈ s.result, e ≠ .raw []) :
    ∀ e ∈ s.flush, e ≠ .raw [] := by
  intro e he
  unfold flush at he
  split_ifs at he with hr
  · rcases List.mem_append.mp he with he | he
    · exact h e he
    · rw [List.mem_singleton.mp he]
      exact fun hraw => hr (Decoded.raw.inj hraw)
  · exact h e he

theorem Loop.foldl_ne_raw (s : Loop) (bytes : List UInt8) (h : ∀ e ∈ s.result, e ≠ .raw []) :
    ∀ e ∈ (bytes.foldl byte s).result, e ≠ .raw [] := by
  induction bytes generalizing s with
  | nil => exact h
  | cons b bytes ih =>
      apply ih
      unfold byte
      split_ifs
      · intro e he
        rcases List.mem_append.mp he with he | he
        · exact flush_ne_raw s h e he
        · exact finish_ne_raw _ e he
      · exact h
      · exact h

theorem feedAll_ne_raw (d : Decoder) (cs : List (List UInt8)) :
    ∀ e ∈ (d.feedAll cs).2, e ≠ .raw [] := by
  induction cs generalizing d with
  | nil => simp [feedAll]
  | cons c cs ih =>
      intro e he
      rcases List.mem_append.mp he with he | he
      · exact Loop.flush_ne_raw _ (Loop.foldl_ne_raw { decoder := d } c (by simp)) e he
      · exact ih _ e he

theorem feedAll_refines (d : Decoder) (cs : List (List UInt8)) :
    (d.feedAll cs).1 = (machine.run d cs.flatten).1 ∧
      (d.feedAll cs).2.flatMap Decoded.events = (machine.run d cs.flatten).2 := by
  rw [← Machine.runChunks_eq]
  induction cs generalizing d with
  | nil => exact ⟨rfl, rfl⟩
  | cons c cs ih =>
      obtain ⟨hd, he⟩ := ih (d.feed c).1
      rw [feed_decoder] at hd he
      refine ⟨?_, ?_⟩
      · rw [feedAll, Machine.runChunks, ← hd, feed_decoder]
      · rw [feedAll, Machine.runChunks, ← he, List.flatMap_append, feed_events, feed_decoder]

/-- The merged output of a stream depends on the stream alone, not on how it was cut. -/
theorem mergeRaw_feedAll (d : Decoder) (cs : List (List UInt8)) :
    mergeRaw (d.feedAll cs).2 = collect (machine.run d cs.flatten).2 := by
  rw [mergeRaw_eq_collect _ (feedAll_ne_raw d cs), (feedAll_refines d cs).2]

end Decoder
end IdfRemote.Mux
