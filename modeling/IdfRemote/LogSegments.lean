import IdfRemote.Logs
import IdfRemote.Segmentation

/-!
# No byte of a log is lost

The line decoder cuts its stream at newlines and at the line limit. Its records are
those segments as text, numbered from one; the reads by which the stream arrives
leave no trace but the host time.
-/
namespace IdfRemote.LineDecoder
open Segmentation StreamMachine

/-- The decoder's cut of a stream. -/
def lines : Machine (List UInt8) UInt8 (Segment UInt8) := segments 0x0a maxLineBytes

section
variable (t : LogText) (hostTime : ℕ → ℕ)

/-- The record of a segment behind `seq` others. -/
def record (seq : ℕ) (s : Segment UInt8) : LogRecord :=
  (finish t hostTime { pending := s.symbols, seq := seq } s.fragment).2

def records (seq : ℕ) (segments : List (Segment UInt8)) : List LogRecord :=
  (segments.zipIdx seq).map fun s => record t hostTime s.2 s.1

/-- Successive calls of `feed` on the reads of one stream. -/
def feedAll (d : LineDecoder) : List (List UInt8) → LineDecoder × List LogRecord
  | [] => (d, [])
  | c :: cs =>
      let r := d.feed t hostTime c
      let s := feedAll r.1 cs
      (s.1, r.2 ++ s.2)

theorem records_append (seq : ℕ) (ss more : List (Segment UInt8)) :
    records t hostTime seq (ss ++ more) =
      records t hostTime seq ss ++ records t hostTime (seq + ss.length) more := by
  simp [records, List.zipIdx_append]

theorem records_seq (seq : ℕ) (ss : List (Segment UInt8)) :
    (records t hostTime seq ss).map (·.seq) = List.range' (seq + 1) ss.length := by
  induction ss generalizing seq with
  | nil => rfl
  | cons s ss ih => exact congrArg _ (ih (seq + 1))

/-- `feed` numbers the segments and makes them text. -/
theorem feed_eq (d : LineDecoder) (bytes : List UInt8) :
    d.feed t hostTime bytes =
      ({ pending := (lines.run d.pending bytes).1
         seq := d.seq + (lines.run d.pending bytes).2.length },
        records t hostTime d.seq (lines.run d.pending bytes).2) := by
  induction bytes generalizing d with
  | nil => rfl
  | cons byte bytes ih =>
      rw [feed, Machine.run_cons]
      by_cases hnewline : byte = 0x0a
      · have hstep : lines.step d.pending byte = ([], [⟨d.pending, false⟩]) := if_pos hnewline
        rw [if_pos hnewline, hstep, records_append]
        simp only [finish, ih]
        simp [records, record, finish]
        omega
      · by_cases hlimit : (d.pending ++ [byte]).length = maxLineBytes
        · have hstep : lines.step d.pending byte = ([], [⟨d.pending ++ [byte], true⟩]) :=
            (if_neg hnewline).trans (if_pos hlimit)
          rw [if_neg hnewline, hstep, records_append]
          simp only [hlimit, if_true, finish, ih]
          simp [records, record, finish]
          omega
        · have hstep : lines.step d.pending byte = (d.pending ++ [byte], []) :=
            (if_neg hnewline).trans (if_neg hlimit)
          rw [if_neg hnewline, hstep]
          simp only [hlimit, if_false, ih]
          rfl

theorem feedAll_eq (d : LineDecoder) (cs : List (List UInt8)) :
    d.feedAll t hostTime cs =
      ({ pending := (lines.run d.pending cs.flatten).1
         seq := d.seq + (lines.run d.pending cs.flatten).2.length },
        records t hostTime d.seq (lines.run d.pending cs.flatten).2) := by
  induction cs generalizing d with
  | nil => rfl
  | cons c cs ih =>
      rw [feedAll]
      simp only [ih, feed_eq, List.flatten_cons, Machine.run_append, records_append,
        List.length_append, Nat.add_assoc]

end

/-- The record as it would be at another time. -/
def timeless (r : LogRecord) : LogRecord := { r with hostTimeMs := 0 }

theorem records_timeless (t : LogText) (hostTime hostTime' : ℕ → ℕ) (seq : ℕ)
    (ss : List (Segment UInt8)) :
    (records t hostTime seq ss).map timeless = (records t hostTime' seq ss).map timeless := by
  unfold records
  rw [List.map_map, List.map_map]
  exact List.map_congr_left fun _ _ => rfl

/-- Three reads with two lines, of which the second is empty, and one byte pending. -/
example : (lines.run [] [[0x61], [0x62, 0x0a, 0x0a], [0x63]].flatten).2.map (·.symbols) =
    [[0x61, 0x62], []] := by decide

end IdfRemote.LineDecoder
