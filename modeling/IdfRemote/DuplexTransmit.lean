import IdfRemote.DuplexCompletion
import IdfRemote.SendLog

/-!
# What reaches the wire

`Line` is a scheduler with a record of what its driver has accepted. Transfers
are numbered in the order in which they start, `queue` has the numbers of the
queued ones, and each accepted write is logged under the number of its transfer.
The record only observes: the scheduler in it takes the steps of `after`.
-/
namespace IdfRemote
open Mux Application SendLog

namespace Transfer

/-- A transfer that is not stuck has taken at least one byte of its front frame, or has none. -/
theorem send_cases {t u : Transfer} {io : Driver} (h : t.send io = .ok (some u)) :
    (t.frames = [] ∧ u = t) ∨
    ∃ frame frames, t.frames = frame :: frames ∧ t.taken io ≠ [] ∧
      t.taken io <+: frame.drop t.offset ∧ u = t.accept (t.taken io).length := by
  unfold send at h
  cases hframes : t.frames with
  | nil =>
      rw [hframes] at h
      cases h
      exact .inl ⟨rfl, rfl⟩
  | cons frame frames =>
      rw [hframes, if_neg (by simp)] at h
      refine .inr ⟨frame, frames, rfl, ?_⟩
      cases hwrite : io.write t.slice with
      | error e =>
          rw [hwrite] at h
          dsimp only at h
          split_ifs at h
          cases h
      | ok n =>
          have hle := io.write_le hwrite
          have htaken : t.taken io = t.slice.take n := by simp [taken, hframes, hwrite]
          have hlen : (t.slice.take n).length = n := List.length_take_of_le hle
          have hslice : t.slice = (frame.drop t.offset).take 256 := by simp [slice, hframes]
          rw [hwrite] at h
          cases n with
          | zero => cases h
          | succ n =>
              cases h
              rw [htaken]
              refine ⟨List.ne_nil_of_length_pos (by omega), ?_, by rw [hlen]⟩
              rw [hslice]
              exact (List.take_prefix _ _).trans (List.take_prefix _ _)

end Transfer

/-- What a successful start put into the queue. -/
structure Origin where
  transfer : Transfer
  data : List UInt8
  nonce : Option UInt64

structure Line where
  duplex : Duplex := {}
  origins : List Origin := []
  queue : List ℕ := []
  /-- The writes before the last abort. -/
  past : List (Write UInt8) := []
  /-- The writes since the last abort. -/
  writes : List (Write UInt8) := []

namespace Line

/-- The numbers of the transfers that still have frames to send, in queue order. -/
def senders (queue : List ℕ) (tx : List Transfer) : List ℕ :=
  ((queue.zip tx).filter fun p => !p.2.frames.isEmpty).map Prod.fst

def log (l : Line) (q : ℕ) (qs : List ℕ) (front : Transfer) (io : Driver) :
    List (Write UInt8) :=
  if front.frames.isEmpty then []
  else [
    { serial := q
      index := (l.origins[q]?.elim 0 fun o => o.transfer.frames.length) - front.frames.length
      frame := front.frames.headD []
      offset := front.offset
      bytes := front.taken io
      behind := front.frames.length - 1
      waiting := senders qs l.duplex.tx.tail }]

/-- A transfer joins the queue if the start has succeeded. -/
def join (serde : Serde) (l : Line) (call : Call) (data : List UInt8) : Line :=
  let d := l.duplex.after serde call
  match l.duplex.started serde call, d.tx.getLast? with
  | _ :: _, some t =>
      { l with
        duplex := d
        origins := l.origins ++ [
          { transfer := t, data := data, nonce := l.duplex.session.map (·.nonce) }]
        queue := l.queue ++ [l.origins.length] }
  | _, _ => { l with duplex := d }

def step (serde : Serde) (l : Line) (call : Call) : Line :=
  match call with
  | .startApplication .. => l.join serde call []
  | .startInput _ data .. => l.join serde call data
  | .tick io now =>
      match l.duplex.sent now io, l.queue with
      | some (front, front'), q :: qs =>
          { l with
            duplex := l.duplex.after serde call
            queue := Duplex.requeue front' q qs
            writes := l.writes ++ l.log q qs front io }
      | _, _ => { l with duplex := l.duplex.after serde call }
  | .feed .. => { l with duplex := l.duplex.after serde call }
  | .abort .. =>
      { l with
        duplex := l.duplex.after serde call, queue := [], past := l.past ++ l.writes, writes := [] }

def run (serde : Serde) (calls : List Call) : Line := calls.foldl (step serde) {}

def all (l : Line) : List (Write UInt8) := l.past ++ l.writes

/-- The writes of one transfer. -/
def trace (l : Line) (q : ℕ) : List (Write UInt8) := l.all.filter (·.serial = q)

/-- The part of the front frame that has been accepted. -/
def partialFrame (tx : List Transfer) : List UInt8 :=
  match tx with
  | [] => []
  | front :: _ => (front.frames.headD []).take front.offset

/-- A queued transfer has the rest of the frames it started with, and its writes have sent the
others and the front frame up to its offset. -/
structure Tracks (l : Line) (q : ℕ) (t : Transfer) (o : Origin) (i : ℕ) : Prop where
  origin : l.origins[q]? = some o
  key : t.key = o.transfer.key
  lane : t.lane = o.transfer.lane
  result : t.result = o.transfer.result
  frames : t.frames = o.transfer.frames.drop i
  index_le : i ≤ o.transfer.frames.length
  follows : Follows o.transfer.frames i t.offset (l.trace q)

structure Sound (l : Line) : Prop where
  tracks : List.Forall₂ (fun q t => ∃ o i, l.Tracks q t o i) l.queue l.duplex.tx
  nodup : l.queue.Nodup
  serials : ∀ w ∈ l.all, w.serial < l.origins.length
  follows : ∀ q o, l.origins[q]? = some o → ∃ i k, Follows o.transfer.frames i k (l.trace q)
  aligned : ∀ t ∈ l.duplex.tx.tail, t.offset = 0
  wire : accepted l.writes = (wholeFrames l.writes).flatten ++ partialFrame l.duplex.tx
  turns : l.writes.IsChain Turn
  order : ∀ w ∈ l.writes.getLast?, w.order <+: senders l.queue l.duplex.tx

theorem senders_cons (q : ℕ) (qs : List ℕ) (t : Transfer) (tx : List Transfer) :
    senders (q :: qs) (t :: tx) = (if t.frames.isEmpty then [] else [q]) ++ senders qs tx := by
  cases h : t.frames.isEmpty <;> simp [senders, h]

theorem senders_concat {qs : List ℕ} {tx : List Transfer} (hlen : qs.length = tx.length) (q : ℕ)
    (t : Transfer) :
    senders (qs ++ [q]) (tx ++ [t]) =
      senders qs tx ++ (if t.frames.isEmpty then [] else [q]) := by
  cases h : t.frames.isEmpty <;> simp [senders, List.zip_append hlen, h]

theorem sound_default : Sound {} where
  tracks := .nil
  nodup := .nil
  serials := by simp [all]
  follows := by simp
  aligned := by simp
  wire := rfl
  turns := .nil
  order := by simp

theorem partialFrame_aligned {tx : List Transfer} (h : ∀ t ∈ tx, t.offset = 0) :
    partialFrame tx = [] := by
  cases tx with
  | nil => rfl
  | cons t tx => simp [partialFrame, h t List.mem_cons_self]

theorem Tracks.mono {l m : Line} {q : ℕ} {t : Transfer} {o : Origin} {i : ℕ}
    (h : l.Tracks q t o i) (horigin : m.origins[q]? = l.origins[q]?)
    (htrace : m.trace q = l.trace q) : m.Tracks q t o i :=
  { h with origin := horigin.trans h.origin, follows := htrace ▸ h.follows }

theorem Sound.with_duplex {l : Line} (h : l.Sound) {d : Duplex} (hd : d.tx = l.duplex.tx) :
    Sound { l with duplex := d } where
  tracks := by
    rw [hd]
    exact h.tracks.imp fun q t ⟨o, i, ht⟩ => ⟨o, i, ht.mono rfl rfl⟩
  nodup := h.nodup
  serials := h.serials
  follows := h.follows
  aligned := hd ▸ h.aligned
  wire := hd ▸ h.wire
  turns := h.turns
  order := hd ▸ h.order

theorem Sound.tracked {l : Line} (h : l.Sound) {q : ℕ} (hq : q ∈ l.queue) :
    q < l.origins.length := by
  obtain ⟨n, hn, rfl⟩ := List.mem_iff_getElem.mp hq
  obtain ⟨o, i, ht⟩ := h.tracks.get hn (h.tracks.length_eq ▸ hn)
  exact (List.getElem?_eq_some_iff.mp ht.origin).1

theorem Sound.trace_fresh {l : Line} (h : l.Sound) : l.trace l.origins.length = [] := by
  apply List.filter_eq_nil_iff.mpr
  intro w hw
  have := h.serials w hw
  simp only [decide_eq_true_eq]
  omega

theorem Sound.enqueue {l : Line} (h : l.Sound) {d : Duplex} {t : Transfer} (ht : t.offset = 0)
    (hd : d.tx = l.duplex.tx ++ [t]) (data : List UInt8) (nonce : Option UInt64) :
    Sound
      { l with
        duplex := d
        origins := l.origins ++ [{ transfer := t, data := data, nonce := nonce }]
        queue := l.queue ++ [l.origins.length] } := by
  have hfresh : Follows t.frames 0 t.offset (l.trace l.origins.length) := by
    rw [h.trace_fresh, ht]
    exact .nil
  constructor
  · rw [hd]
    refine List.rel_append (h.tracks.imp ?_) (.cons ⟨⟨t, data, nonce⟩, 0, ?_⟩ .nil)
    · rintro q u ⟨o, i, hu⟩
      have hlt := (List.getElem?_eq_some_iff.mp hu.origin).1
      exact ⟨o, i, hu.mono (List.getElem?_append_left hlt) rfl⟩
    · exact ⟨List.getElem?_concat_length, rfl, rfl, rfl, rfl, Nat.zero_le _, hfresh⟩
  · refine List.nodup_append.mpr ⟨h.nodup, List.nodup_singleton _, fun q hq r hr => ?_⟩
    have hlt := h.tracked hq
    rw [List.mem_singleton.mp hr]
    omega
  · intro w hw
    have hlt := h.serials w hw
    rw [List.length_append]
    omega
  · intro q o ho
    have hlt := (List.getElem?_eq_some_iff.mp ho).1
    rw [List.length_append, List.length_singleton] at hlt
    rcases Nat.lt_succ_iff_lt_or_eq.mp hlt with hq | rfl
    · rw [List.getElem?_append_left hq] at ho
      exact h.follows q o ho
    · rw [List.getElem?_concat_length] at ho
      cases ho
      exact ⟨0, 0, ht ▸ hfresh⟩
  · intro u hu
    rw [hd] at hu
    cases htx : l.duplex.tx with
    | nil => simp [htx] at hu
    | cons front rest =>
        rw [htx, List.cons_append, List.tail_cons] at hu
        rcases List.mem_append.mp hu with hu | hu
        · exact h.aligned u (by rwa [htx])
        · rwa [List.mem_singleton.mp hu]
  · have hpart : partialFrame d.tx = partialFrame l.duplex.tx := by
      rw [hd]
      cases l.duplex.tx with
      | nil => simp [partialFrame, ht]
      | cons front rest => rfl
    rw [hpart]
    exact h.wire
  · exact h.turns
  · intro w hw
    have hpre := h.order w hw
    simp only [hd, senders_concat h.tracks.length_eq]
    exact hpre.trans (List.prefix_append _ _)

theorem Sound.dequeue {l : Line} (h : l.Sound) {q : ℕ} {qs : List ℕ} {front : Transfer}
    {rest : List Transfer} (hqueue : l.queue = q :: qs) (htx : l.duplex.tx = front :: rest)
    (hempty : front.frames = []) {d : Duplex} (hd : d.tx = rest) :
    Sound { l with duplex := d, queue := qs } := by
  have htracks := h.tracks
  have hnodup := h.nodup
  have haligned := h.aligned
  have hwire := h.wire
  have horder := h.order
  rw [htx, List.tail_cons] at haligned
  rw [htx, hqueue] at htracks horder
  rw [hqueue] at hnodup
  constructor
  · rw [hd]
    exact (List.forall₂_cons.mp htracks).2.imp fun q t ⟨o, i, ht⟩ => ⟨o, i, ht.mono rfl rfl⟩
  · exact (List.nodup_cons.mp hnodup).2
  · exact h.serials
  · exact h.follows
  · rw [hd]
    exact fun t ht => haligned t (List.mem_of_mem_tail ht)
  · have hfront : partialFrame l.duplex.tx = [] := by simp [htx, partialFrame, hempty]
    rw [hfront] at hwire
    rw [hd, partialFrame_aligned haligned]
    exact hwire
  · exact h.turns
  · rw [hd]
    intro w hw
    simpa [senders_cons, hempty] using horder w hw

theorem Sound.log_eq {l : Line} {q : ℕ} {qs : List ℕ} {front : Transfer} {rest : List Transfer}
    {o : Origin} {i : ℕ} (ht : l.Tracks q front o i) (htx : l.duplex.tx = front :: rest)
    {frame : List UInt8} {frames : List (List UInt8)} (hframes : front.frames = frame :: frames)
    (io : Driver) :
    l.log q qs front io = [
      { serial := q, index := i, frame := frame, offset := front.offset, bytes := front.taken io
        behind := frames.length, waiting := senders qs rest }] := by
  have hlen : front.frames.length = o.transfer.frames.length - i := by
    rw [ht.frames, List.length_drop]
  have hi := ht.index_le
  rw [hframes, List.length_cons] at hlen
  have hindex : o.transfer.frames.length - (frames.length + 1) = i := by omega
  simp [log, hframes, ht.origin, htx, hindex]

theorem trace_concat (l : Line) (d : Duplex) (queue : List ℕ) (w : Write UInt8) (q : ℕ) :
    trace { l with duplex := d, queue := queue, writes := l.writes ++ [w] } q =
      l.trace q ++ (if w.serial = q then [w] else []) := by
  by_cases hq : w.serial = q <;> simp [trace, all, ← List.append_assoc, hq]

theorem requeue_forall₂ {α β : Type} {R : α → β → Prop} {front : Transfer} {x : α} {xs : List α}
    {y : β} {ys : List β} (hx : R x y) (hxs : List.Forall₂ R xs ys) :
    List.Forall₂ R (Duplex.requeue front x xs) (Duplex.requeue front y ys) := by
  unfold Duplex.requeue
  split_ifs
  · exact hxs
  · exact List.rel_append hxs (.cons hx .nil)
  · exact .cons hx hxs

theorem requeue_nodup {α : Type} {front : Transfer} {x : α} {xs : List α}
    (h : (x :: xs).Nodup) : (Duplex.requeue front x xs).Nodup := by
  unfold Duplex.requeue
  split_ifs
  · exact (List.nodup_cons.mp h).2
  · exact (List.perm_append_singleton x xs).nodup_iff.mpr h
  · exact h

theorem requeue_aligned {front : Transfer} {rest : List Transfer}
    (h : ∀ t ∈ rest, t.offset = 0) :
    ∀ t ∈ (Duplex.requeue front front rest).tail, t.offset = 0 := by
  intro t ht
  unfold Duplex.requeue at ht
  split_ifs at ht with _ hoffset
  · exact h t (List.mem_of_mem_tail ht)
  · rcases List.mem_append.mp (List.mem_of_mem_tail ht) with ht | ht
    · exact h t ht
    · rwa [List.mem_singleton.mp ht]
  · exact h t ht

section
variable {front : Transfer} {rest : List Transfer} {qs : List ℕ} {w : Write UInt8}
  {frames : List (List UInt8)} (hframes : front.frames = w.frame :: frames)
  (hoffset : w.offset = front.offset)
include hframes hoffset

/-- A complete write leaves the frames behind it, to be sent from their start. -/
theorem accept_complete (hc : w.complete = true) :
    front.accept w.bytes.length = { front with frames := frames, offset := 0 } := by
  have hend : front.offset + w.bytes.length = w.frame.length := by
    simpa [Write.complete, hoffset] using hc
  simp [Transfer.accept, hframes, hend]

variable (hbytes : w.bytes ≠ [])
include hbytes

theorem accept_incomplete (hc : w.complete = false) :
    front.accept w.bytes.length = { front with offset := front.offset + w.bytes.length } ∧
      front.offset + w.bytes.length ≠ 0 := by
  have hend : front.offset + w.bytes.length ≠ w.frame.length := by
    simpa [Write.complete, hoffset] using hc
  have hpos := List.length_pos_iff.mpr hbytes
  exact ⟨by simp [Transfer.accept, hframes, hend], by omega⟩

theorem senders_requeue (hlen : qs.length = rest.length) (hbehind : w.behind = frames.length)
    (hwaiting : w.waiting = senders qs rest) :
    senders (Duplex.requeue (front.accept w.bytes.length) w.serial qs)
        (Duplex.requeue (front.accept w.bytes.length) (front.accept w.bytes.length) rest) =
      w.order := by
  unfold Write.order
  cases hc : w.complete with
  | true =>
      rw [accept_complete hframes hoffset hc]
      cases frames with
      | nil => simp [Duplex.requeue, hbehind, hwaiting]
      | cons next frames =>
          simp [Duplex.requeue, hbehind, hwaiting, senders_concat hlen]
  | false =>
      obtain ⟨haccept, hne⟩ := accept_incomplete hframes hoffset hbytes hc
      simp [haccept, Duplex.requeue, hframes, hwaiting, senders_cons, hbytes]

theorem partialFrame_requeue (haligned : ∀ t ∈ rest, t.offset = 0) :
    partialFrame (Duplex.requeue (front.accept w.bytes.length) (front.accept w.bytes.length) rest) =
      if w.complete then [] else w.frame.take (front.offset + w.bytes.length) := by
  cases hc : w.complete with
  | true =>
      rw [accept_complete hframes hoffset hc]
      apply partialFrame_aligned
      unfold Duplex.requeue
      split_ifs
      · exact haligned
      · intro t ht
        rcases List.mem_append.mp ht with ht | ht
        · exact haligned t ht
        · rw [List.mem_singleton.mp ht]
      · next hne => exact absurd rfl hne
  | false =>
      obtain ⟨haccept, hne⟩ := accept_incomplete hframes hoffset hbytes hc
      rw [haccept, Duplex.requeue, if_neg (by simp [hframes]), if_neg hne]
      simp [partialFrame, hframes]

end

theorem Tracks.accept {l m : Line} {q : ℕ} {front : Transfer} {o : Origin} {w : Write UInt8}
    (h : l.Tracks q front o w.index) {frames : List (List UInt8)}
    (hframes : front.frames = w.frame :: frames) (hoffset : w.offset = front.offset)
    (hbytes : w.bytes ≠ []) (hpart : w.bytes <+: w.frame.drop front.offset)
    (horigin : m.origins[q]? = l.origins[q]?) (htrace : m.trace q = l.trace q ++ [w]) :
    m.Tracks q (front.accept w.bytes.length) o (if w.complete then w.index + 1 else w.index) := by
  have hdrop : o.transfer.frames.drop w.index = w.frame :: frames := h.frames.symm.trans hframes
  have hframe : o.transfer.frames[w.index]? = some w.frame := by
    rw [← Nat.add_zero w.index, ← List.getElem?_drop, hdrop]
    rfl
  have hlt := (List.getElem?_eq_some_iff.mp hframe).1
  have hfollows := Follows.snoc w h.follows rfl hoffset hframe hbytes hpart
  rw [← htrace] at hfollows
  cases hc : w.complete with
  | true =>
      have htail : frames = o.transfer.frames.drop (w.index + 1) := by
        rw [← List.tail_drop, hdrop, List.tail_cons]
      rw [hc] at hfollows
      rw [accept_complete hframes hoffset hc]
      exact ⟨horigin.trans h.origin, h.key, h.lane, h.result, htail, hlt, hfollows⟩
  | false =>
      rw [hc] at hfollows
      rw [(accept_incomplete hframes hoffset hbytes hc).1]
      exact ⟨horigin.trans h.origin, h.key, h.lane, h.result, h.frames, h.index_le, hfollows⟩

theorem wire_concat {ws : List (Write UInt8)} {w : Write UInt8} {front : Transfer}
    {frames : List (List UInt8)} {rest tx : List Transfer}
    (h : accepted ws = (wholeFrames ws).flatten ++ partialFrame (front :: rest))
    (hframes : front.frames = w.frame :: frames) (hoffset : w.offset = front.offset)
    (hpart : w.bytes <+: w.frame.drop front.offset)
    (htx : partialFrame tx =
      if w.complete then [] else w.frame.take (front.offset + w.bytes.length)) :
    accepted (ws ++ [w]) = (wholeFrames (ws ++ [w])).flatten ++ partialFrame tx := by
  have hgrow := Follows.take_append_sent hpart
  have hfront : partialFrame (front :: rest) = w.frame.take front.offset := by
    simp [partialFrame, hframes]
  rw [accepted_concat, wholeFrames_concat, h, hfront, List.append_assoc, ← hgrow, htx]
  cases hc : w.complete with
  | false => simp
  | true =>
      have hend : front.offset + w.bytes.length = w.frame.length := by
        simpa [Write.complete, hoffset] using hc
      rw [hend, List.take_length]
      simp

theorem turns_concat {ws : List (Write UInt8)} {w : Write UInt8} (hturns : ws.IsChain Turn)
    (horder : ∀ v ∈ ws.getLast?, v.order <+: w.serial :: w.waiting) :
    (ws ++ [w]).IsChain Turn := by
  refine List.isChain_append.mpr ⟨hturns, .singleton w, fun v hv u hu => ?_⟩
  cases hu
  exact horder v hv

theorem Sound.append {l : Line} (h : l.Sound) {qs : List ℕ} {front : Transfer}
    {rest : List Transfer} {o : Origin} {w : Write UInt8} {frames : List (List UInt8)}
    (hqueue : l.queue = w.serial :: qs) (htx : l.duplex.tx = front :: rest)
    (hfront : l.Tracks w.serial front o w.index) (hframes : front.frames = w.frame :: frames)
    (hoffset : w.offset = front.offset) (hbehind : w.behind = frames.length)
    (hwaiting : w.waiting = senders qs rest) (hbytes : w.bytes ≠ [])
    (hpart : w.bytes <+: w.frame.drop front.offset) {d : Duplex}
    (hd : d.tx = Duplex.requeue (front.accept w.bytes.length) (front.accept w.bytes.length) rest) :
    Sound
      { l with
        duplex := d
        queue := Duplex.requeue (front.accept w.bytes.length) w.serial qs
        writes := l.writes ++ [w] } := by
  have htracks := h.tracks
  have hnodup := h.nodup
  have haligned := h.aligned
  have hwire := h.wire
  have horder := h.order
  rw [htx, List.tail_cons] at haligned
  rw [htx, hqueue] at htracks horder
  rw [htx] at hwire
  rw [hqueue] at hnodup
  have hrest := (List.forall₂_cons.mp htracks).2
  have hsenders : senders (w.serial :: qs) (front :: rest) = w.serial :: w.waiting := by
    rw [senders_cons, hframes, hwaiting]
    rfl
  rw [hsenders] at horder
  have hother : List.Forall₂ (fun q t => q ∈ qs ∧ ∃ o i, l.Tracks q t o i) qs rest :=
    (List.forall₂_and_left _ _).mpr ⟨fun q hq => hq, hrest⟩
  constructor
  · rw [hd]
    refine requeue_forall₂ ⟨o, _, hfront.accept hframes hoffset hbytes hpart rfl ?_⟩
      (hother.imp ?_)
    · rw [trace_concat, if_pos rfl]
    · rintro q t ⟨hq, o', i', ht⟩
      have hne : w.serial ≠ q := fun heq => (List.nodup_cons.mp hnodup).1 (heq ▸ hq)
      exact ⟨o', i', ht.mono rfl (by rw [trace_concat, if_neg hne, List.append_nil])⟩
  · exact requeue_nodup hnodup
  · intro v hv
    rw [all, ← List.append_assoc] at hv
    rcases List.mem_append.mp hv with hv | hv
    · exact h.serials v hv
    · rw [List.mem_singleton.mp hv]
      exact (List.getElem?_eq_some_iff.mp hfront.origin).1
  · intro q o' ho'
    rw [trace_concat]
    by_cases hq : w.serial = q
    · subst hq
      obtain rfl : o = o' := Option.some.inj (hfront.origin.symm.trans ho')
      have hmoved := hfront.accept (m := { l with writes := l.writes ++ [w] }) hframes hoffset
        hbytes hpart rfl (by rw [trace_concat, if_pos rfl])
      rw [if_pos rfl]
      exact ⟨_, _, by simpa [trace_concat] using hmoved.follows⟩
    · rw [if_neg hq, List.append_nil]
      exact h.follows q o' ho'
  · rw [hd]
    exact requeue_aligned haligned
  · exact wire_concat hwire hframes hoffset hpart
      (hd ▸ partialFrame_requeue hframes hoffset hbytes haligned)
  · exact turns_concat h.turns horder
  · intro v hv
    rw [List.getLast?_concat] at hv
    cases hv
    simp only [hd, senders_requeue hframes hoffset hbytes hrest.length_eq hbehind hwaiting]
    exact List.prefix_rfl

theorem sound_join {l : Line} (h : l.Sound) {serde : Serde} {call : Call} {data : List UInt8}
    (hcall : (l.duplex.started serde call = [] ∧
        (l.duplex.after serde call).tx = l.duplex.tx) ∨
      ∃ key t, l.duplex.started serde call = [key] ∧ t.offset = 0 ∧
        (l.duplex.after serde call).tx = l.duplex.tx ++ [t]) : (l.join serde call data).Sound := by
  rcases hcall with ⟨hstarted, htx⟩ | ⟨key, t, hstarted, hoffset, htx⟩
  · simp only [join, hstarted]
    exact h.with_duplex htx
  · simp only [join, hstarted, htx, List.getLast?_concat]
    exact h.enqueue hoffset htx _ _

theorem sound_tick {l : Line} (h : l.Sound) (serde : Serde) (io : Driver) (now : Clock) :
    (l.step serde (.tick io now)).Sound := by
  rcases Duplex.tick_cases l.duplex now io with
      ⟨hsent, e, htick⟩ | ⟨hsent, t, htick⟩ | ⟨front, front', rest, t, hsent, htx, hsend, htick⟩
  · simp only [step, hsent, Duplex.after, htick]
    exact h.with_duplex rfl
  · simp only [step, hsent, Duplex.after, htick]
    exact h.with_duplex (Duplex.expire_tx _ _)
  · have htracks := h.tracks
    rw [htx] at htracks
    obtain ⟨q, qs, ⟨o, i, hfront⟩, hrest, hqueue⟩ := List.forall₂_cons_right_iff.mp htracks
    have hd := Duplex.expire_tx
      { l.duplex with tx := Duplex.requeue front' front' rest } t
    simp only [step, hsent, hqueue, Duplex.after, htick]
    rcases Transfer.send_cases hsend with
        ⟨hempty, rfl⟩ | ⟨frame, frames, hframes, hbytes, hpart, rfl⟩
    · have hlog : l.log q qs front' io = [] := by simp [log, hempty]
      have hqs : Duplex.requeue front' q qs = qs := by simp [Duplex.requeue, hempty]
      have hrest : Duplex.requeue front' front' rest = rest := by simp [Duplex.requeue, hempty]
      rw [hlog, List.append_nil, hqs]
      exact h.dequeue hqueue htx hempty (hd.trans hrest)
    · rw [Sound.log_eq hfront htx hframes]
      exact h.append
        (w := ⟨q, i, frame, front.offset, front.taken io, frames.length, senders qs rest⟩)
        hqueue htx hfront hframes rfl rfl rfl hbytes hpart hd

theorem sound_abort {l : Line} (h : l.Sound) (serde : Serde) (reason : String) :
    (l.step serde (.abort reason)).Sound := by
  have hall : (l.step serde (.abort reason)).all = l.all := List.append_nil _
  have htrace : ∀ q, (l.step serde (.abort reason)).trace q = l.trace q := by
    intro q
    rw [trace, hall, trace]
  constructor
  · exact .nil
  · exact .nil
  · rw [hall]
    exact h.serials
  · intro q o ho
    rw [htrace]
    exact h.follows q o ho
  · exact fun t ht => absurd ht List.not_mem_nil
  · rfl
  · exact .nil
  · exact fun w hw => by cases hw

theorem sound_step {l : Line} (h : l.Sound) (serde : Serde) (call : Call) :
    (l.step serde call).Sound := by
  cases call with
  | startApplication key command timeout nonce now =>
      apply sound_join h
      rcases Duplex.startApplication_cases serde l.duplex key command timeout now nonce with
          ⟨e, herr, -, htx⟩ | ⟨-, hok, frame, kind, bytes, -, -, hstate⟩
      · exact .inl ⟨by simp [Duplex.started, herr], htx⟩
      · exact .inr ⟨(key, .application), _, by simp [Duplex.started, hok], rfl,
          congrArg Duplex.tx hstate⟩
  | startInput key data timeout result now =>
      apply sound_join h
      rcases Duplex.startInput_cases l.duplex key data timeout result now with
          ⟨e, herr, hstate⟩ | ⟨-, hok, frames, -, hstate⟩
      · exact .inl ⟨by simp [Duplex.started, herr], congrArg Duplex.tx hstate⟩
      · exact .inr ⟨(key, .input), _, by simp [Duplex.started, hok], rfl,
          congrArg Duplex.tx hstate⟩
  | tick io now => exact sound_tick h serde io now
  | feed bytes now => exact h.with_duplex (Duplex.feed_tx serde l.duplex bytes now)
  | abort reason => exact sound_abort h serde reason

theorem sound_run (serde : Serde) (calls : List Call) : (run serde calls).Sound := by
  induction calls using List.reverseRecOn with
  | nil => exact sound_default
  | append_singleton calls call ih =>
      rw [run, List.foldl_concat]
      exact sound_step ih serde call

end Line
end IdfRemote
