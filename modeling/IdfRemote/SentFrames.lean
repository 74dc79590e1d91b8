import IdfRemote.ReplyMatching
import IdfRemote.TruncatedFrames

/-!
# What the host sends, frame by frame

The bytes that the driver has accepted are pieces of frames, one behind the other; only
the last one before an abort may be cut off. The requests among the pieces and in the
queue are, in this order, requests that commands have made, some of which may have been
abandoned. Writes without a session are not framed and are left out here.
-/
namespace IdfRemote
open Mux Application

/-- The requests among some frames. -/
def requestsOf (fs : List Frame) : List Frame := fs.filter fun f => f.kind = Mux.request

@[simp] theorem requestsOf_append (fs gs : List Frame) :
    requestsOf (fs ++ gs) = requestsOf fs ++ requestsOf gs := List.filter_append ..

namespace Duplex

/-- What the driver accepts in a call. -/
def portTook (d : Duplex) : Call → List UInt8
  | .tick io now => ((d.sent now io).map fun t => t.1.taken io).getD []
  | _ => []

/-- The call makes frames of what it sends. -/
def SendsFrames (d : Duplex) : Call → Prop
  | .startInput .. => d.session.isSome = true
  | _ => True

/-- A queued transfer has these frames left. One with several frames has no requests, so waiting
between two of its frames changes nothing in the order of the requests. -/
structure Carries (t : Transfer) (fs : List Frame) : Prop where
  frames : t.frames = fs.map Frame.wire
  encodable : ∀ f ∈ fs, f.Encodable
  behind : requestsOf fs.tail = []

/-- The part of the front frame that has been accepted. -/
def begun (tx : List Transfer) (queue : List (List Frame)) : List Piece :=
  match tx, queue with
  | t :: _, (f :: _) :: _ => [⟨f, t.offset⟩]
  | _, _ => []

theorem begun_frames (tx : List Transfer) (queue : List (List Frame)) :
    (begun tx queue).map Piece.frame <+: queue.flatten := by
  unfold begun
  split
  · exact ⟨_, rfl⟩
  · exact List.nil_prefix

theorem mem_begun {tx : List Transfer} {queue : List (List Frame)} {p : Piece}
    (hp : p ∈ begun tx queue) : ∃ t rest f fs others,
      tx = t :: rest ∧ queue = (f :: fs) :: others ∧ p = ⟨f, t.offset⟩ := by
  unfold begun at hp
  split at hp
  · exact ⟨_, _, _, _, _, rfl, rfl, List.mem_singleton.mp hp⟩
  · cases hp

/-- The pieces that make up what was accepted, and the frames that are still queued. -/
structure Sends (serde : Serde) (calls : List Call) (d : Duplex) (line : List UInt8)
    (done : List Piece) (queue : List (List Frame)) : Prop where
  line : line = (done ++ begun d.tx queue).flatMap Piece.bytes
  encodable : ∀ p ∈ done, p.frame.Encodable
  carries : List.Forall₂ Carries d.tx queue
  aligned : ∀ t ∈ d.tx.tail, t.offset = 0
  order : (requestsOf (done.map Piece.frame ++ queue.flatten)).Sublist (requests serde calls)
  whole : (∀ reason, .abort reason ∉ calls) → ∀ p ∈ done, p.bytes = p.frame.wire

variable {serde : Serde} {calls : List Call} {d : Duplex} {line : List UInt8}
  {done : List Piece} {queue : List (List Frame)}

theorem begun_aligned {tx : List Transfer} (h : ∀ t ∈ tx, t.offset = 0)
    (queue : List (List Frame)) : (begun tx queue).flatMap Piece.bytes = [] := by
  unfold begun
  split
  · simp [Piece.bytes, h _ List.mem_cons_self]
  · rfl

theorem Sends.encodable_all (h : Sends serde calls d line done queue) :
    ∀ p ∈ done ++ begun d.tx queue, p.frame.Encodable := by
  intro p hp
  rcases List.mem_append.mp hp with hp | hp
  · exact h.encodable p hp
  · have hqueue := h.carries
    obtain ⟨t, rest, f, fs, others, htx, rfl, rfl⟩ := mem_begun hp
    rw [htx] at hqueue
    exact (List.forall₂_cons.mp hqueue).1.encodable f List.mem_cons_self

theorem Sends.order_all (h : Sends serde calls d line done queue) :
    (requestsOf ((done ++ begun d.tx queue).map Piece.frame)).Sublist (requests serde calls) := by
  refine List.Sublist.trans ?_ h.order
  rw [List.map_append, requestsOf_append, requestsOf_append]
  exact ((begun_frames d.tx queue).sublist.filter _).append_left _

theorem requests_sublist (serde : Serde) (calls : List Call) (call : Call) :
    (requests serde calls).Sublist (requests serde (calls ++ [call])) := by
  rw [requests, requests, frames_concat, List.filter_append]
  exact List.sublist_append_left ..

theorem not_mem_of_concat {calls : List Call} {call : Call}
    (h : ∀ reason, .abort reason ∉ calls ++ [call]) : ∀ reason, .abort reason ∉ calls :=
  fun reason hmem => h reason (List.mem_append_left _ hmem)

theorem Sends.with_tx (h : Sends serde calls d line done queue) {d' : Duplex} {call : Call}
    (htx : d'.tx = d.tx) : Sends serde (calls ++ [call]) d' line done queue where
  line := htx ▸ h.line
  encodable := h.encodable
  carries := htx ▸ h.carries
  aligned := htx ▸ h.aligned
  order := h.order.trans (requests_sublist serde calls call)
  whole hcalls := h.whole (not_mem_of_concat hcalls)

theorem Sends.enqueue (h : Sends serde calls d line done queue) {d' : Duplex} {call : Call}
    {t : Transfer} {fs : List Frame} (htx : d'.tx = d.tx ++ [t]) (ht : t.offset = 0)
    (hcarries : Carries t fs)
    (hnew : ((requests serde calls) ++ requestsOf fs).Sublist (requests serde (calls ++ [call]))) :
    Sends serde (calls ++ [call]) d' line done (queue ++ [fs]) where
  line := by
    rw [h.line, htx]
    have hqueue := h.carries
    cases hd : d.tx with
    | nil =>
        rw [hd] at hqueue
        rw [List.forall₂_nil_left_iff.mp hqueue, List.nil_append, List.nil_append]
        have halone := @begun_aligned [t] (by simpa using ht) [fs]
        rw [List.flatMap_append, List.flatMap_append, halone]
        rfl
    | cons front rest =>
        rw [hd] at hqueue
        obtain ⟨gs, others, -, -, rfl⟩ := List.forall₂_cons_left_iff.mp hqueue
        cases gs <;> rfl
  encodable := h.encodable
  carries := htx ▸ List.rel_append h.carries (.cons hcarries .nil)
  aligned := by
    intro u hu
    rw [htx] at hu
    cases hd : d.tx with
    | nil =>
        rw [hd] at hu
        cases hu
    | cons front rest =>
        rw [hd, List.cons_append, List.tail_cons] at hu
        rcases List.mem_append.mp hu with hu | hu
        · exact h.aligned u (by rwa [hd])
        · rw [List.mem_singleton.mp hu]
          exact ht
  order := by
    rw [List.flatten_append, ← List.append_assoc, requestsOf_append]
    refine List.Sublist.trans (h.order.append ?_) hnew
    simp
  whole hcalls := h.whole (not_mem_of_concat hcalls)

theorem requestsOf_flatten_requeue {u : Transfer} {fs : List Frame} {others : List (List Frame)}
    (hempty : u.frames.isEmpty = true → fs = []) (haligned : u.offset = 0)
    (hquiet : requestsOf fs = []) :
    requestsOf (requeue u fs others).flatten = requestsOf (fs ++ others.flatten) := by
  unfold requeue
  split_ifs with hnone
  · rw [hempty hnone, List.nil_append]
  · rw [List.flatten_append, requestsOf_append, requestsOf_append, hquiet]
    simp [hquiet]

theorem Sends.write (h : Sends serde calls d line done queue) {front : Transfer}
    {rest : List Transfer} {frame taken : List UInt8} {frames : List (List UInt8)}
    (htx : d.tx = front :: rest) (hframes : front.frames = frame :: frames) (htaken : taken ≠ [])
    (hpart : taken <+: frame.drop front.offset) {d' : Duplex} {call : Call}
    (hd' : d'.tx = requeue (front.accept taken.length) (front.accept taken.length) rest) :
    ∃ done' queue', Sends serde (calls ++ [call]) d' (line ++ taken) done' queue' := by
  have hcarries := h.carries
  have haligned := h.aligned
  have hline := h.line
  rw [htx] at hcarries haligned hline
  obtain ⟨fs, others, hfront, hothers, rfl⟩ := List.forall₂_cons_left_iff.mp hcarries
  obtain ⟨f, fs, rfl⟩ : ∃ f fs', fs = f :: fs' := by
    cases fs with
    | nil => cases hframes.symm.trans hfront.frames
    | cons f fs => exact ⟨f, fs, rfl⟩
  obtain ⟨rfl, hfs⟩ := List.cons.inj (hframes.symm.trans hfront.frames)
  have hgrow := SendLog.Follows.take_append_sent hpart
  have hsent : line ++ taken =
      (done ++ ([⟨f, front.offset + taken.length⟩] : List Piece)).flatMap Piece.bytes := by
    rw [hline]
    simp [begun, Piece.bytes, hgrow]
  have horder := h.order.trans (requests_sublist serde calls call)
  let w : SendLog.Write UInt8 := ⟨0, 0, f.wire, front.offset, taken, 0, []⟩
  cases hc : w.complete with
  | true =>
      have haccept := Line.accept_complete (w := w) hframes rfl hc
      have hend : front.offset + taken.length = f.wire.length := by
        simpa [SendLog.Write.complete, w] using hc
      have hempty : (front.accept taken.length).frames.isEmpty = true → fs = [] := by
        rw [show front.accept taken.length = _ from haccept, hfs]
        simp
      have hzero : (front.accept taken.length).offset = 0 := by
        rw [show front.accept taken.length = _ from haccept]
      have hquiet : requestsOf fs = [] := hfront.behind
      have hall : ∀ t ∈ d'.tx, t.offset = 0 := by
        rw [hd']
        unfold requeue
        split_ifs
        · exact haligned
        · intro t ht
          rcases List.mem_append.mp ht with ht | ht
          · exact haligned t ht
          · rw [List.mem_singleton.mp ht]
            exact hzero
      refine ⟨done ++ [⟨f, f.wire.length⟩], requeue (front.accept taken.length) fs others,
        ?_, ?_, ?_, fun t ht => hall t (List.mem_of_mem_tail ht), ?_, ?_⟩
      · rw [hsent, hend]
        simp only [List.flatMap_append, begun_aligned hall, List.append_nil]
      · refine List.forall_mem_append.mpr ⟨h.encodable, ?_⟩
        simpa using hfront.encodable f List.mem_cons_self
      · rw [hd']
        refine Line.requeue_forall₂ ⟨?_, ?_, ?_⟩ hothers
        · rw [show front.accept taken.length = _ from haccept]
          exact hfs
        · exact fun g hg => hfront.encodable g (List.mem_cons_of_mem f hg)
        · exact List.eq_nil_of_sublist_nil (hquiet ▸ (List.tail_sublist fs).filter _)
      · rw [requestsOf_append, requestsOf_flatten_requeue hempty hzero hquiet,
          ← requestsOf_append]
        simpa using horder
      · intro hcalls p hp
        rcases List.mem_append.mp hp with hp | hp
        · exact h.whole (not_mem_of_concat hcalls) p hp
        · rw [List.mem_singleton.mp hp, Piece.bytes, List.take_length]
  | false =>
      obtain ⟨haccept, hne⟩ := Line.accept_incomplete (w := w) hframes rfl htaken hc
      have htx' : d'.tx = { front with offset := front.offset + taken.length } :: rest := by
        rw [hd', show front.accept taken.length = _ from haccept, requeue,
          if_neg (by simp [hframes]), if_neg hne]
      refine ⟨done, (f :: fs) :: others, ?_, h.encodable, ?_, ?_, horder,
        fun hcalls => h.whole (not_mem_of_concat hcalls)⟩
      · rw [hsent, htx']
        rfl
      · rw [htx']
        exact .cons ⟨hfront.frames, hfront.encodable, hfront.behind⟩ hothers
      · rw [htx']
        exact haligned

theorem Sends.tick (h : Sends serde calls d line done queue) (io : Driver) (now : Clock) :
    ∃ done' queue', Sends serde (calls ++ [.tick io now]) (d.tick now io).1
      (line ++ d.portTook (.tick io now)) done' queue' := by
  rcases tick_cases d now io with
      ⟨hsent, e, htick⟩ | ⟨hsent, t, htick⟩ | ⟨front, front', rest, t, hsent, htx, hsend, htick⟩
  · rw [portTook, hsent, htick]
    exact ⟨done, queue, by simpa using h.with_tx rfl⟩
  · rw [portTook, hsent, htick]
    exact ⟨done, queue, by simpa using h.with_tx (expire_tx d t)⟩
  · rw [portTook, hsent, htick, Option.map_some, Option.getD_some]
    have hd := expire_tx { d with tx := requeue front' front' rest } t
    rcases Transfer.send_cases hsend with
        ⟨hempty, rfl⟩ | ⟨frame, frames, hframes, hbytes, hpart, rfl⟩
    · -- A transfer without frames leaves, and nothing is written.
      have htaken : front'.taken io = [] := by simp [Transfer.taken, hempty]
      have hrest : requeue front' front' rest = rest := by simp [requeue, hempty]
      have hcarries := h.carries
      have haligned := h.aligned
      have hline := h.line
      rw [htx] at hcarries haligned hline
      obtain ⟨fs, others, hfront, hothers, rfl⟩ := List.forall₂_cons_left_iff.mp hcarries
      obtain rfl : fs = [] := List.map_eq_nil_iff.mp (hfront.frames.symm.trans hempty)
      rw [hrest] at hd ⊢
      rw [htaken, List.append_nil]
      refine ⟨done, others, ?_, h.encodable, hd ▸ hothers, ?_, ?_,
        fun hcalls => h.whole (not_mem_of_concat hcalls)⟩
      · rw [hline, hd, List.flatMap_append, List.flatMap_append]
        exact congrArg _ (@begun_aligned rest haligned others).symm
      · rw [hd]
        exact fun u hu => haligned u (List.mem_of_mem_tail hu)
      · exact h.order.trans (requests_sublist serde calls _)
    · exact h.write htx hframes hbytes hpart hd

/-- After an abort nothing is queued, and the rest of the front frame is not sent. What has not
reached the other end by then may be lost. -/
theorem Sends.abort (h : Sends serde calls d line done queue) (reason : String) (n : ℕ) :
    ∃ done', Sends serde (calls ++ [.abort reason]) (d.abort reason).1 (line.take n) done' [] := by
  have hcut : ∀ (pieces : List Piece) (n : ℕ), ∃ pieces' : List Piece,
      (pieces.flatMap Piece.bytes).take n = pieces'.flatMap Piece.bytes ∧
      pieces'.map Piece.frame <+: pieces.map Piece.frame := by
    intro pieces
    induction pieces with
    | nil => exact fun n => ⟨[], by simp, List.prefix_rfl⟩
    | cons p pieces ih =>
        intro n
        obtain ⟨pieces', hbytes, hframes⟩ := ih (n - p.bytes.length)
        refine ⟨⟨p.frame, min n p.count⟩ :: pieces', ?_, ?_⟩
        · rw [List.flatMap_cons, List.take_append, hbytes, List.flatMap_cons, Piece.bytes,
            Piece.bytes, List.take_take]
        · exact List.cons_prefix_cons.mpr ⟨rfl, hframes⟩
  obtain ⟨done', hbytes, hframes⟩ := hcut (done ++ begun d.tx queue) n
  refine ⟨done', ?_, ?_, .nil, ?_, ?_, ?_⟩
  · rw [h.line, hbytes]
    simp [begun, Duplex.abort]
  · intro p hp
    obtain ⟨q, hq, hsame⟩ := List.mem_map.mp (hframes.subset (List.mem_map_of_mem hp))
    rw [← hsame]
    exact h.encodable_all q hq
  · exact fun t ht => by cases ht
  · rw [List.flatten_nil, List.append_nil]
    exact ((hframes.sublist.filter _).trans h.order_all).trans
      (requests_sublist serde calls (.abort reason))
  · exact fun hcalls => absurd (List.mem_append_right calls List.mem_cons_self) (hcalls reason)

theorem carries_request {frame : Frame} {bytes : List UInt8} (h : frame.encode = .ok bytes)
    {t : Transfer} (ht : t.frames = [bytes]) : Carries t [frame] := by
  obtain ⟨hencodable, rfl⟩ := Frame.encode_eq_ok.mp h
  exact ⟨ht, by simpa using hencodable, rfl⟩

theorem carries_input {session : Session} {data : List UInt8} {frames : List (List UInt8)}
    (h : session.prepareConsole data = .ok frames) {t : Transfer} (ht : t.frames = frames) :
    ∃ fs, Carries t fs ∧ requestsOf fs = [] := by
  unfold Session.prepareConsole at h
  cases hvalid : session.valid with
  | false =>
      rw [hvalid] at h
      cases h
  | true =>
      rw [hvalid] at h
      have hencode := mapM_ok h
      generalize chunks 256 data = payloads at hencode
      let consoleFrame : List UInt8 → Frame := fun chunk =>
        { kind := console, session := session.nonce, request := 0, payload := chunk }
      have hquiet : requestsOf (payloads.map consoleFrame) = [] := by
        have hne : console ≠ Mux.request := by decide
        simp [requestsOf, List.filter_map, Function.comp_def, consoleFrame, hne]
      refine ⟨payloads.map consoleFrame, ⟨?_, ?_, ?_⟩, hquiet⟩
      · rw [ht, List.map_map]
        clear ht hquiet h
        induction hencode with
        | nil => rfl
        | cons hfirst _ ih => rw [List.map_cons, ← ih, (Frame.encode_eq_ok.mp hfirst).2]; rfl
      · clear ht hquiet h
        induction hencode with
        | nil => exact fun f hf => by cases hf
        | cons hfirst _ ih =>
            exact List.forall_mem_cons.mpr ⟨(Frame.encode_eq_ok.mp hfirst).1, ih⟩
      · exact List.eq_nil_of_sublist_nil (hquiet ▸ (List.tail_sublist _).filter _)

/-- What one call adds to the line. -/
theorem Sends.call (h : Sends serde calls d line done queue) (hd : d = runCalls serde calls)
    {call : Call} (hframed : d.SendsFrames call) (habort : ∀ reason, call ≠ .abort reason) :
    ∃ done' queue', Sends serde (calls ++ [call]) (d.after serde call) (line ++ d.portTook call)
      done' queue' := by
  cases call with
  | startApplication key command timeout nonce now =>
      change ∃ done' queue', Sends serde _ _ (line ++ []) done' queue'
      rw [List.append_nil]
      rcases startApplication_cases serde d key command timeout now nonce with
          ⟨e, -, -, htx⟩ | ⟨hp, -, frame, kind, bytes, hprepare, hencode, hstate⟩
      · exact ⟨done, queue, h.with_tx htx⟩
      · refine ⟨done, _, h.enqueue (congrArg Duplex.tx hstate) rfl
          (carries_request hencode rfl) ?_⟩
        have hmade : (runCalls serde calls).made serde
            (.startApplication key command timeout nonce now) = [frame] := by
          rw [← hd, made, if_neg (by simp [hp]), hprepare]
        rw [requests, requests, frames_concat, hmade, List.filter_append]
        exact List.Sublist.refl _
  | startInput key data timeout result now =>
      change ∃ done' queue', Sends serde _ _ (line ++ []) done' queue'
      rw [List.append_nil]
      rcases startInput_cases d key data timeout result now with
          ⟨e, -, hstate⟩ | ⟨-, -, frames, hframes, hstate⟩
      · exact ⟨done, queue, h.with_tx (congrArg Duplex.tx hstate)⟩
      · obtain ⟨session, hsession⟩ := Option.isSome_iff_exists.mp hframed
        rw [inputFrames, hsession] at hframes
        let t : Transfer :=
          { key := key, lane := .input, deadline := now 0 + timeout, frames := frames
            result := result }
        obtain ⟨fs, hcarries, hquiet⟩ := carries_input hframes (t := t) rfl
        refine ⟨done, _, h.enqueue (t := t) (congrArg Duplex.tx hstate) rfl hcarries ?_⟩
        rw [hquiet, List.append_nil]
        exact requests_sublist serde calls _
  | tick io now => exact h.tick io now
  | feed bytes now =>
      change ∃ done' queue', Sends serde _ _ (line ++ []) done' queue'
      rw [List.append_nil]
      exact ⟨done, queue, h.with_tx (feed_tx serde d bytes now)⟩
  | abort reason => exact absurd rfl (habort reason)

theorem sends_default (serde : Serde) : Sends serde [] {} [] [] [] where
  line := rfl
  encodable _ hp := by cases hp
  carries := .nil
  aligned _ ht := by cases ht
  order := List.nil_sublist _
  whole _ _ hp := by cases hp

end Duplex
end IdfRemote
