import IdfRemote.DuplexTransmit

/-!
# Integrity of the transmitted stream

Between aborts the driver has accepted whole frames and at most a part of the
front one. Every transfer sends its frames in order, once, and a write succeeds
only when all of its bytes have been accepted. The transfers with frames left
take turns frame by frame. That is not quite an alternation of the two lanes: a
reply that comes before its request has been sent leaves two requests queued.
-/
namespace IdfRemote
open Mux Application SendLog

/-- The frames carry what was submitted: console payloads in a session, raw pieces without. -/
def Origin.Carries (o : Origin) : Prop :=
  match o.nonce with
  | none => o.transfer.frames.flatten = o.data
  | some nonce =>
      ∃ payloads : List (List UInt8), payloads.flatten = o.data ∧
        List.Forall₂ (fun payload frame =>
          Frame.encode { kind := console, session := nonce, request := 0, payload := payload } =
            .ok frame) payloads o.transfer.frames

theorem chunks_flatten {α : Type} {n : ℕ} (hn : 0 < n) (xs : List α) :
    (chunks n xs).flatten = xs := by
  have hprefix : ∀ k, ((List.range k).map fun i => (xs.drop (n * i)).take n).flatten =
      xs.take (n * k) := by
    intro k
    induction k with
    | zero => simp
    | succ k ih =>
        rw [List.range_succ, List.map_append, List.flatten_append, ih, Nat.mul_succ,
          List.take_add]
        simp
  rw [chunks, hprefix, List.take_of_length_le]
  have hceil := Nat.div_add_mod (xs.length + n - 1) n
  have hrest := Nat.mod_lt (xs.length + n - 1) hn
  omega

theorem mapM_ok {α β : Type} {f : α → Result β} {xs : List α} {ys : List β}
    (h : xs.mapM f = .ok ys) : List.Forall₂ (fun x y => f x = .ok y) xs ys := by
  induction xs generalizing ys with
  | nil =>
      cases h
      exact .nil
  | cons x xs ih =>
      rw [List.mapM_cons] at h
      cases hx : f x with
      | error e => simp [hx, bind, Except.bind] at h
      | ok y =>
          cases hxs : xs.mapM f with
          | error e => simp [hx, hxs, bind, Except.bind] at h
          | ok zs =>
              simp only [hx, hxs, bind, Except.bind, pure, Except.pure, Except.ok.injEq] at h
              subst h
              exact .cons hx (ih hxs)

theorem Duplex.inputFrames_carries {d : Duplex} {data : List UInt8}
    {frames : List (List UInt8)} (h : d.inputFrames data = .ok frames) {t : Transfer}
    (ht : t.frames = frames) :
    Origin.Carries { transfer := t, data := data, nonce := d.session.map (·.nonce) } := by
  unfold inputFrames at h
  unfold Origin.Carries
  cases hs : d.session with
  | none =>
      rw [hs] at h
      cases h
      exact ht ▸ chunks_flatten (by omega) data
  | some session =>
      rw [hs] at h
      simp only [Session.prepareConsole, ensure] at h
      cases hvalid : session.valid with
      | false => simp [hvalid, bind, Except.bind] at h
      | true =>
          rw [hvalid] at h
          refine ⟨chunks 256 data, chunks_flatten (by omega) data, ?_⟩
          rw [ht]
          exact mapM_ok h

namespace Line

theorem join_origins {serde : Serde} {l : Line} {call : Call} {data : List UInt8} {o : Origin}
    (ho : o ∈ (l.join serde call data).origins) :
    o ∈ l.origins ∨ ∃ key t, l.duplex.started serde call = [key] ∧
      (l.duplex.after serde call).tx.getLast? = some t ∧
      o = { transfer := t, data := data, nonce := l.duplex.session.map (·.nonce) } := by
  unfold join at ho
  dsimp only at ho
  split at ho
  · next key keys t hstarted hlast =>
    rcases List.mem_append.mp ho with ho | ho
    · exact .inl ho
    · have hkeys : keys = [] := by
        have hlen := (Duplex.started_sublist serde l.duplex call).length_le
        rw [hstarted] at hlen
        cases keys with
        | nil => rfl
        | cons k keys => cases hc : call.startKey <;> simp [hc] at hlen
      exact .inr ⟨key, t, by rw [hstarted, hkeys], hlast, List.mem_singleton.mp ho⟩
  · exact .inl ho

/-- Every write that has started carries what was submitted. -/
theorem carries_step {l : Line} {serde : Serde} {call : Call}
    (h : ∀ o ∈ l.origins, o.transfer.lane = .input → o.Carries) :
    ∀ o ∈ (l.step serde call).origins, o.transfer.lane = .input → o.Carries := by
  intro o ho hlane
  cases call with
  | startApplication key command timeout nonce now =>
      rcases join_origins ho with ho | ⟨key', t, hstarted, hlast, rfl⟩
      · exact h o ho hlane
      · rcases Duplex.startApplication_cases serde l.duplex key command timeout now nonce with
            ⟨e, herr, -, -⟩ | ⟨-, -, frame, kind, bytes, -, -, hstate⟩
        · simp [Duplex.started, herr] at hstarted
        · have htx := congrArg Duplex.tx hstate
          rw [Duplex.after, htx, List.getLast?_concat] at hlast
          cases hlast
          cases hlane
  | startInput key data timeout result now =>
      rcases join_origins ho with ho | ⟨key', t, hstarted, hlast, rfl⟩
      · exact h o ho hlane
      · rcases Duplex.startInput_cases l.duplex key data timeout result now with
            ⟨e, herr, -⟩ | ⟨-, -, frames, hframes, hstate⟩
        · simp [Duplex.started, herr] at hstarted
        · have htx := congrArg Duplex.tx hstate
          rw [Duplex.after, htx, List.getLast?_concat] at hlast
          cases hlast
          exact Duplex.inputFrames_carries hframes rfl
  | tick io now =>
      refine h o ?_ hlane
      simp only [step] at ho
      split at ho <;> exact ho
  | feed bytes now => exact h o ho hlane
  | abort reason => exact h o ho hlane

theorem carries_run (serde : Serde) (calls : List Call) :
    ∀ o ∈ (run serde calls).origins, o.transfer.lane = .input → o.Carries := by
  induction calls using List.reverseRecOn with
  | nil => exact fun o ho => absurd ho List.not_mem_nil
  | append_singleton calls call ih =>
      rw [run, List.foldl_concat]
      exact carries_step ih

theorem expire_lane (d : Duplex) (now : ℕ) : ∀ c ∈ (d.expire now).2, c.lane = .application := by
  intro c hc
  unfold Duplex.expire at hc
  split at hc
  · cases hc
  · split at hc
    · rw [List.mem_singleton.mp hc]
    · cases hc

theorem feed_lane {serde : Serde} {d : Duplex} {bytes : List UInt8} {now : Clock}
    {done : List Completion} (h : (d.feed serde bytes now).2.2 = .ok done) :
    ∀ c ∈ done, c.lane = .application := by
  unfold Duplex.feed at h
  split at h
  · cases h
    exact expire_lane _ _
  · split at h
    · cases h
    · cases h
      exact expire_lane _ _
    · split at h
      · cases h
        exact fun c hc => absurd hc List.not_mem_nil
      · cases h
        intro c hc
        rcases List.mem_cons.mp hc with rfl | hc
        · rfl
        · exact expire_lane _ _ c hc

/-- A write that succeeds is the transfer whose last frame has just been accepted. -/
theorem input_completion {serde : Serde} {d : Duplex} {call : Call} {c : Completion}
    {value : Value} (hc : c ∈ d.completions serde call) (hlane : c.lane = .input)
    (hok : c.result = .ok value) :
    ∃ io now front front', call = .tick io now ∧ d.sent now io = some (front, front') ∧
      front'.frames = [] ∧ front'.lane = .input ∧ front'.key = c.key ∧ front'.result = value := by
  cases call with
  | startApplication key command timeout nonce now => cases hc
  | startInput key data timeout result now => cases hc
  | feed bytes now =>
      simp only [Duplex.completions] at hc
      split at hc
      · next done hdone => cases hlane.symm.trans (feed_lane hdone c hc)
      · cases hc
  | abort reason =>
      simp only [Duplex.completions, Duplex.abort, List.mem_append, List.mem_map] at hc
      rcases hc with ⟨p, -, rfl⟩ | ⟨t, -, rfl⟩ <;> cases hok
  | tick io now =>
      simp only [Duplex.completions] at hc
      rcases Duplex.tick_cases d now io with
          ⟨-, e, htick⟩ | ⟨-, t, htick⟩ | ⟨front, front', rest, t, hsent, -, -, htick⟩
      · rw [htick] at hc
        cases hc
      · rw [htick] at hc
        cases hlane.symm.trans (expire_lane _ _ c hc)
      · rw [htick] at hc
        rcases List.mem_append.mp hc with hc | hc
        · unfold Duplex.retire at hc
          split_ifs at hc with hdone
          · rw [List.mem_singleton.mp hc] at hok ⊢
            cases hok
            exact ⟨io, now, front, front', rfl, hsent, List.isEmpty_iff.mp hdone.1, hdone.2, rfl,
              rfl⟩
          · cases hc
        · cases hlane.symm.trans (expire_lane _ _ c hc)

theorem Tracks.accepted_all {l : Line} {q : ℕ} {t : Transfer} {o : Origin} {i : ℕ}
    (h : l.Tracks q t o i) (hempty : t.frames = []) :
    accepted (l.trace q) = o.transfer.frames.flatten := by
  have hdrop := h.frames.symm.trans hempty
  have hlen : o.transfer.frames.length ≤ i := List.drop_eq_nil_iff.mp hdrop
  rw [h.follows.accepted_eq, List.take_of_length_le hlen, List.getElem?_eq_none hlen]
  simp

/-- The front transfer just after a write is still the one its number says. -/
theorem tracks_sent {l : Line} (h : l.Sound) (serde : Serde) {io : Driver} {now : Clock}
    {front front' : Transfer} (hsent : l.duplex.sent now io = some (front, front')) :
    ∃ q o i, (l.step serde (.tick io now)).Tracks q front' o i := by
  rcases Duplex.tick_cases l.duplex now io with
      ⟨hsent', -⟩ | ⟨hsent', -⟩ | ⟨f, f', rest, t, hsent', htx, hsend, -⟩
  · rw [hsent] at hsent'
    cases hsent'
  · rw [hsent] at hsent'
    cases hsent'
  · rw [hsent] at hsent'
    cases hsent'
    have htracks := h.tracks
    rw [htx] at htracks
    obtain ⟨q, qs, ⟨o, i, hfront⟩, -, hqueue⟩ := List.forall₂_cons_right_iff.mp htracks
    simp only [step, hsent, hqueue]
    rcases Transfer.send_cases hsend with
        ⟨hempty, rfl⟩ | ⟨frame, frames, hframes, hbytes, hpart, rfl⟩
    · refine ⟨q, o, i, hfront.mono rfl ?_⟩
      simp [log, hempty, trace, all]
    · rw [Sound.log_eq hfront htx hframes]
      exact ⟨q, o, _, hfront.accept
        (w := ⟨q, i, frame, front.offset, front.taken io, frames.length, senders qs rest⟩)
        hframes rfl hbytes hpart rfl (by rw [trace_concat, if_pos rfl])⟩

end Line

/-- What holds of the bytes accepted by the driver, at the moment a run has reached. -/
structure TransmitIntegrity (serde : Serde) (calls : List Call) : Prop where
  whole_frames : accepted (Line.run serde calls).writes =
    (wholeFrames (Line.run serde calls).writes).flatten ++
      Line.partialFrame (Line.run serde calls).duplex.tx
  submitted_frames : ∀ w ∈ (Line.run serde calls).all,
    ∃ o, (Line.run serde calls).origins[w.serial]? = some o ∧
      o.transfer.frames[w.index]? = some w.frame
  in_order : ∀ q o, (Line.run serde calls).origins[q]? = some o →
    accepted ((Line.run serde calls).trace q) <+: o.transfer.frames.flatten
  started_once : ∀ q, starts ((Line.run serde calls).trace q) =
    List.range (starts ((Line.run serde calls).trace q)).length
  take_turns : ∀ pre v mid w post,
    (Line.run serde calls).writes = pre ++ v :: (mid ++ w :: post) →
      (∀ u ∈ mid, u.complete = false) → ∀ q ∈ v.order.head?, w.serial = q
  queue_order : (Line.run serde calls).writes.IsChain Turn
  input_complete : ∀ call, ∀ c ∈ (Line.run serde calls).duplex.completions serde call,
    c.lane = .input → ∀ value, c.result = .ok value →
      ∃ q o, (Line.run serde (calls ++ [call])).origins[q]? = some o ∧
        o.transfer.key = c.key ∧ o.transfer.lane = .input ∧ o.transfer.result = value ∧
        accepted ((Line.run serde (calls ++ [call])).trace q) = o.transfer.frames.flatten ∧
        o.Carries

/-- The integrity of every run, whatever the driver accepts and whenever it fails. -/
theorem transmit_integrity (serde : Serde) (calls : List Call) :
    TransmitIntegrity serde calls := by
  have hsound := Line.sound_run serde calls
  constructor
  · exact hsound.wire
  · intro w hw
    have ho := List.getElem?_eq_getElem (hsound.serials w hw)
    obtain ⟨i, k, hfollows⟩ := hsound.follows w.serial _ ho
    exact ⟨_, ho, hfollows.frame_eq w (List.mem_filter.mpr ⟨hw, decide_eq_true rfl⟩)⟩
  · intro q o ho
    obtain ⟨i, k, hfollows⟩ := hsound.follows q o ho
    exact hfollows.accepted_prefix
  · intro q
    cases ho : (Line.run serde calls).origins[q]? with
    | none =>
        have hnone : (Line.run serde calls).trace q = [] := by
          apply List.filter_eq_nil_iff.mpr
          intro w hw
          have hlt := hsound.serials w hw
          have hle := List.getElem?_eq_none_iff.mp ho
          simp only [decide_eq_true_eq]
          omega
        rw [hnone]
        rfl
    | some o =>
        obtain ⟨i, k, hfollows⟩ := hsound.follows q o ho
        rw [hfollows.starts_eq, List.length_range]
  · intro pre v mid w post hwrites hmid q hq
    have hchain := hsound.turns
    rw [hwrites] at hchain
    obtain ⟨qs, hqs⟩ : ∃ qs, v.order = q :: qs := by
      cases horder : v.order with
      | nil => simp [horder] at hq
      | cons r rs =>
          rw [horder] at hq
          cases hq
          exact ⟨rs, rfl⟩
    exact next_frame_serial hchain.right_of_append hqs hmid
  · exact hsound.turns
  · intro call c hc hlane value hok
    obtain ⟨io, now, front, front', rfl, hsent, hempty, hinput, hkey, hresult⟩ :=
      Line.input_completion hc hlane hok
    obtain ⟨q, o, i, htracks⟩ := Line.tracks_sent hsound serde hsent
    have hstep : Line.run serde (calls ++ [.tick io now]) =
        (Line.run serde calls).step serde (.tick io now) := by
      rw [Line.run, List.foldl_concat]
      rfl
    have hcarries := Line.carries_run serde (calls ++ [.tick io now])
    rw [hstep] at hcarries ⊢
    have hlane' : o.transfer.lane = .input := htracks.lane.symm.trans hinput
    exact ⟨q, o, htracks.origin, htracks.key.symm.trans hkey, hlane',
      htracks.result.symm.trans hresult, htracks.accepted_all hempty,
      hcarries o (List.mem_of_getElem? htracks.origin) hlane'⟩

namespace Line

/-- The literal alternation: while both lanes have frames left, no lane sends two in a row. -/
def LanesAlternate (l : Line) : Prop :=
  let lane := fun q => l.origins[q]?.map fun o => o.transfer.lane
  (l.writes.filter (·.complete)).IsChain fun v w =>
    some .application ∈ v.order.map lane → some .input ∈ v.order.map lane →
      lane w.serial ≠ lane v.serial

end Line

def ascii (text : String) : List UInt8 := text.toList.map fun c => UInt8.ofNat c.toNat

/-- The documents that are read and written below. -/
def statusSerde : Serde where
  toVec command :=
    .ok (ascii ("\x7b\"method\":\"" ++ command.method ++ "\",\"params\":null\x7d"))
  fromSlice bytes :=
    if bytes = ascii "\x7b\"protocol\":1\x7d" then
      .ok (.object [("protocol", .number (.posInt 1))])
    else if bytes = ascii "null" then .ok .null
    else .error (.msg "expected value at line 1 column 1")
  display _ := "null"

def statusCommand : Command := { method := "status", params := .null }

/-- The device answers request 1 before the scheduler has sent it. -/
def earlyReply : List Call :=
  let now : Clock := fun _ => 0
  [.startApplication "connect" none 10 7 now, .tick Duplex.eager now,
    .feed (Frame.wire
      { kind := helloAck, session := 7, request := 0
        payload := ascii "\x7b\"protocol\":1\x7d" }) now,
    .startInput "write" (List.replicate 257 0x61) 10 .null now,
    .startApplication "first" (some statusCommand) 10 0 now,
    .feed (Frame.wire
      { kind := response, session := 7, request := 1, payload := ascii "null" }) now,
    .startApplication "second" (some statusCommand) 10 0 now,
    .tick Duplex.eager now, .tick Duplex.eager now, .tick Duplex.eager now,
    .tick Duplex.eager now]

/-- The two requests follow each other while half of the write is still queued. -/
theorem early_reply_breaks_alternation :
    ¬ (Line.run statusSerde earlyReply).LanesAlternate := by
  unfold Line.LanesAlternate
  decide +kernel

end IdfRemote
