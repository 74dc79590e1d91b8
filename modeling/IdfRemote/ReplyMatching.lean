import IdfRemote.DuplexIntegrity
import IdfRemote.Runs

/-!
# Replies belong to their requests

A session numbers its requests from one. A command is completed successfully by a
response of the session in which it was started, with the number it was given there,
and only before its deadline. What the peer sends does not matter for this, nor when,
as long as no two sessions have the same nonce.
-/
namespace IdfRemote
open Mux Application

namespace Application.Session
variable {serde : Serde} {s : Session}

/-- A frame of the session is the reply to a request, with this value as its payload. -/
def Answers (serde : Serde) (s : Session) (kind : UInt8) (id : UInt32) (value : Value)
    (frame : Frame) : Prop :=
  frame.session = s.nonce ∧ frame.kind = kind ∧ frame.request = id ∧
    serde.fromSlice frame.payload = .ok value

/-- A successful reply is the payload of a frame that was waited for. -/
theorem frame_of_items {kind : UInt8} {id : UInt32} {ds : List Decoded}
    {reply : Option (Result Value)} {reset reset' : Bool} {value : Value}
    (h : (s.items serde (some (kind, id)) ds reply reset).2 = .ok (some (.ok value), reset')) :
    reply = some (.ok value) ∨
      ∃ frame, .frame frame ∈ ds ∧ s.Answers serde kind id value frame := by
  have hlater : ∀ {d : Decoded} {ds : List Decoded},
      (∃ frame, .frame frame ∈ ds ∧ s.Answers serde kind id value frame) →
      ∃ frame, .frame frame ∈ d :: ds ∧ s.Answers serde kind id value frame :=
    fun ⟨frame, hmem, hanswers⟩ => ⟨frame, List.mem_cons_of_mem _ hmem, hanswers⟩
  induction ds generalizing reply reset with
  | nil =>
      simp only [items, Except.ok.injEq, Prod.mk.injEq] at h
      exact .inl h.1
  | cons d ds ih =>
      cases d with
      | raw data => exact (ih h).imp_right hlater
      | corrupt => exact (ih h).imp_right hlater
      | frame frame =>
          simp only [items] at h
          by_cases hother : frame.session = s.nonce
          · rw [if_neg (not_not_intro hother)] at h
            by_cases hexpects : expects (some (kind, id)) frame = true
            · rw [if_pos hexpects] at h
              cases hpayload : serde.fromSlice frame.payload with
              | error e =>
                  rw [hpayload] at h
                  cases h
              | ok found =>
                  rw [hpayload] at h
                  rcases ih h with hreply | hfound
                  · split_ifs at hreply with herror
                    · cases hreply
                    · cases hreply
                      simp only [expects, Option.any_some, herror, decide_false, Bool.or_false,
                        Bool.and_eq_true, decide_eq_true_eq] at hexpects
                      obtain ⟨hid, hkind⟩ := hexpects
                      exact .inr ⟨frame, List.mem_cons_self, hother, hkind, hid, hpayload⟩
                  · exact .inr (hlater hfound)
            · rw [if_neg hexpects] at h
              split_ifs at h <;> exact (ih h).imp_right hlater
          · rw [if_pos hother] at h
            exact (ih h).imp_right hlater

/-- The nonce of a session and the number of its next request. -/
def identity (s : Session) : UInt64 × UInt32 := (s.nonce, s.nextRequest)

theorem process_identity (serde : Serde) (s : Session) (bytes : List UInt8) (expected : Expected) :
    (s.process serde bytes expected).1.identity = s.identity := by
  unfold process
  dsimp only
  split
  · rfl
  · split_ifs <;> rfl

theorem frame_of_process {kind : UInt8} {id : UInt32} {bytes : List UInt8} {value : Value}
    (h : (s.process serde bytes (some (kind, id))).2.2 = .ok (some (.ok value))) :
    ∃ frame, .frame frame ∈ (s.decoder.feed bytes).2 ∧
      s.Answers serde kind id value frame := by
  unfold process at h
  dsimp only at h
  split at h
  · cases h
  · next outputs reply reset hitems =>
    split_ifs at h
    cases h
    rcases frame_of_items (congrArg Prod.snd hitems) with hreply | hframe
    · cases hreply
    · exact hframe

theorem prepareRequest_ok {command : Command} {next : Session} {frame : Frame}
    (h : s.prepareRequest serde command = .ok (next, frame)) :
    s.nextRequest ≠ 0xffffffff ∧ next = { s with nextRequest := s.nextRequest + 1 } ∧
      frame.kind = Mux.request ∧ (frame.session, frame.request) = s.identity := by
  unfold prepareRequest at h
  cases hvalid : s.valid with
  | false =>
      rw [hvalid] at h
      cases h
  | true =>
      cases hpayload : payload serde command with
      | error e =>
          rw [hvalid, hpayload] at h
          cases h
      | ok bytes =>
          rw [hvalid, hpayload] at h
          by_cases hlast : s.nextRequest = 0xffffffff
          · rw [hlast] at h
            cases h
          · simp only [ensure_true, hlast, ne_eq, not_false_eq_true, decide_true] at h
            cases h
            exact ⟨hlast, rfl, rfl, rfl⟩

theorem prepareRequest_exhausted (serde : Serde) (hlast : s.nextRequest = 0xffffffff)
    (command : Command) :
    ∃ e, s.prepareRequest serde command = .error e := by
  cases h : s.prepareRequest serde command with
  | error e => exact ⟨e, rfl⟩
  | ok made => exact absurd hlast (prepareRequest_ok h).1

end Application.Session

namespace Duplex
variable {serde : Serde} {d : Duplex}

def identity (d : Duplex) : Option (UInt64 × UInt32) := d.session.map Session.identity

/-- No request is made: the session is kept or dropped, and dropped only together with what
is pending. -/
structure Quiet (d d' : Duplex) : Prop where
  identity : d'.identity = none ∨ d'.identity = d.identity
  pending : ∀ p, d'.pending = some p → d.pending = some p ∧ d'.identity = d.identity

theorem Quiet.refl (d : Duplex) : Quiet d d := ⟨.inr rfl, fun _ h => ⟨h, rfl⟩⟩

theorem Quiet.trans {d d' d'' : Duplex} (h : Quiet d d') (h' : Quiet d' d'') : Quiet d d'' where
  identity := by
    rcases h'.identity with hnone | hsame
    · exact .inl hnone
    · rw [hsame]
      exact h.identity
  pending := by
    intro p hp
    obtain ⟨hp, hsame⟩ := h'.pending p hp
    obtain ⟨hp, hsame'⟩ := h.pending p hp
    exact ⟨hp, hsame.trans hsame'⟩

theorem Quiet.of_none {d d' : Duplex} (hp : d'.pending = none)
    (h : d'.identity = none ∨ d'.identity = d.identity) : Quiet d d' :=
  ⟨h, fun _ hpending => nomatch hp.symm.trans hpending⟩

theorem quiet_expire (d : Duplex) (now : ℕ) : Quiet d (d.expire now).1 := by
  unfold expire
  split
  · exact Quiet.refl d
  · split_ifs with hlate hhello
    · exact Quiet.of_none rfl (.inl rfl)
    · exact Quiet.of_none rfl (.inr rfl)
    · exact Quiet.refl d

theorem quiet_tick (d : Duplex) (now : Clock) (io : Driver) : Quiet d (d.tick now io).1 := by
  rcases tick_cases d now io with
      ⟨-, e, htick⟩ | ⟨-, t, htick⟩ | ⟨front, front', rest, t, -, -, -, htick⟩
  · rw [htick]
    exact Quiet.refl d
  · rw [htick]
    exact quiet_expire d t
  · rw [htick]
    have h := quiet_expire { d with tx := requeue front' front' rest } t
    exact ⟨h.identity, h.pending⟩

theorem identity_conclude (session : Session) (p : Pending) (reply : Result Value) :
    (conclude session p reply).1 = none ∨
      (conclude session p reply).1.map Session.identity = some session.identity := by
  unfold conclude
  split_ifs
  · cases reply with
    | error e => exact .inl rfl
    | ok info =>
        dsimp only
        unfold Session.acceptHello
        split_ifs
        · exact .inr rfl
        · exact .inl rfl
  · exact .inr rfl

theorem quiet_feed (serde : Serde) (d : Duplex) (bytes : List UInt8) (now : Clock) :
    Quiet d (d.feed serde bytes now).1 := by
  unfold feed
  split
  · exact quiet_expire d _
  · next session hsession =>
    have hd : d.identity = some session.identity := by rw [identity, hsession, Option.map_some]
    have hkeep := session.process_identity serde bytes (d.expected (now 0))
    generalize session.process serde bytes (d.expected (now 0)) = processed at hkeep
    obtain ⟨session', outputs, reply⟩ := processed
    have hsame : identity { d with session := some session' } = d.identity :=
      (congrArg some hkeep).trans hd.symm
    have hquiet : Quiet d { d with session := some session' } :=
      ⟨.inr hsame, fun _ hp => ⟨hp, hsame⟩⟩
    cases reply with
    | error e => exact hquiet
    | ok reply =>
        cases reply with
        | none => exact hquiet.trans (quiet_expire _ _)
        | some reply =>
            dsimp only
            split
            · exact hquiet
            · next q hq =>
              refine Quiet.trans (Quiet.of_none rfl ?_) (quiet_expire _ _)
              rw [hd, ← hkeep]
              exact (identity_conclude session' q reply).imp_left (congrArg _)

/-- The frame that a start makes, also when it cannot be encoded. -/
def made (serde : Serde) (d : Duplex) : Call → List Frame
  | .startApplication _ command _ nonce _ =>
      if d.pending.isSome then []
      else
        match (d.prepare serde command nonce).2 with
        | .ok (frame, _) => [frame]
        | .error _ => []
  | _ => []

/-- The kind of the reply to a command, or to a negotiation. -/
def awaited : Option Command → UInt8
  | none => helloAck
  | some _ => response

/-- A negotiation begins a session with the number one, and a command takes the next number. -/
inductive Numbers (d d' : Duplex) (frame : Frame) : Option Command → Prop
  | negotiation : frame.kind = hello → d'.identity = some (frame.session, 1) →
      Numbers d d' frame none
  | command {command : Command} : frame.kind = Mux.request → frame.request ≠ 0xffffffff →
      d.identity = some (frame.session, frame.request) →
      d'.identity = some (frame.session, frame.request + 1) → Numbers d d' frame (some command)

theorem prepare_cases (serde : Serde) (d : Duplex) (command : Option Command) (nonce : UInt64) :
    (∃ e, d.prepare serde command nonce = (d, .error e)) ∨
    ∃ d' frame, d.prepare serde command nonce = (d', .ok (frame, awaited command)) ∧
      Numbers d d' frame command := by
  unfold prepare
  cases command with
  | none =>
      dsimp only
      split_ifs
      · exact .inr ⟨_, _, rfl, .negotiation rfl rfl⟩
      · exact .inl ⟨_, rfl⟩
  | some command =>
      cases hsession : d.session with
      | none => exact .inl ⟨_, rfl⟩
      | some session =>
          dsimp only
          cases hprepare : session.prepareRequest serde command with
          | error e => exact .inl ⟨e, rfl⟩
          | ok prepared =>
              obtain ⟨next, frame⟩ := prepared
              obtain ⟨hlast, rfl, hkind, hidentity⟩ := Session.prepareRequest_ok hprepare
              obtain ⟨hnonce, hnext⟩ := Prod.mk.inj hidentity
              refine .inr ⟨_, frame, rfl, .command hkind (hnext ▸ hlast) ?_ ?_⟩
              · rw [identity, hsession, hidentity, Option.map_some]
              · rw [hnonce, hnext]
                rfl

theorem call_cases (serde : Serde) (d : Duplex) (call : Call) :
    (d.made serde call = [] ∧ Quiet d (d.after serde call)) ∨
    ∃ key command timeout nonce now frame,
      call = .startApplication key command timeout nonce now ∧ d.made serde call = [frame] ∧
      Numbers d (d.after serde call) frame command ∧
      ∀ p, (d.after serde call).pending = some p →
        p = ⟨key, now 0 + timeout, awaited command, frame.request⟩ := by
  cases call with
  | startApplication key command timeout nonce now =>
      simp only [made, after, startApplication]
      split_ifs with hp
      · exact .inl ⟨rfl, Quiet.refl d⟩
      · rw [Option.not_isSome_iff_eq_none] at hp
        rcases prepare_cases serde d command nonce with
            ⟨e, hprepare⟩ | ⟨d', frame, hprepare, hnumbers⟩
        · rw [hprepare]
          exact .inl ⟨rfl, Quiet.refl d⟩
        · have hkeep := (prepare_keeps serde d command nonce).1
          rw [hprepare] at hkeep ⊢
          refine .inr ⟨key, command, timeout, nonce, now, frame, rfl, rfl, ?_⟩
          dsimp only
          cases frame.encode with
          | error e =>
              refine ⟨hnumbers, fun p hpending => ?_⟩
              cases (hkeep.trans hp).symm.trans hpending
          | ok bytes =>
              refine ⟨?_, fun p hpending => (Option.some.inj hpending).symm⟩
              cases hnumbers with
              | negotiation hkind hnext => exact .negotiation hkind hnext
              | command hkind hlast hcurrent hnext => exact .command hkind hlast hcurrent hnext
  | startInput key data timeout result now =>
      refine .inl ⟨rfl, ?_⟩
      rcases startInput_cases d key data timeout result now with
          ⟨e, -, hstate⟩ | ⟨-, -, frames, -, hstate⟩
      · rw [after, hstate]
        exact Quiet.refl d
      · rw [after, hstate]
        exact ⟨.inr rfl, fun p hp => ⟨hp, rfl⟩⟩
  | tick io now => exact .inl ⟨rfl, quiet_tick d now io⟩
  | feed bytes now => exact .inl ⟨rfl, quiet_feed serde d bytes now⟩
  | abort reason => exact .inl ⟨rfl, Quiet.of_none rfl (.inl rfl)⟩

theorem runCalls_eq_foldl (serde : Serde) (calls : List Call) :
    runCalls serde calls = calls.foldl (after serde) {} :=
  (ledger serde).run_eq_foldl {} calls

theorem runCalls_concat (serde : Serde) (calls : List Call) (call : Call) :
    runCalls serde (calls ++ [call]) = (runCalls serde calls).after serde call := by
  simp only [runCalls_eq_foldl, List.foldl_append, List.foldl_cons, List.foldl_nil]

theorem runCalls_append (serde : Serde) (before since : List Call) (call : Call) :
    runCalls serde (before ++ call :: since) =
      since.foldl (after serde) ((runCalls serde before).after serde call) := by
  simp only [runCalls_eq_foldl, List.foldl_append, List.foldl_cons]

/-- The frames of all starts, in order. -/
def frames (serde : Serde) (calls : List Call) : List Frame :=
  Runs.collect (after serde) (made serde) {} calls

theorem frames_append (serde : Serde) (before since : List Call) :
    frames serde (before ++ since) = frames serde before ++
      Runs.collect (after serde) (made serde) (runCalls serde before) since := by
  rw [frames, Runs.collect_append, ← runCalls_eq_foldl, frames]

theorem frames_concat (serde : Serde) (calls : List Call) (call : Call) :
    frames serde (calls ++ [call]) =
      frames serde calls ++ (runCalls serde calls).made serde call := by
  rw [frames_append, Runs.collect, Runs.collect, List.append_nil]

/-- The nonces of the sessions that were begun. -/
def sessions (serde : Serde) (calls : List Call) : List UInt64 :=
  ((frames serde calls).filter fun f => f.kind = hello).map (·.session)

/-- The requests made for commands. -/
def requests (serde : Serde) (calls : List Call) : List Frame :=
  (frames serde calls).filter fun f => f.kind = Mux.request

/-- The numbers of the requests of one session, in order. -/
def ids (serde : Serde) (calls : List Call) (nonce : UInt64) : List ℕ :=
  ((requests serde calls).filter fun f => f.session = nonce).map fun f => f.request.toNat

/-- Each session has used the first numbers, and the current one continues with the next. -/
structure Counted (serde : Serde) (calls : List Call) : Prop where
  begun : ∀ f ∈ requests serde calls, f.session ∈ sessions serde calls
  counted : ∀ nonce, ∃ n < 2 ^ 32 - 1, ids serde calls nonce = List.range' 1 n
  current : ∀ nonce id, (runCalls serde calls).identity = some (nonce, id) →
    nonce ∈ sessions serde calls ∧ 1 ≤ id.toNat ∧
      ids serde calls nonce = List.range' 1 (id.toNat - 1)

theorem ids_of_not_mem {calls : List Call} (h : Counted serde calls) {nonce : UInt64}
    (hnonce : nonce ∉ sessions serde calls) : ids serde calls nonce = [] := by
  rw [ids, List.map_eq_nil_iff, List.filter_eq_nil_iff]
  intro f hf heq
  rw [decide_eq_true_eq] at heq
  exact hnonce (heq ▸ h.begun f hf)

section
variable {calls : List Call} {call : Call} {frame : Frame}

theorem sessions_hello (hmade : (runCalls serde calls).made serde call = [frame])
    (hkind : frame.kind = hello) :
    sessions serde (calls ++ [call]) = sessions serde calls ++ [frame.session] ∧
      requests serde (calls ++ [call]) = requests serde calls := by
  have hne : hello ≠ Mux.request := by decide
  simp [sessions, requests, frames_concat, hmade, hkind, hne]

theorem sessions_request (hmade : (runCalls serde calls).made serde call = [frame])
    (hkind : frame.kind = Mux.request) :
    sessions serde (calls ++ [call]) = sessions serde calls ∧
      requests serde (calls ++ [call]) = requests serde calls ++ [frame] := by
  have hne : Mux.request ≠ hello := by decide
  simp [sessions, requests, frames_concat, hmade, hkind, hne]

theorem ids_request (hmade : (runCalls serde calls).made serde call = [frame])
    (hkind : frame.kind = Mux.request) (nonce : UInt64) :
    ids serde (calls ++ [call]) nonce = ids serde calls nonce ++
      if frame.session = nonce then [frame.request.toNat] else [] := by
  rw [ids, (sessions_request hmade hkind).2, List.filter_append, List.map_append, ← ids]
  split_ifs with hnonce
  · simp [hnonce]
  · simp [hnonce]

theorem sessions_quiet (hmade : (runCalls serde calls).made serde call = []) :
    sessions serde (calls ++ [call]) = sessions serde calls ∧
      requests serde (calls ++ [call]) = requests serde calls := by
  simp [sessions, requests, frames_concat, hmade]

theorem Counted.quiet (h : Counted serde calls)
    (hmade : (runCalls serde calls).made serde call = [])
    (hquiet : Quiet (runCalls serde calls) ((runCalls serde calls).after serde call)) :
    Counted serde (calls ++ [call]) := by
  obtain ⟨hsessions, hrequests⟩ := sessions_quiet hmade
  constructor
  · rw [hsessions, hrequests]
    exact h.begun
  · intro nonce
    rw [ids, hrequests]
    exact h.counted nonce
  · intro nonce id hid
    rw [hsessions, ids, hrequests]
    rw [runCalls_concat] at hid
    rcases hquiet.identity with hnone | hsame
    · cases hnone.symm.trans hid
    · exact h.current nonce id (hsame.symm.trans hid)

theorem Counted.negotiation (h : Counted serde calls)
    (hmade : (runCalls serde calls).made serde call = [frame]) (hkind : frame.kind = hello)
    (hnext : ((runCalls serde calls).after serde call).identity = some (frame.session, 1))
    (hnonces : (sessions serde (calls ++ [call])).Nodup) : Counted serde (calls ++ [call]) := by
  obtain ⟨hsessions, hrequests⟩ := sessions_hello hmade hkind
  rw [hsessions] at hnonces
  constructor
  · rw [hsessions, hrequests]
    exact fun f hf => List.mem_append_left _ (h.begun f hf)
  · intro nonce
    rw [ids, hrequests]
    exact h.counted nonce
  · intro nonce id hid
    rw [runCalls_concat, hnext] at hid
    cases hid
    have hnew : frame.session ∉ sessions serde calls := by
      intro hold
      exact (List.nodup_append.mp hnonces).2.2 _ hold _ List.mem_cons_self rfl
    rw [hsessions, ids, hrequests]
    exact ⟨by simp, le_rfl, ids_of_not_mem h hnew⟩

theorem Counted.command (h : Counted serde calls)
    (hmade : (runCalls serde calls).made serde call = [frame])
    (hkind : frame.kind = Mux.request) (hlast : frame.request ≠ 0xffffffff)
    (hcurrent : (runCalls serde calls).identity = some (frame.session, frame.request))
    (hnext : ((runCalls serde calls).after serde call).identity =
      some (frame.session, frame.request + 1)) : Counted serde (calls ++ [call]) := by
  obtain ⟨hsessions, hrequests⟩ := sessions_request hmade hkind
  obtain ⟨hbegun, hpos, hids⟩ := h.current _ _ hcurrent
  have hlt : frame.request.toNat < 2 ^ 32 - 1 := by
    have hne : frame.request.toNat ≠ 0xffffffff := fun heq => hlast (UInt32.toNat_inj.mp heq)
    have hbound := frame.request.toNat_lt
    omega
  have hsucc : (frame.request + 1).toNat = frame.request.toNat + 1 := by
    rw [UInt32.toNat_add]
    exact Nat.mod_eq_of_lt (by simp; omega)
  have hown : ids serde (calls ++ [call]) frame.session = List.range' 1 frame.request.toNat := by
    rw [ids_request hmade hkind, if_pos rfl, hids]
    have hconcat := List.range'_1_concat (s := 1) (n := frame.request.toNat - 1)
    rw [Nat.sub_add_cancel hpos, Nat.add_sub_cancel' hpos] at hconcat
    exact hconcat.symm
  constructor
  · rw [hsessions, hrequests]
    intro f hf
    rcases List.mem_append.mp hf with hf | hf
    · exact h.begun f hf
    · rw [List.mem_singleton.mp hf]
      exact hbegun
  · intro nonce
    by_cases hnonce : nonce = frame.session
    · exact ⟨_, hlt, hnonce ▸ hown⟩
    · rw [ids_request hmade hkind, if_neg (Ne.symm hnonce), List.append_nil]
      exact h.counted nonce
  · intro nonce id hid
    rw [runCalls_concat, hnext] at hid
    cases hid
    rw [hsessions, hsucc, Nat.add_sub_cancel]
    exact ⟨hbegun, by omega, hown⟩

end

theorem counted_run (serde : Serde) (calls : List Call) (hnonces : (sessions serde calls).Nodup) :
    Counted serde calls := by
  induction calls using List.reverseRecOn with
  | nil =>
      constructor
      · exact fun f hf => nomatch hf
      · exact fun nonce => ⟨0, by decide, rfl⟩
      · exact fun nonce id hid => nomatch hid
  | append_singleton calls call ih =>
      have hbefore : (sessions serde calls).Nodup := by
        rw [sessions, frames_concat, List.filter_append, List.map_append] at hnonces
        exact (List.nodup_append.mp hnonces).1
      have h := ih hbefore
      rcases call_cases serde (runCalls serde calls) call with
          ⟨hmade, hquiet⟩ | ⟨key, command, timeout, nonce, now, frame, -, hmade, hnumbers, -⟩
      · exact h.quiet hmade hquiet
      · cases hnumbers with
        | negotiation hkind hnext => exact h.negotiation hmade hkind hnext hnonces
        | command hkind hlast hcurrent hnext => exact h.command hmade hkind hlast hcurrent hnext

theorem requests_nodup {fs : List Frame}
    (h : ∀ nonce, ((fs.filter fun f => f.session = nonce).map fun f => f.request.toNat).Nodup) :
    (fs.map fun f => (f.session, f.request)).Nodup := by
  induction fs with
  | nil => exact List.nodup_nil
  | cons f fs ih =>
      rw [List.map_cons, List.nodup_cons]
      constructor
      · intro hmem
        obtain ⟨g, hg, heq⟩ := List.mem_map.mp hmem
        obtain ⟨hsession, hrequest⟩ := Prod.mk.inj heq
        have hown := h f.session
        rw [List.filter_cons_of_pos (by simp), List.map_cons, List.nodup_cons] at hown
        refine hown.1 (List.mem_map.mpr ⟨g, ?_, congrArg UInt32.toNat hrequest⟩)
        exact List.mem_filter.mpr ⟨hg, by simpa using hsession⟩
      · refine ih fun nonce => (h nonce).sublist ?_
        exact ((List.sublist_cons_self f fs).filter _).map _

/-- The frame was made by a start of the calls, whose request is pending since then. -/
def Asked (serde : Serde) (calls : List Call) (asked : Duplex) (command : Option Command)
    (frame : Frame) (p : Pending) : Prop :=
  ∃ before timeout nonce now since,
    calls = before ++ .startApplication p.key command timeout nonce now :: since ∧
    asked = runCalls serde before ∧
    asked.made serde (.startApplication p.key command timeout nonce now) = [frame] ∧
    p.request = frame.request ∧ p.deadline = now 0 + timeout ∧
    Runs.Throughout (after serde) (fun d => d.pending = some p)
      (asked.after serde (.startApplication p.key command timeout nonce now)) since

/-- The pending request awaits a reply of the session in which it was started. -/
structure Awaits (serde : Serde) (calls : List Call) (p : Pending) (asked : Duplex)
    (command : Option Command) (frame : Frame) : Prop where
  start : Asked serde calls asked command frame p
  kind : p.kind = awaited command
  numbers : ∃ d, Numbers asked d frame command
  session : (runCalls serde calls).identity.map Prod.fst = some frame.session

theorem awaits_run (serde : Serde) (calls : List Call) {p : Pending}
    (hp : (runCalls serde calls).pending = some p) :
    ∃ asked command frame, Awaits serde calls p asked command frame := by
  induction calls using List.reverseRecOn with
  | nil => cases hp
  | append_singleton calls call ih =>
      rw [runCalls_concat] at hp
      rcases call_cases serde (runCalls serde calls) call with
          ⟨-, hquiet⟩ | ⟨key, command, timeout, nonce, now, frame, rfl, hmade, hnumbers, hpending⟩
      · obtain ⟨hbefore, hsame⟩ := hquiet.pending p hp
        obtain ⟨asked, command, frame, h⟩ := ih hbefore
        obtain ⟨before, timeout, nonce, now, since, rfl, rfl, hmade, hid, hdeadline, hsince⟩ :=
          h.start
        refine ⟨_, command, frame, ⟨?_, h.kind, h.numbers, ?_⟩⟩
        · refine ⟨before, timeout, nonce, now, since ++ [call], ?_, rfl, hmade, hid, hdeadline,
            hsince.concat ?_⟩
          · rw [List.append_assoc, List.cons_append]
          · rwa [← runCalls_append]
        · rw [runCalls_concat, hsame]
          exact h.session
      · cases hpending p hp
        refine ⟨runCalls serde calls, command, frame,
          ⟨⟨calls, timeout, nonce, now, [], rfl, rfl, hmade, rfl, rfl, hp⟩, rfl, ⟨_, hnumbers⟩, ?_⟩⟩
        rw [runCalls_concat]
        cases hnumbers with
        | negotiation hkind hnext =>
            rw [hnext]
            rfl
        | command hkind hlast hcurrent hnext =>
            rw [hnext]
            rfl

theorem Asked.mem_frames {calls : List Call} {asked : Duplex} {command : Option Command}
    {frame : Frame} {p : Pending} (h : Asked serde calls asked command frame p) :
    frame ∈ frames serde calls := by
  obtain ⟨before, timeout, nonce, now, since, rfl, rfl, hmade, -⟩ := h
  rw [frames_append, Runs.collect, hmade]
  exact List.mem_append_right _ List.mem_cons_self

/-- What the current session makes of received bytes. -/
def decoded (d : Duplex) (bytes : List UInt8) : List Decoded :=
  match d.session with
  | none => []
  | some session => (session.decoder.feed bytes).2

theorem expire_not_ok {c : Completion} {value : Value} (h : c.result = .ok value) (d : Duplex)
    (now : ℕ) : c ∉ (d.expire now).2 := by
  intro hc
  unfold expire at hc
  split at hc
  · cases hc
  · next p hp =>
    by_cases hlate : p.deadline ≤ now
    · rw [if_pos hlate] at hc
      rw [List.mem_singleton.mp hc] at h
      cases h
    · rw [if_neg hlate] at hc
      cases hc

/-- Only received bytes complete an application request successfully. -/
theorem feed_of_ok {call : Call} {c : Completion} {value : Value}
    (hc : c ∈ d.completions serde call) (hlane : c.lane = .application)
    (hresult : c.result = .ok value) : ∃ bytes now, call = .feed bytes now := by
  cases call with
  | feed bytes now => exact ⟨bytes, now, rfl⟩
  | tick io now =>
      rcases tick_cases d now io with
          ⟨-, e, htick⟩ | ⟨-, t, htick⟩ | ⟨front, front', rest, t, -, -, -, htick⟩
      · simp only [completions, htick] at hc
        cases hc
      · simp only [completions, htick] at hc
        exact absurd hc (expire_not_ok hresult _ _)
      · simp only [completions, htick] at hc
        rcases List.mem_append.mp hc with hc | hc
        · unfold retire at hc
          split_ifs at hc with hdone
          · rw [List.mem_singleton.mp hc] at hlane
            cases hlane.symm.trans hdone.2
          · cases hc
        · exact absurd hc (expire_not_ok hresult _ _)
  | abort reason =>
      rcases List.mem_append.mp hc with hc | hc
      · obtain ⟨p, -, rfl⟩ := List.mem_map.mp hc
        cases hresult
      · obtain ⟨t, -, rfl⟩ := List.mem_map.mp hc
        cases hresult
  | startApplication key command timeout nonce now => cases hc
  | startInput key data timeout result now => cases hc

theorem frame_of_reply {session : Session} {p : Pending} {bytes : List UInt8} {now : ℕ}
    {value : Value} (hp : d.pending = some p) (hlive : now < p.deadline)
    (h : (session.process serde bytes (d.expected now)).2.2 = .ok (some (.ok value))) :
    ∃ reply, .frame reply ∈ (session.decoder.feed bytes).2 ∧
      session.Answers serde p.kind p.request value reply := by
  have hexpected : d.expected now = some (p.kind, p.request) := by
    simp [expected, hp, hlive]
  rw [hexpected] at h
  exact Session.frame_of_process h

/-- A reply that is passed on was received before the deadline, in the current session. -/
theorem reply_of_feed {bytes : List UInt8} {now : Clock} {c : Completion} {value : Value}
    (hc : c ∈ d.completions serde (.feed bytes now)) (hresult : c.result = .ok value) :
    ∃ p, d.pending = some p ∧ p.key = c.key ∧ now 0 < p.deadline ∧
      (p.kind ≠ helloAck → ∃ reply, .frame reply ∈ d.decoded bytes ∧
        d.identity.map Prod.fst = some reply.session ∧ reply.kind = p.kind ∧
        reply.request = p.request ∧ serde.fromSlice reply.payload = .ok value) := by
  simp only [completions, feed] at hc
  cases hsession : d.session with
  | none =>
      rw [hsession] at hc
      exact absurd hc (expire_not_ok hresult _ _)
  | some session =>
      rw [hsession] at hc
      dsimp only at hc
      generalize hprocess : session.process serde bytes (d.expected (now 0)) = processed at hc
      obtain ⟨session', outputs, e | _ | reply⟩ := processed
      · cases hc
      · exact absurd hc (expire_not_ok hresult _ _)
      · have hreply := congrArg (·.2.2) hprocess
        obtain ⟨p, hp, hlive⟩ := pending_of_reply hreply
        rw [hp] at hc
        rcases List.mem_cons.mp hc with rfl | hc
        · refine ⟨p, hp, rfl, hlive, fun hkind => ?_⟩
          have hok : reply = .ok value := by simpa [conclude, hkind] using hresult
          rw [hok] at hreply
          obtain ⟨frame, hmem, hnonce, hrest⟩ := frame_of_reply hp hlive hreply
          refine ⟨frame, ?_, ?_, hrest⟩
          · rw [decoded, hsession]
            exact hmem
          · rw [identity, hsession, hnonce]
            rfl
        · exact absurd hc (expire_not_ok hresult _ _)

theorem startApplication_exhausted {session : Session} (hsession : d.session = some session)
    (hlast : session.nextRequest = 0xffffffff) (key : String) (command : Command) (timeout : ℕ)
    (nonce : UInt64) (now : Clock) :
    ∃ e, d.startApplication serde key (some command) timeout now nonce = (d, .error e) := by
  unfold startApplication
  by_cases hp : d.pending.isSome = true
  · rw [if_pos hp]
    exact ⟨_, rfl⟩
  · obtain ⟨e, he⟩ := Session.prepareRequest_exhausted serde hlast command
    have hprepare : d.prepare serde (some command) nonce = (d, .error e) := by
      simp only [prepare, hsession, he]
    rw [if_neg hp, hprepare]
    exact ⟨e, rfl⟩

/-- What is certain about the replies of a run. -/
structure RepliesMatch (serde : Serde) (calls : List Call) : Prop where
  numbered : ∀ nonce, ∃ n < 2 ^ 32 - 1, ids serde calls nonce = List.range' 1 n
  unique : ((requests serde calls).map fun f => (f.session, f.request)).Nodup
  exhausted : ∀ session, (runCalls serde calls).session = some session →
    session.nextRequest = 0xffffffff → ∀ key command timeout nonce now,
      ∃ e, (runCalls serde calls).startApplication serde key (some command) timeout now nonce =
        (runCalls serde calls, .error e)
  matched : ∀ call, ∀ c ∈ (runCalls serde calls).completions serde call,
    c.lane = .application → ∀ value, c.result = .ok value →
      ∃ bytes now asked command frame p, call = .feed bytes now ∧
        Asked serde calls asked command frame p ∧ p.key = c.key ∧ now 0 < p.deadline ∧
        (command.isSome → frame ∈ requests serde calls ∧
          asked.session.map (·.nonce) = some frame.session ∧
          ∃ reply, .frame reply ∈ (runCalls serde calls).decoded bytes ∧
            reply.kind = response ∧ reply.session = frame.session ∧
            reply.request = frame.request ∧ serde.fromSlice reply.payload = .ok value)

/-- The peer may send any bytes, and calls may come in any order and at any time. -/
theorem replies_match (serde : Serde) (calls : List Call)
    (hnonces : (sessions serde calls).Nodup) : RepliesMatch serde calls := by
  have hcounted := counted_run serde calls hnonces
  constructor
  · exact hcounted.counted
  · apply requests_nodup
    intro nonce
    obtain ⟨n, -, hids⟩ := hcounted.counted nonce
    rw [← ids, hids]
    exact List.nodup_range'
  · intro session hsession hlast key command timeout nonce now
    exact startApplication_exhausted hsession hlast key command timeout nonce now
  · intro call c hc hlane value hresult
    obtain ⟨bytes, now, rfl⟩ := feed_of_ok hc hlane hresult
    obtain ⟨p, hp, hkey, hlive, hreply⟩ := reply_of_feed hc hresult
    obtain ⟨asked, command, frame, h⟩ := awaits_run serde calls hp
    refine ⟨bytes, now, asked, command, frame, p, rfl, h.start, hkey, hlive, fun hsome => ?_⟩
    obtain ⟨d, hnumbers⟩ := h.numbers
    cases hnumbers with
    | negotiation hkind hnext => cases hsome
    | command hkind hlast hcurrent hnext =>
        have hne : p.kind ≠ helloAck := by
          rw [h.kind]
          exact (by decide : response ≠ helloAck)
        obtain ⟨reply, hmem, hnonce, hreplykind, hid, hpayload⟩ := hreply hne
        have hmade : frame ∈ requests serde calls :=
          List.mem_filter.mpr ⟨h.start.mem_frames, by simpa using hkind⟩
        have hasked : asked.session.map (·.nonce) = some frame.session := by
          have h := congrArg (Option.map Prod.fst) hcurrent
          rwa [identity, Option.map_map] at h
        have hsame : reply.session = frame.session :=
          Option.some.inj (hnonce.symm.trans h.session)
        obtain ⟨-, -, -, -, -, -, -, -, hnumber, -⟩ := h.start
        exact ⟨hmade, hasked, reply, hmem, hreplykind.trans h.kind, hsame, hid.trans hnumber,
          hpayload⟩

/-- The reply that arrives before its request was sent is matched as well. -/
theorem replies_match_early : RepliesMatch statusSerde earlyReply :=
  replies_match statusSerde earlyReply (by decide +kernel)

end Duplex
end IdfRemote
