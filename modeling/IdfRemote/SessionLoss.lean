import IdfRemote.ReplyMatching
import IdfRemote.ResponseDelivery

/-!
# Unframed bytes end a session

Unframed bytes end a session that is valid when they are received. A session becomes
valid only after the whole read that acknowledges it has been processed, so an unframed
byte behind the acknowledgement ends the session exactly when it comes in a later read.
-/
namespace IdfRemote
open Mux Application

/-- Without an expected reply, the loop of `process` only notes a reset. -/
theorem Application.Session.items_unexpected (serde : Serde) (s : Session) (ds : List Decoded)
    (reply : Option (Result Value)) (reset : Bool) :
    (s.items serde none ds reply reset).2 =
      .ok (reply, reset || (s.valid && ds.any Duplex.isRaw)) := by
  induction ds generalizing reset with
  | nil => simp [items]
  | cons d ds ih =>
      cases d with
      | raw data =>
          rw [items, ih]
          cases reset <;> cases s.valid <;> simp [Duplex.isRaw]
      | corrupt => simpa [items, Duplex.isRaw] using ih reset
      | frame f =>
          have hexpects : expects none f = false := rfl
          simp only [items, hexpects, Bool.false_eq_true, if_false]
          split_ifs <;> simpa [Duplex.isRaw] using ih reset

theorem Application.Session.process_valid (serde : Serde) (s : Session) (bytes : List UInt8)
    (expected : Expected) (h : s.valid = false) :
    (s.process serde bytes expected).1.valid = false := by
  unfold process
  dsimp only
  split
  · exact h
  · split_ifs
    · rfl
    · exact h

namespace Duplex
variable {serde : Serde} {d : Duplex} {s : Session} {reads : List (List UInt8 × Clock)}
  {bytes : List UInt8} {now : Clock}

/-- A session that has been acknowledged and has not ended. -/
def accepted (d : Duplex) : Bool := d.session.any Session.valid

/-- The state after successive reads, whether they failed or not. -/
def feeds (serde : Serde) (d : Duplex) (reads : List (List UInt8 × Clock)) : Duplex :=
  reads.foldl (fun d read => (d.feed serde read.1 read.2).1) d

/-- A frame of a read that acknowledges the hello in time. -/
structure Acknowledges (serde : Serde) (s : Session) (p : Pending) (bytes : List UInt8)
    (now : Clock) (f : Frame) : Prop where
  waiting : p.kind = helloAck
  timely : now 0 < p.deadline
  received : .frame f ∈ (s.decoder.feed bytes).2
  session : f.session = s.nonce
  kind : f.kind = helloAck
  request : f.request = p.request
  protocol : ∃ info, serde.fromSlice f.payload = .ok info ∧
    (info.get "protocol").bind Value.asU64 = some 1

@[simp] theorem feeds_nil : d.feeds serde [] = d := rfl

@[simp] theorem feeds_cons (read : List UInt8 × Clock) :
    d.feeds serde (read :: reads) = feeds serde (d.feed serde read.1 read.2).1 reads := rfl

theorem feeds_append (more : List (List UInt8 × Clock)) :
    d.feeds serde (reads ++ more) = (d.feeds serde reads).feeds serde more :=
  List.foldl_append

theorem accepted_of_session (h : d.session = some s) : d.accepted = s.valid := by
  rw [accepted, h]
  rfl

theorem feed_idle (serde : Serde) (bytes : List UInt8) (now : Clock)
    (hsession : d.session = some s) (hpending : d.pending = none) :
    ∃ outputs, d.feed serde bytes now =
      if s.valid && (s.decoder.feed bytes).2.any isRaw then
        ({ d with session := some { s with decoder := (s.decoder.feed bytes).1, valid := false } },
          outputs, .error (.msg "application session ended by unframed output; connect again"))
      else
        ({ d with session := some { s with decoder := (s.decoder.feed bytes).1 } }, outputs,
          .ok []) := by
  have hitems := s.items_unexpected serde (s.decoder.feed bytes).2 none false
  rcases hr : s.items serde none (s.decoder.feed bytes).2 none false with ⟨outputs, result⟩
  rw [hr] at hitems
  cases hitems
  refine ⟨outputs, ?_⟩
  have hexpected : d.expected (now 0) = none := by simp [expected, hpending]
  cases hraw : s.valid && (s.decoder.feed bytes).2.any isRaw <;>
    simp [feed, hsession, hexpected, Session.process, hr, hraw, expire, hpending]

/-- A session is accepted only while an acknowledgement is awaited. -/
theorem feed_idle_accepted (serde : Serde) (bytes : List UInt8) (now : Clock)
    (haccepted : d.accepted = false) (hpending : d.pending = none) :
    (d.feed serde bytes now).1.accepted = false ∧ (d.feed serde bytes now).1.pending = none := by
  cases hsession : d.session with
  | none => simp [feed, hsession, expire, hpending, accepted]
  | some s =>
      rw [accepted_of_session hsession] at haccepted
      obtain ⟨outputs, hfeed⟩ := feed_idle serde bytes now hsession hpending
      rw [hfeed, haccepted, Bool.false_and, if_neg Bool.false_ne_true]
      exact ⟨rfl, hpending⟩

theorem feeds_idle_accepted (haccepted : d.accepted = false) (hpending : d.pending = none) :
    (d.feeds serde reads).accepted = false := by
  induction reads generalizing d with
  | nil => exact haccepted
  | cons read reads ih =>
      obtain ⟨haccepted, hpending⟩ :=
        feed_idle_accepted serde read.1 read.2 haccepted hpending
      exact ih haccepted hpending

/-- A valid session lasts as long as no unframed byte is received. -/
theorem feeds_accepted_iff (hsession : d.session = some s) (hvalid : s.valid = true)
    (hpending : d.pending = none) :
    (d.feeds serde reads).accepted = false ↔
      ∃ b, .raw b ∈ heard s.decoder (reads.map Prod.fst) := by
  induction reads generalizing d s with
  | nil => simp [accepted_of_session hsession, hvalid, heard_nil]
  | cons read reads ih =>
      obtain ⟨outputs, hfeed⟩ := feed_idle serde read.1 read.2 hsession hpending
      have hany := any_isRaw_iff (feed_ne_raw s.decoder read.1)
      rw [feeds_cons, hfeed, hvalid, Bool.true_and, List.map_cons, heard_cons]
      cases hraw : (s.decoder.feed read.1).2.any isRaw with
      | true =>
          have hlost : ∃ b, .raw b ∈ (s.decoder.feed read.1).2.flatMap Decoded.events := by
            by_contra hnone
            rw [hany.mpr fun b hb => hnone ⟨b, hb⟩] at hraw
            cases hraw
          obtain ⟨b, hb⟩ := hlost
          exact ⟨fun _ => ⟨b, List.mem_append_left _ hb⟩, fun _ => feeds_idle_accepted rfl hpending⟩
      | false =>
          rw [if_neg Bool.false_ne_true]
          have hquiet := hany.mp hraw
          have hrest := ih (d := { d with
            session := some { s with decoder := (s.decoder.feed read.1).1, valid := true } })
            rfl rfl hpending
          exact hrest.trans (exists_congr fun b => by simp [hquiet b])

/-- The loss is reported by the first read that brings an unframed byte. -/
theorem feeds_reports (hsession : d.session = some s) (hvalid : s.valid = true)
    (hpending : d.pending = none)
    (hquiet : ∀ b, .raw b ∉ heard s.decoder (reads.map Prod.fst))
    (hraw : ∃ b, .raw b ∈ heard s.decoder (reads.map Prod.fst ++ [bytes])) :
    ∃ e, ((d.feeds serde reads).feed serde bytes now).2.2 = .error e := by
  induction reads generalizing d s with
  | nil =>
      obtain ⟨outputs, hfeed⟩ := feed_idle serde bytes now hsession hpending
      have hany : (s.decoder.feed bytes).2.any isRaw = true := by
        rw [← Bool.not_eq_false, any_isRaw_iff (feed_ne_raw s.decoder bytes)]
        rw [List.map_nil, List.nil_append, heard_single] at hraw
        exact fun hnone => hraw.elim hnone
      rw [feeds_nil, hfeed, hvalid, hany, Bool.true_and, if_pos rfl]
      exact ⟨_, rfl⟩
  | cons read reads ih =>
      rw [List.map_cons, heard_cons] at hquiet
      rw [List.map_cons, List.cons_append, heard_cons] at hraw
      have hfirst : (s.decoder.feed read.1).2.any isRaw = false :=
        (any_isRaw_iff (feed_ne_raw s.decoder read.1)).mpr fun b hb =>
          hquiet b (List.mem_append_left _ hb)
      obtain ⟨outputs, hfeed⟩ := feed_idle serde read.1 read.2 hsession hpending
      rw [feeds_cons, hfeed, hfirst, Bool.and_false, if_neg Bool.false_ne_true]
      refine ih rfl hvalid hpending (fun b hb => hquiet b (List.mem_append_right _ hb)) ?_
      obtain ⟨b, hb⟩ := hraw
      refine ⟨b, (List.mem_append.mp hb).resolve_left fun hb => ?_⟩
      exact hquiet b (List.mem_append_left _ hb)

theorem expire_accepted (d : Duplex) (t : ℕ) (h : d.accepted = false) :
    (d.expire t).1.accepted = false := by
  unfold expire
  split
  · exact h
  · split_ifs
    · rfl
    · exact h
    · exact h

theorem conclude_accepts {p : Pending} {reply : Result Value} (hvalid : s.valid = false)
    (h : (conclude s p reply).1.any Session.valid = true) :
    p.kind = helloAck ∧ ∃ info, reply = .ok info ∧
      (info.get "protocol").bind Value.asU64 = some 1 := by
  unfold conclude at h
  split_ifs at h with hkind
  · cases reply with
    | error e => cases h
    | ok info =>
        dsimp only at h
        unfold Session.acceptHello at h
        split_ifs at h with hprotocol
        · exact ⟨hkind, info, rfl, hprotocol⟩
        · cases h
  · exact absurd h (by simp [hvalid])

theorem feed_accepts (hbefore : d.accepted = false)
    (hafter : (d.feed serde bytes now).1.accepted = true) :
    (d.feed serde bytes now).1.pending = none ∧ ∃ s p f, d.session = some s ∧
      d.pending = some p ∧ Acknowledges serde s p bytes now f := by
  cases hsession : d.session with
  | none =>
      have hnone : (d.feed serde bytes now).1 = (d.expire (now 1)).1 := by simp [feed, hsession]
      rw [hnone, expire_accepted d _ hbefore] at hafter
      cases hafter
  | some s =>
      rw [accepted_of_session hsession] at hbefore
      have hvalid := s.process_valid serde bytes (d.expected (now 0)) hbefore
      have hprocess : ∀ next outputs result,
          s.process serde bytes (d.expected (now 0)) = (next, outputs, result) →
          accepted { d with session := some next } = false := by
        intro next outputs result h
        rw [h] at hvalid
        exact hvalid
      simp only [feed, hsession] at hafter ⊢
      rcases hr : s.process serde bytes (d.expected (now 0)) with ⟨next, outputs, e | _ | reply⟩
      · rw [hr] at hafter
        exact absurd hafter (by simp [hprocess _ _ _ hr])
      · rw [hr] at hafter
        exact absurd hafter (by simp [expire_accepted _ _ (hprocess _ _ _ hr)])
      · obtain ⟨p, hpending, htimely⟩ := pending_of_reply (congrArg (·.2.2) hr)
        rw [hr, hpending] at hafter
        have hnow : (expire { d with session := (conclude next p reply).1, pending := none }
            (now 1)).1 = { d with session := (conclude next p reply).1, pending := none } := rfl
        rw [hnow] at hafter
        obtain ⟨hkind, info, rfl, hprotocol⟩ := conclude_accepts (hprocess _ _ _ hr) hafter
        obtain ⟨f, hmem, hnonce, hf, hrequest, hjson⟩ :=
          frame_of_reply hpending htimely (congrArg (·.2.2) hr)
        simp only [hpending]
        exact ⟨rfl, s, p, f, rfl, rfl, hkind, htimely, hmem, hnonce, hf.trans hkind, hrequest, info,
          hjson, hprotocol⟩

/-- Once an acknowledgement has been accepted, no valid session remains exactly when an
unframed byte comes in a later read, and the first such read reports the loss. -/
theorem session_lost_iff (serde : Serde) {d : Duplex} {front back : List (List UInt8 × Clock)}
    {bytes : List UInt8} {now : Clock} {s : Session}
    (hbefore : (d.feeds serde front).accepted = false)
    (hsession : (d.feeds serde (front ++ [(bytes, now)])).session = some s)
    (hvalid : s.valid = true) :
    (∃ s₀ p f, (d.feeds serde front).session = some s₀ ∧ (d.feeds serde front).pending = some p ∧
      Acknowledges serde s₀ p bytes now f) ∧
    ((d.feeds serde (front ++ (bytes, now) :: back)).accepted = false ↔
      ∃ b, .raw b ∈ heard s.decoder (back.map Prod.fst)) ∧
    ∀ quiet last later, back = quiet ++ last :: later →
      (∀ b, .raw b ∉ heard s.decoder (quiet.map Prod.fst)) →
      (∃ b, .raw b ∈ heard s.decoder (quiet.map Prod.fst ++ [last.1])) →
      ∃ e, ((d.feeds serde (front ++ (bytes, now) :: quiet)).feed serde last.1 last.2).2.2 =
        .error e := by
  rw [feeds_append, feeds_cons, feeds_nil] at hsession
  have hafter : ((d.feeds serde front).feed serde bytes now).1.accepted = true :=
    (accepted_of_session hsession).trans hvalid
  obtain ⟨hpending, hacknowledged⟩ := feed_accepts hbefore hafter
  refine ⟨hacknowledged, ?_, fun quiet last later _ hquiet hraw => ?_⟩
  · rw [feeds_append, feeds_cons]
    exact feeds_accepted_iff hsession hvalid hpending
  · rw [feeds_append, feeds_cons]
    exact feeds_reports hsession hvalid hpending hquiet hraw

def greeted : Duplex where
  session := some { nonce := 1 }
  pending := some { key := "connect", deadline := 10, kind := helloAck, request := 0 }

def welcome : Frame where
  kind := helloAck
  session := 1
  request := 0
  payload := ascii "\x7b\"protocol\":1\x7d"

/-- The byte behind the acknowledgement leaves the session valid. -/
theorem session_survives :
    (∃ s p, greeted.session = some s ∧ greeted.pending = some p ∧
      Acknowledges statusSerde s p (welcome.wire ++ [0x41]) (fun _ => 0) welcome ∧
      (s.decoder.feed (welcome.wire ++ [0x41])).2 = [.frame welcome, .raw [0x41]]) ∧
    (greeted.feeds statusSerde [(welcome.wire ++ [0x41], fun _ => 0)]).accepted = true := by
  have hitems : (Decoder.feed {} (welcome.wire ++ [0x41])).2 =
      [.frame welcome, .raw [0x41]] := by decide +kernel
  have hjson : statusSerde.fromSlice welcome.payload =
      .ok (.object [("protocol", .number (.posInt 1))]) := rfl
  refine ⟨⟨{ nonce := 1 }, _, rfl, rfl, ⟨rfl, by decide, ?_, rfl, rfl, rfl, _, hjson, rfl⟩,
    hitems⟩, by decide +kernel⟩
  rw [hitems]
  exact List.mem_cons_self

/-- In the next read it ends the session. -/
theorem session_ends :
    (greeted.feeds statusSerde [(welcome.wire, fun _ => 0), ([0x41], fun _ => 0)]).accepted =
      false := by
  have hdecoder : (greeted.feeds statusSerde [(welcome.wire, fun _ => 0)]).session.map
      Session.decoder = some { inFrame := true } := by decide +kernel
  obtain ⟨s, hsession, hs⟩ := Option.map_eq_some_iff.mp hdecoder
  have hvalid : s.valid = true := by
    rw [← accepted_of_session hsession]
    decide +kernel
  have hbefore : (greeted.feeds statusSerde []).accepted = false := rfl
  have hiff : (greeted.feeds statusSerde ([] ++ (welcome.wire, fun _ => 0) ::
      [([0x41], fun _ => 0)])).accepted = false ↔ ∃ b, .raw b ∈ heard s.decoder [[0x41]] :=
    (session_lost_iff statusSerde hbefore hsession hvalid).2.1
  refine hiff.mpr ⟨0x41, ?_⟩
  rw [hs]
  decide +kernel

end Duplex
end IdfRemote
