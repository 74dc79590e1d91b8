import IdfRemote.Duplex
import IdfRemote.MuxStream

/-!
# Responses and resets in one stream

A response and the unframed bytes of a reset may follow each other in the received
stream, and the driver cuts that stream into reads. `process` returns the reply of a
read only when the whole read has no unframed byte, so whether a response that came
first reaches its request depends on where the read ends in which it is complete.
-/
namespace IdfRemote.Duplex
open Mux Application

/-- What the decoder of a session reports of some reads, one after the other. -/
def heard (decoder : Decoder) (reads : List (List UInt8)) : List Mux.Event :=
  (Decoder.machine.run decoder reads.flatten).2

/-- A frame that answers a request in a session. -/
def isAnswer (nonce : UInt64) (request : UInt32) : Mux.Event → Bool
  | .frame f => f.session = nonce && (f.request = request && (f.kind = response || f.kind = error))
  | _ => false

/-- The completions of successive reads, up to the first failure. -/
def feedReads (serde : Serde) : Duplex → List (List UInt8 × Clock) → List Completion
  | _, [] => []
  | d, (bytes, now) :: reads =>
      match d.feed serde bytes now with
      | (d, _, .ok done) => done ++ feedReads serde d reads
      | (_, _, .error _) => []

/-- One response answers the request, and no unframed byte comes before it. -/
structure Answered (serde : Serde) (nonce : UInt64) (request : UInt32) (f : Frame) (value : Value)
    (events : List Mux.Event) : Prop where
  only : events.filter (isAnswer nonce request) = [.frame f]
  kind : f.kind = response
  json : serde.fromSlice f.payload = .ok value
  first : ∃ before after, events = before ++ .frame f :: after ∧ ∀ b, .raw b ∉ before

/-- The read that completes the response brings no unframed byte. -/
def Undisturbed (decoder : Decoder) (f : Frame) (reads : List (List UInt8)) : Prop :=
  ∃ before last after, reads = before ++ last :: after ∧
    .frame f ∉ heard decoder before ∧ .frame f ∈ heard decoder (before ++ [last]) ∧
    ∀ b, .raw b ∉ heard decoder (before ++ [last])

theorem heard_cons (decoder : Decoder) (bytes : List UInt8) (reads : List (List UInt8)) :
    heard decoder (bytes :: reads) =
      (decoder.feed bytes).2.flatMap Decoded.events ++ heard (decoder.feed bytes).1 reads := by
  rw [heard, heard, List.flatten_cons, StreamMachine.Machine.run_append, Decoder.feed_decoder,
    Decoder.feed_events]

def isRaw : Decoded → Bool
  | .raw _ => true
  | _ => false

/-- The items among which `process` finds the answer. -/
def answers (nonce : UInt64) (request : UInt32) (ds : List Decoded) : List Mux.Event :=
  (ds.flatMap Decoded.events).filter (isAnswer nonce request)

@[simp] theorem answers_nil (nonce : UInt64) (request : UInt32) : answers nonce request [] = [] :=
  rfl

@[simp] theorem answers_raw (nonce : UInt64) (request : UInt32) (data : List UInt8)
    (ds : List Decoded) : answers nonce request (.raw data :: ds) = answers nonce request ds := by
  simp [answers, Decoded.events, isAnswer]

@[simp] theorem answers_corrupt (nonce : UInt64) (request : UInt32) (ds : List Decoded) :
    answers nonce request (.corrupt :: ds) = answers nonce request ds := by
  simp [answers, Decoded.events, isAnswer]

theorem answers_frame (nonce : UInt64) (request : UInt32) (f : Frame) (ds : List Decoded) :
    answers nonce request (.frame f :: ds) =
      if isAnswer nonce request (.frame f) then .frame f :: answers nonce request ds
      else answers nonce request ds := by
  simp [answers, Decoded.events, List.filter_cons]

theorem items_skipped (serde : Serde) (s : Session) {request : UInt32} {f : Frame}
    (h : isAnswer s.nonce request (.frame f) = false) (ds : List Decoded)
    (reply : Option (Result Value)) (reset : Bool) :
    (s.items serde (some (response, request)) (.frame f :: ds) reply reset).2 =
      (s.items serde (some (response, request)) ds reply reset).2 := by
  have hexpects : f.session = s.nonce →
      Session.expects (some (response, request)) f = false := by
    intro hmine
    simpa [isAnswer, hmine, Session.expects] using h
  rw [Session.items]
  split
  · rfl
  · rename_i hmine
    rw [if_neg (by simp [hexpects (not_not.mp hmine)])]
    split
    · rfl
    · split <;> rfl

theorem items_replied (serde : Serde) (s : Session) {request : UInt32} {f : Frame} {value : Value}
    (h : isAnswer s.nonce request (.frame f) = true) (hkind : f.kind = response)
    (hjson : serde.fromSlice f.payload = .ok value) (ds : List Decoded)
    (reply : Option (Result Value)) (reset : Bool) :
    s.items serde (some (response, request)) (.frame f :: ds) reply reset =
      s.items serde (some (response, request)) ds (some (.ok value)) reset := by
  simp only [isAnswer, Bool.and_eq_true, decide_eq_true_eq] at h
  have hexpects : Session.expects (some (response, request)) f = true := by
    simp [Session.expects, h.2.1, hkind]
  have hne : f.kind ≠ error := by rw [hkind]; decide
  rw [Session.items, if_neg (not_not.mpr h.1), if_pos hexpects, hjson]
  simp [hne]

/-- The loop of `process` keeps its reply where no answer is left, and notes a reset. -/
theorem items_no_answer (serde : Serde) (s : Session) {request : UInt32} {ds : List Decoded}
    (reply : Option (Result Value)) (reset : Bool) (h : answers s.nonce request ds = []) :
    (s.items serde (some (response, request)) ds reply reset).2 =
      .ok (reply, reset || (s.valid && ds.any isRaw)) := by
  induction ds generalizing reset with
  | nil => simp [Session.items]
  | cons d ds ih =>
      cases d with
      | raw data =>
          rw [Session.items, ih _ (by simpa using h)]
          cases reset <;> cases s.valid <;> simp [isRaw]
      | corrupt =>
          rw [Session.items, ih _ (by simpa using h)]
          simp [isRaw]
      | frame f =>
          rw [answers_frame] at h
          split_ifs at h with hf
          rw [items_skipped serde s (by simpa using hf), ih reset h]
          simp [isRaw]

/-- The answer of a read is its reply. -/
theorem items_answer (serde : Serde) (s : Session) {request : UInt32} {ds : List Decoded}
    {f : Frame} {value : Value} (reply : Option (Result Value)) (reset : Bool)
    (h : answers s.nonce request ds = [.frame f]) (hkind : f.kind = response)
    (hjson : serde.fromSlice f.payload = .ok value) :
    (s.items serde (some (response, request)) ds reply reset).2 =
      .ok (some (.ok value), reset || (s.valid && ds.any isRaw)) := by
  induction ds generalizing reset with
  | nil => simp at h
  | cons d ds ih =>
      cases d with
      | raw data =>
          rw [Session.items, ih _ (by simpa using h)]
          cases reset <;> cases s.valid <;> simp [isRaw]
      | corrupt =>
          rw [Session.items, ih _ (by simpa using h)]
          simp [isRaw]
      | frame g =>
          rw [answers_frame] at h
          split_ifs at h with hg
          · obtain ⟨hgf, hrest⟩ := List.cons.inj h
            cases hgf
            rw [items_replied serde s hg hkind hjson, items_no_answer serde s _ _ hrest]
            simp [isRaw]
          · rw [items_skipped serde s (by simpa using hg), ih reset h]
            simp [isRaw]

section Feed
variable (serde : Serde) {d : Duplex} {s : Session} {p : Pending} {bytes : List UInt8}
  {now : Clock}

theorem expected_before (hpending : d.pending = some p) (hkind : p.kind = response)
    (hnow : now 0 < p.deadline) : d.expected (now 0) = some (response, p.request) := by
  simp [expected, hpending, hnow, hkind, Option.filter]

theorem expire_before {d : Duplex} (hpending : d.pending = some p) {t : ℕ}
    (ht : t < p.deadline) : d.expire t = (d, []) := by
  simp [expire, hpending, ht]

/-- A read without an answer and without unframed bytes moves the decoder only. -/
theorem feed_quiet (hsession : d.session = some s) (hpending : d.pending = some p)
    (hkind : p.kind = response) (hnow : now 0 < p.deadline ∧ now 1 < p.deadline)
    (hraw : (s.decoder.feed bytes).2.any isRaw = false)
    (h : answers s.nonce p.request (s.decoder.feed bytes).2 = []) :
    ∃ outputs, d.feed serde bytes now =
      ({ d with session := some { s with decoder := (s.decoder.feed bytes).1 } }, outputs,
        .ok []) := by
  have hitems := items_no_answer serde s none false h
  rw [hraw, Bool.and_false, Bool.or_false] at hitems
  rcases hr : s.items serde (some (response, p.request)) (s.decoder.feed bytes).2 none false
    with ⟨outputs, result⟩
  rw [hr] at hitems
  cases hitems
  refine ⟨outputs, ?_⟩
  have hexpire := expire_before (p := p) (t := now 1)
    (d := { d with session := some { s with decoder := (s.decoder.feed bytes).1 } }) hpending
    hnow.2
  simp only [feed, hsession, expected_before hpending hkind hnow.1, Session.process, hr,
    Bool.false_eq_true, if_false, hexpire]

/-- A read with the answer and without unframed bytes completes the request. -/
theorem feed_answer (hsession : d.session = some s) (hpending : d.pending = some p)
    (hkind : p.kind = response) (hnow : now 0 < p.deadline)
    (hraw : (s.decoder.feed bytes).2.any isRaw = false) {f : Frame} {value : Value}
    (h : answers s.nonce p.request (s.decoder.feed bytes).2 = [.frame f])
    (hf : f.kind = response) (hjson : serde.fromSlice f.payload = .ok value) :
    (d.feed serde bytes now).2.2 =
      .ok [{ key := p.key, lane := .application, result := .ok value }] := by
  have hitems := items_answer serde s none false h hf hjson
  rw [hraw, Bool.and_false, Bool.or_false] at hitems
  rcases hr : s.items serde (some (response, p.request)) (s.decoder.feed bytes).2 none false
    with ⟨outputs, result⟩
  rw [hr] at hitems
  cases hitems
  have hne : response ≠ helloAck := by decide
  simp [feed, hsession, expected_before hpending hkind hnow, Session.process, hr, hpending,
    conclude, hkind, hne, expire]

theorem feed_reset (hsession : d.session = some s) (hvalid : s.valid = true)
    (hpending : d.pending = some p) (hkind : p.kind = response) (hnow : now 0 < p.deadline)
    (hraw : (s.decoder.feed bytes).2.any isRaw = true) {f : Frame} {value : Value}
    (h : answers s.nonce p.request (s.decoder.feed bytes).2 = [.frame f])
    (hf : f.kind = response) (hjson : serde.fromSlice f.payload = .ok value) :
    ∃ e, (d.feed serde bytes now).2.2 = .error e := by
  have hitems := items_answer serde s none false h hf hjson
  rw [hraw, hvalid, Bool.and_true, Bool.or_true] at hitems
  rcases hr : s.items serde (some (response, p.request)) (s.decoder.feed bytes).2 none false
    with ⟨outputs, result⟩
  rw [hr] at hitems
  cases hitems
  refine ⟨.msg "application session ended by unframed output; connect again", ?_⟩
  simp [feed, hsession, expected_before hpending hkind hnow, Session.process, hr]

theorem feedReads_failed (h : ∃ e, (d.feed serde bytes now).2.2 = .error e)
    (reads : List (List UInt8 × Clock)) : feedReads serde d ((bytes, now) :: reads) = [] := by
  rw [feedReads]
  rcases hd : d.feed serde bytes now with ⟨d', outputs, result⟩
  rw [hd] at h
  obtain ⟨e, rfl⟩ := h
  rfl

end Feed

theorem feed_ne_raw (decoder : Decoder) (bytes : List UInt8) :
    ∀ d ∈ (decoder.feed bytes).2, d ≠ .raw [] := by
  have h := Decoder.feedAll_ne_raw decoder [bytes]
  simpa [Decoder.feedAll] using h

theorem any_isRaw_iff {ds : List Decoded} (h : ∀ d ∈ ds, d ≠ .raw []) :
    ds.any isRaw = false ↔ ∀ b, .raw b ∉ ds.flatMap Decoded.events := by
  induction ds with
  | nil => simp
  | cons d ds ih =>
      have ih := ih fun e he => h e (List.mem_cons_of_mem d he)
      cases d with
      | frame f => simpa [isRaw, Decoded.events] using ih
      | corrupt => simpa [isRaw, Decoded.events] using ih
      | raw data =>
          cases data with
          | nil => exact absurd rfl (h _ List.mem_cons_self)
          | cons b data =>
              simp only [List.any_cons, isRaw, Bool.true_or, Bool.true_eq_false, false_iff]
              exact fun hnone => hnone b (by simp [Decoded.events])

theorem heard_nil (decoder : Decoder) : heard decoder [] = [] := rfl

theorem heard_single (decoder : Decoder) (bytes : List UInt8) :
    heard decoder [bytes] = (decoder.feed bytes).2.flatMap Decoded.events := by
  rw [heard_cons, heard_nil, List.append_nil]

theorem undisturbed_later {decoder : Decoder} {f : Frame} {bytes : List UInt8}
    (hf : .frame f ∉ (decoder.feed bytes).2.flatMap Decoded.events)
    (hraw : ∀ b, .raw b ∉ (decoder.feed bytes).2.flatMap Decoded.events)
    (reads : List (List UInt8)) :
    Undisturbed decoder f (bytes :: reads) ↔ Undisturbed (decoder.feed bytes).1 f reads := by
  constructor
  · rintro ⟨before, last, after, heq, hnot, hin, hquiet⟩
    cases before with
    | nil =>
        obtain ⟨rfl, -⟩ := List.cons.inj heq
        rw [List.nil_append, heard_single] at hin
        exact absurd hin hf
    | cons first before =>
        obtain ⟨rfl, rfl⟩ := List.cons.inj heq
        simp only [List.cons_append, heard_cons, List.mem_append, not_or] at hnot hin hquiet
        exact ⟨before, last, after, rfl, hnot.2, hin.resolve_left hf, fun b => (hquiet b).2⟩
  · rintro ⟨before, last, after, rfl, hnot, hin, hquiet⟩
    refine ⟨bytes :: before, last, after, rfl, ?_, ?_, fun b => ?_⟩
    · simp only [heard_cons, List.mem_append, not_or]
      exact ⟨hf, hnot⟩
    · simp only [List.cons_append, heard_cons, List.mem_append]
      exact .inr hin
    · simp only [List.cons_append, heard_cons, List.mem_append, not_or]
      exact ⟨hraw b, hquiet b⟩

/-- The read that brings the response decides. -/
theorem undisturbed_now {decoder : Decoder} {f : Frame} {bytes : List UInt8}
    (hf : .frame f ∈ (decoder.feed bytes).2.flatMap Decoded.events) (reads : List (List UInt8)) :
    Undisturbed decoder f (bytes :: reads) ↔
      ∀ b, .raw b ∉ (decoder.feed bytes).2.flatMap Decoded.events := by
  constructor
  · rintro ⟨before, last, after, heq, hnot, -, hquiet⟩
    cases before with
    | nil =>
        obtain ⟨rfl, -⟩ := List.cons.inj heq
        simpa only [List.nil_append, heard_single] using hquiet
    | cons first before =>
        obtain ⟨rfl, rfl⟩ := List.cons.inj heq
        rw [heard_cons] at hnot
        exact absurd (List.mem_append_left _ hf) hnot
  · intro hquiet
    exact ⟨[], bytes, reads, rfl, by simp [heard_nil], by simpa [heard_single] using hf,
      by simpa [heard_single] using hquiet⟩

theorem mem_of_filter_eq {α : Type} {q : α → Bool} {xs : List α} {x : α}
    (h : xs.filter q = [x]) : x ∈ xs ∧ q x = true :=
  List.mem_filter.mp (h ▸ List.mem_singleton_self x)

/-- Until the response comes, the stream in front of it is free of unframed bytes. -/
theorem quiet_before {xs ys before after : List Mux.Event} {f : Frame}
    (heq : xs ++ ys = before ++ .frame f :: after) (hquiet : ∀ b, .raw b ∉ before)
    (hf : .frame f ∉ xs) :
    (∀ b, .raw b ∉ xs) ∧ ∃ before', ys = before' ++ .frame f :: after ∧ ∀ b, .raw b ∉ before' := by
  rcases List.append_eq_append_iff.mp heq with ⟨rest, rfl, rfl⟩ | ⟨rest, rfl, hrest⟩
  · exact ⟨fun b hb => hquiet b (List.mem_append_left _ hb), rest, rfl,
      fun b hb => hquiet b (List.mem_append_right _ hb)⟩
  · cases rest with
    | nil => exact ⟨by simpa using hquiet, [], by simpa using hrest.symm, by simp⟩
    | cons e rest =>
        obtain ⟨rfl, -⟩ := List.cons.inj hrest
        exact absurd (by simp) hf

/-- A response that comes before every unframed byte completes its request exactly when
the read that completes it brings no unframed byte. -/
theorem response_kept_iff (serde : Serde) {d : Duplex} {s : Session} {p : Pending}
    (hsession : d.session = some s) (hvalid : s.valid = true) (hpending : d.pending = some p)
    (hkind : p.kind = response) {reads : List (List UInt8 × Clock)}
    (hnow : ∀ read ∈ reads, read.2 0 < p.deadline ∧ read.2 1 < p.deadline)
    {f : Frame} {value : Value}
    (hanswer : Answered serde s.nonce p.request f value (heard s.decoder (reads.map Prod.fst))) :
    { key := p.key, lane := .application, result := .ok value } ∈ feedReads serde d reads ↔
      Undisturbed s.decoder f (reads.map Prod.fst) := by
  induction reads generalizing d s with
  | nil => exact absurd hanswer.only (by simp [heard_nil])
  | cons read reads ih =>
      obtain ⟨bytes, now⟩ := read
      have hread := hnow (bytes, now) List.mem_cons_self
      have hmine := (mem_of_filter_eq hanswer.only).2
      have hany := any_isRaw_iff (feed_ne_raw s.decoder bytes)
      have honly := hanswer.only
      rw [List.map_cons, heard_cons, List.filter_append] at honly
      rcases List.append_eq_singleton_iff.mp honly with ⟨hnone, hlater⟩ | ⟨hhere, -⟩
      · -- The response is still to come, and nothing unframed has come yet.
        have hf : .frame f ∉ (s.decoder.feed bytes).2.flatMap Decoded.events := by
          intro hmem
          have := List.mem_filter.mpr ⟨hmem, hmine⟩
          rw [hnone] at this
          cases this
        obtain ⟨before, after, heq, hquiet⟩ := hanswer.first
        rw [List.map_cons, heard_cons] at heq
        obtain ⟨hraw, hrest⟩ := quiet_before heq hquiet hf
        obtain ⟨outputs, hfeed⟩ := feed_quiet serde hsession hpending hkind hread
          (hany.mpr hraw) hnone
        obtain ⟨before', hsplit⟩ := hrest
        have hanswer' : Answered serde s.nonce p.request f value
            (heard (s.decoder.feed bytes).1 (reads.map Prod.fst)) :=
          ⟨hlater, hanswer.kind, hanswer.json, before', after, hsplit⟩
        rw [List.map_cons, undisturbed_later hf hraw, feedReads, hfeed]
        exact ih (s := { s with decoder := (s.decoder.feed bytes).1 }) rfl hvalid hpending
          (fun r hr => hnow r (List.mem_cons_of_mem _ hr)) hanswer'
      · have hf : .frame f ∈ (s.decoder.feed bytes).2.flatMap Decoded.events :=
          (mem_of_filter_eq hhere).1
        rw [List.map_cons, undisturbed_now hf, ← hany]
        cases hraw : (s.decoder.feed bytes).2.any isRaw with
        | false =>
            have hfeed := feed_answer serde hsession hpending hkind hread.1 hraw hhere
              hanswer.kind hanswer.json
            rw [feedReads]
            rcases hd : d.feed serde bytes now with ⟨d', outputs, result⟩
            rw [hd] at hfeed
            cases hfeed
            simp
        | true =>
            have hfeed := feed_reset serde hsession hvalid hpending hkind hread.1 hraw hhere
              hanswer.kind hanswer.json
            rw [feedReads_failed serde hfeed]
            simp

def nullSerde : Serde where
  toVec _ := .ok []
  fromSlice _ := .ok .null
  display _ := "null"

def pongFrame : Frame := { kind := response, session := 1, request := 1, payload := [0x7b, 0x7d] }

def pingDuplex : Duplex where
  session := some { nonce := 1, nextRequest := 2, valid := true }
  pending := some { key := "ping", deadline := 10, kind := response, request := 1 }

theorem pong_heard : heard {} [pongFrame.wire ++ [0x41]] = [.frame pongFrame, .raw 0x41] := by
  decide +kernel

theorem pong_answered : Answered nullSerde 1 1 pongFrame .null
    (heard {} [pongFrame.wire ++ [0x41]]) := by
  rw [pong_heard]
  exact ⟨rfl, rfl, rfl, [], [.raw 0x41], rfl, by simp⟩

/-- A response and one byte of a restarting device in one read: the response is lost. -/
theorem response_lost :
    Answered nullSerde 1 1 pongFrame .null (heard {} [pongFrame.wire ++ [0x41]]) ∧
      { key := "ping", lane := .application, result := .ok .null } ∉
        feedReads nullSerde pingDuplex [(pongFrame.wire ++ [0x41], fun _ => 0)] := by
  have hraw : ((Decoder.feed {} (pongFrame.wire ++ [0x41])).2).any isRaw = true := by
    decide +kernel
  have honly : answers 1 1 (Decoder.feed {} (pongFrame.wire ++ [0x41])).2 = [.frame pongFrame] := by
    have := pong_answered.only
    rwa [heard_single] at this
  have hfeed : ∃ e, (pingDuplex.feed nullSerde (pongFrame.wire ++ [0x41]) fun _ => 0).2.2 =
      .error e :=
    feed_reset nullSerde rfl rfl rfl rfl (by simp) hraw honly rfl rfl
  rw [feedReads_failed nullSerde hfeed]
  exact ⟨pong_answered, by simp⟩

/-- The same bytes in two reads: the response arrives. -/
theorem response_kept :
    { key := "ping", lane := .application, result := .ok .null } ∈
      feedReads nullSerde pingDuplex [(pongFrame.wire, fun _ => 0), ([0x41], fun _ => 0)] := by
  have hheard : heard {} [pongFrame.wire, [0x41]] = heard {} [pongFrame.wire ++ [0x41]] := by
    simp [heard]
  have hanswered : Answered nullSerde 1 1 pongFrame .null (heard {} [pongFrame.wire, [0x41]]) := by
    rw [hheard]
    exact pong_answered
  have hkept := @response_kept_iff nullSerde pingDuplex _ _ rfl rfl rfl rfl
    [(pongFrame.wire, fun _ => 0), ([0x41], fun _ => 0)] (by simp) pongFrame .null hanswered
  have hfirst : heard {} [pongFrame.wire] = [.frame pongFrame] := by decide +kernel
  apply hkept.mpr
  refine ⟨[], pongFrame.wire, [[0x41]], rfl, by simp [heard_nil], ?_, fun b => ?_⟩
  · exact hfirst ▸ List.mem_singleton_self _
  · change .raw b ∉ heard {} [pongFrame.wire]
    simp [hfirst]

end IdfRemote.Duplex
