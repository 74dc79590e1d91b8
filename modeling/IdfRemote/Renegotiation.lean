import IdfRemote.MuxRoundTrip
import IdfRemote.ReplyMatching

/-!
# Negotiating again on an open stream

A connect replaces the session and with it the decoder, which starts outside a frame.
The device goes on sending whole frames. What the new decoder reads up to the next
delimiter is text for it, so what becomes of the frame in flight depends on where in
the stream the connect falls. Every output is traced to the item it was made of.
-/
namespace IdfRemote
open Mux Application Runs

/-- The outputs of the loop of `process`, each with the item that it comes from. -/
def Application.Session.sources (serde : Serde) (s : Session) (expected : Expected) :
    List Decoded → List (Output × Decoded)
  | [] => []
  | .raw data :: ds => (.console data, .raw data) :: sources serde s expected ds
  | .corrupt :: ds => (.corruptFrame, .corrupt) :: sources serde s expected ds
  | .frame frame :: ds =>
      if frame.session ≠ s.nonce then sources serde s expected ds
      else if expects expected frame then
        match serde.fromSlice frame.payload with
        | .error _ => []
        | .ok _ => sources serde s expected ds
      else if frame.kind = console then
        (.console frame.payload, .frame frame) :: sources serde s expected ds
      else if frame.kind = Mux.event then
        (match serde.fromSlice frame.payload with
          | .ok value => .event value
          | .error _ => .corruptFrame, .frame frame) :: sources serde s expected ds
      else sources serde s expected ds

theorem Application.Session.sources_outputs (serde : Serde) (s : Session) (expected : Expected)
    (ds : List Decoded) (reply : Option (Result Value)) (reset : Bool) :
    (s.sources serde expected ds).map Prod.fst = (s.items serde expected ds reply reset).1 := by
  induction ds generalizing reply reset with
  | nil => rfl
  | cons item ds ih =>
      cases item with
      | raw data => simp [sources, items, ih reply (reset || s.valid)]
      | corrupt => simp [sources, items, ih reply reset]
      | frame f =>
          cases hjson : serde.fromSlice f.payload with
          | error e =>
              simp only [sources, items, hjson]
              split_ifs <;> simp [ih reply reset]
          | ok value =>
              simp only [sources, items, hjson]
              split_ifs <;> first | exact ih _ reset | simp [ih reply reset]

theorem Application.Session.process_outputs (serde : Serde) (s : Session) (bytes : List UInt8)
    (expected : Expected) :
    (s.process serde bytes expected).2.1 =
      (s.items serde expected (s.decoder.feed bytes).2 none false).1 := by
  unfold process
  dsimp only
  split
  · next hitems => rw [hitems]
  · next hitems =>
    rw [hitems]
    split_ifs <;> rfl

theorem Application.Session.process_decoder (serde : Serde) (s : Session) (bytes : List UInt8)
    (expected : Expected) :
    (s.process serde bytes expected).1.decoder = (s.decoder.feed bytes).1 := by
  unfold process
  dsimp only
  split
  · rfl
  · split_ifs <;> rfl

namespace Duplex

/-- What a read emits, with the items it comes from. Without a session the bytes pass
as they are. -/
def sources (serde : Serde) (d : Duplex) : Call → List (Output × Decoded)
  | .feed bytes now =>
      match d.session with
      | none => [(.console bytes, .raw bytes)]
      | some s => s.sources serde (d.expected (now 0)) (s.decoder.feed bytes).2
  | _ => []

theorem sources_outputs (serde : Serde) (d : Duplex) (bytes : List UInt8) (now : Clock) :
    (d.sources serde (.feed bytes now)).map Prod.fst = (d.feed serde bytes now).2.1 := by
  unfold sources feed
  cases hs : d.session with
  | none => rfl
  | some s =>
      dsimp only
      rw [Session.sources_outputs serde s _ _ none false, ← Session.process_outputs]
      rcases hprocess : s.process serde bytes (d.expected (now 0)) with
        ⟨s', outputs, e | ⟨_ | reply⟩⟩ <;> dsimp only
      cases d.pending <;> rfl

/-- The bytes received in a run. -/
def received (calls : List Call) : List UInt8 :=
  calls.flatMap fun call =>
    match call with
    | .feed bytes _ => bytes
    | _ => []

/-- The connect branch of `start_application` replaces the session. -/
def replaces (d : Duplex) : Call → Bool
  | .startApplication _ none _ _ _ => d.pending.isNone && d.tx.isEmpty
  | _ => false

/-- Console output is the payload of a CONSOLE frame of the stream. -/
def framed (fs : List Frame) (source : Output × Decoded) : Prop :=
  ∀ data, source.1 = .console data → data ≠ [] →
    ∃ f ∈ fs, source.2 = .frame f ∧ f.kind = console ∧ f.payload = data

def Framed (serde : Serde) (fs : List Frame) (d : Duplex) (calls : List Call) : Prop :=
  ∀ source ∈ Runs.collect (Duplex.after serde) (sources serde) d calls, framed fs source

/-- Where a session is replaced, the next byte is a delimiter; and bytes are received in
a session. -/
def Aligned (serde : Serde) : Duplex → List Call → Prop
  | _, [] => True
  | d, call :: calls =>
      (d.replaces call = true → ∀ b ∈ (received calls).head?, b = 0x7e) ∧
      (received [call] ≠ [] → d.session.isSome = true) ∧
      Aligned serde (d.after serde call) calls

end Duplex

namespace Mux.Decoder

/-- A stream at the border of two frames, or one delimiter before it. -/
def Boundary (fs : List Frame) (rest : List UInt8) : Prop :=
  ∃ gs, gs ⊆ fs ∧ (rest = gs.flatMap Frame.wire ∨ rest = 0x7e :: gs.flatMap Frame.wire)

/-- A decoder that has read the part `u` of a frame behind its first delimiter. -/
structure Inside (fs : List Frame) (d : Decoder) (rest : List UInt8) (f : Frame)
    (u v : List UInt8) (gs : List Frame) : Prop where
  member : f ∈ fs
  later : gs ⊆ fs
  split : f.body.flatMap escapeByte ++ [0x7e] = u ++ v
  unfinished : v ≠ []
  decoder : d = (machine.run synced u).1
  rest : rest = v ++ gs.flatMap Frame.wire

/-- A decoder in step with the frames of the stream. -/
def Follows (fs : List Frame) (d : Decoder) (rest : List UInt8) : Prop :=
  ((d = {} ∨ d = synced) ∧ Boundary fs rest) ∨ ∃ f u v gs, Inside fs d rest f u v gs

variable {fs : List Frame}

theorem delimiter_not_mem (bytes : List UInt8) : 0x7e ∉ bytes.flatMap escapeByte := by
  intro h
  obtain ⟨b, -, hb⟩ := List.mem_flatMap.mp h
  unfold escapeByte at hb
  split_ifs at hb with hspecial
  · rcases hspecial with rfl | rfl <;> revert hb <;> decide
  · simp only [List.mem_singleton] at hb
    exact hspecial (.inl hb.symm)

/-- Behind its first delimiter, a frame is read by the decoder on its own. -/
theorem run_behind {f : Frame} (hf : f.Encodable) :
    machine.run synced (f.body.flatMap escapeByte ++ [0x7e]) = (synced, [.frame f]) := by
  have hwf : synced.WellFormed := fun h => absurd h (by simp [synced])
  have hwire := run_wire hf hwf
  have hfirst : machine.step synced 0x7e = (synced, []) := by
    rw [step_delimiter hwf]
    rfl
  rw [Frame.wire, List.cons_append, StreamMachine.Machine.run_cons, hfirst] at hwire
  change (_, [] ++ _) = (synced, [] ++ _) at hwire
  simpa using hwire

theorem step_quiet {d : Decoder} (h : d = {} ∨ d = synced) :
    machine.step d 0x7e = (synced, []) := by
  rcases h with rfl | rfl
  · exact step_delimiter wellFormed_default
  · exact step_delimiter fun h => absurd h (by simp [synced])

theorem Inside.step (hfs : ∀ f ∈ fs, f.Encodable) {d : Decoder} {b : UInt8} {f : Frame}
    {rest u v : List UInt8} {gs : List Frame} (h : Inside fs d (b :: rest) f u v gs) :
    Follows fs (machine.step d b).1 rest ∧ ∀ e ∈ (machine.step d b).2, e = .frame f := by
  obtain ⟨c, v, rfl⟩ := List.exists_cons_of_ne_nil h.unfinished
  obtain ⟨rfl, hrest⟩ := List.cons.inj h.rest
  have hrun := run_behind (hfs f h.member)
  have hu : machine.step d b = ((machine.run synced (u ++ [b])).1, (machine.step d b).2) := by
    rw [StreamMachine.Machine.run_append, ← h.decoder]
    simp
  rw [h.split, StreamMachine.Machine.run_append, StreamMachine.Machine.run_cons, ← h.decoder,
    Prod.mk.injEq] at hrun
  constructor
  · cases v with
    | nil => exact .inl ⟨.inr hrun.1, gs, h.later, .inl (by simpa using hrest)⟩
    | cons c v =>
        refine .inr ⟨f, u ++ [b], c :: v, gs, h.member, h.later, ?_, by simp, ?_, hrest⟩
        · rw [h.split]
          simp
        · rw [hu]
  · intro e he
    have hmem : e ∈ [Event.frame f] := by
      rw [← hrun.2]
      exact List.mem_append_right _ (List.mem_append_left _ he)
    exact List.mem_singleton.mp hmem

/-- One byte keeps the decoder in step, and yields at most a frame of the stream. -/
theorem Follows.step (hfs : ∀ f ∈ fs, f.Encodable) {d : Decoder} {b : UInt8} {rest : List UInt8}
    (h : Follows fs d (b :: rest)) :
    Follows fs (machine.step d b).1 rest ∧
      ∀ e ∈ (machine.step d b).2, ∃ f ∈ fs, e = .frame f := by
  rcases h with ⟨hquiet, gs, hgs, hstream | hstream⟩ | ⟨f, u, v, gs, hinside⟩
  · cases gs with
    | nil => cases hstream
    | cons g gs =>
        obtain ⟨rfl, hrest⟩ := List.cons.inj hstream
        obtain ⟨hg, hgs⟩ := List.cons_subset.mp hgs
        rw [step_quiet hquiet]
        refine ⟨.inr ⟨g, [], g.body.flatMap escapeByte ++ [0x7e], gs, hg, hgs, rfl, by simp, rfl,
          hrest⟩, by simp⟩
  · obtain ⟨rfl, hrest⟩ := List.cons.inj hstream
    rw [step_quiet hquiet]
    exact ⟨.inl ⟨.inr rfl, gs, hgs, .inl hrest⟩, by simp⟩
  · obtain ⟨hfollows, hemit⟩ := hinside.step hfs
    exact ⟨hfollows, fun e he => ⟨f, hinside.member, hemit e he⟩⟩

theorem Follows.run (hfs : ∀ f ∈ fs, f.Encodable) {d : Decoder} {bytes rest : List UInt8}
    (h : Follows fs d (bytes ++ rest)) :
    Follows fs (machine.run d bytes).1 rest ∧
      ∀ e ∈ (machine.run d bytes).2, ∃ f ∈ fs, e = .frame f := by
  induction bytes generalizing d with
  | nil => exact ⟨h, by simp⟩
  | cons b bytes ih =>
      obtain ⟨hstep, hemit⟩ := h.step hfs
      obtain ⟨hrun, hrest⟩ := ih hstep
      refine ⟨hrun, fun e he => ?_⟩
      rcases List.mem_append.mp he with he | he
      · exact hemit e he
      · exact hrest e he

/-- In front of a delimiter the stream is at a border, whatever has been read. -/
theorem Follows.boundary {d : Decoder} {rest : List UInt8} (h : Follows fs d rest)
    (hdelimiter : ∀ b ∈ rest.head?, b = 0x7e) : Boundary fs rest := by
  rcases h with ⟨-, hboundary⟩ | ⟨f, u, v, gs, hinside⟩
  · exact hboundary
  · obtain ⟨b, v, rfl⟩ := List.exists_cons_of_ne_nil hinside.unfinished
    have hb : b = 0x7e := hdelimiter b (by rw [hinside.rest]; rfl)
    have hlast : v = [] := by
      rcases List.eq_nil_or_concat v with hv | ⟨w, x, hv⟩
      · exact hv
      · -- A delimiter before the last byte would stand in the escaped body.
        have hsplit := hinside.split
        rw [hv, List.concat_eq_append, ← List.cons_append, ← List.append_assoc] at hsplit
        have hbody := (List.append_inj' hsplit rfl).1
        have hmem : 0x7e ∈ f.body.flatMap escapeByte := by
          rw [hbody, hb]
          simp
        exact absurd hmem (delimiter_not_mem _)
    exact ⟨gs, hinside.later, .inr (by rw [hinside.rest, hlast, hb]; rfl)⟩

end Mux.Decoder

namespace Duplex
open Mux.Decoder

def decoder (d : Duplex) : Option Decoder := d.session.map Session.decoder

theorem decoder_expire (d : Duplex) (now : ℕ) :
    (d.expire now).1.decoder = none ∨ (d.expire now).1.decoder = d.decoder := by
  unfold expire
  split
  · exact .inr rfl
  · split_ifs
    · exact .inl rfl
    · exact .inr rfl
    · exact .inr rfl

theorem decoder_conclude (s : Session) (p : Pending) (reply : Result Value) :
    (conclude s p reply).1 = none ∨
      (conclude s p reply).1.map Session.decoder = some s.decoder := by
  unfold conclude
  split_ifs
  · cases reply with
    | error e => exact .inl rfl
    | ok info =>
        dsimp only
        unfold Session.acceptHello
        split_ifs
        · exact .inr rfl
        · exact .inl rfl
  · exact .inr rfl

/-- A read moves the decoder of the session, or ends the session. -/
theorem decoder_feed (serde : Serde) (d : Duplex) (bytes : List UInt8) (now : Clock) :
    (d.feed serde bytes now).1.decoder = none ∨
      (d.feed serde bytes now).1.decoder = d.decoder.map fun dec => (dec.feed bytes).1 := by
  unfold feed
  cases hsession : d.session with
  | none =>
      have hnone : d.decoder = none := by rw [decoder, hsession, Option.map_none]
      rw [hnone]
      rcases decoder_expire d (now 1) with h | h
      · exact .inl h
      · exact .inl (h.trans hnone)
  | some s =>
      have hd : d.decoder = some s.decoder := by rw [decoder, hsession, Option.map_some]
      have hmoved := s.process_decoder serde bytes (d.expected (now 0))
      rw [hd, Option.map_some]
      dsimp only
      generalize s.process serde bytes (d.expected (now 0)) = processed at hmoved
      rw [← hmoved]
      rcases processed with ⟨s', outputs, e | ⟨_ | reply⟩⟩
      · exact .inr rfl
      · exact decoder_expire { d with session := some s' } (now 1)
      · dsimp only
        cases d.pending with
        | none => exact .inr rfl
        | some p =>
            rcases decoder_expire
                { d with session := (conclude s' p reply).1, pending := none } (now 1) with h | h
            · exact .inl h
            · rcases decoder_conclude s' p reply with hnone | hsome
              · exact .inl (h.trans (by rw [decoder, hnone, Option.map_none]))
              · exact .inr (h.trans hsome)

theorem decoder_prepare (serde : Serde) (d : Duplex) (command : Command) (nonce : UInt64) :
    (d.prepare serde (some command) nonce).1.decoder = d.decoder := by
  unfold prepare
  dsimp only
  cases hsession : d.session with
  | none => rfl
  | some s =>
      dsimp only
      cases hrequest : s.prepareRequest serde command with
      | error e => rfl
      | ok made =>
          obtain ⟨next, frame⟩ := made
          have hnext := (Session.prepareRequest_ok hrequest).2.1
          simp [decoder, hsession, hnext]

/-- A start has the decoder of the session it has prepared, also when it fails later. -/
theorem decoder_startApplication (serde : Serde) (d : Duplex) (key : String)
    (command : Option Command) (timeout : ℕ) (now : Clock) (nonce : UInt64) :
    (d.startApplication serde key command timeout now nonce).1.decoder =
      if d.pending.isSome then d.decoder else (d.prepare serde command nonce).1.decoder := by
  unfold startApplication
  split_ifs with hpending
  · rfl
  · generalize d.prepare serde command nonce = prepared
    rcases prepared with ⟨d', e | ⟨frame, kind⟩⟩
    · rfl
    · dsimp only
      cases frame.encode <;> rfl

/-- Other calls keep the decoder, or end the session, unless they replace it. -/
theorem decoder_after (serde : Serde) (d : Duplex) {call : Call} (hread : received [call] = [])
    (hreplaces : d.replaces call = false) :
    (d.after serde call).decoder = none ∨ (d.after serde call).decoder = d.decoder := by
  cases call with
  | startApplication key command timeout nonce now =>
      have hprepared : d.pending = none →
          (d.prepare serde command nonce).1.decoder = d.decoder := by
        intro hpending
        cases command with
        | some command => exact decoder_prepare serde d command nonce
        | none =>
            have htx : d.tx.isEmpty = false := by simpa [replaces, hpending] using hreplaces
            simp [prepare, htx]
      refine .inr ?_
      rw [after, decoder_startApplication]
      split_ifs with hpending
      · rfl
      · exact hprepared (by simpa using hpending)
  | startInput key data timeout result now =>
      rcases startInput_cases d key data timeout result now with
          ⟨e, -, hstart⟩ | ⟨-, -, frames, -, hstart⟩
      · exact .inr (congrArg decoder hstart)
      · rw [after, hstart]
        exact .inr rfl
  | tick io now =>
      rcases tick_cases d now io with
          ⟨-, e, htick⟩ | ⟨-, t, htick⟩ | ⟨front, front', rest, t, -, -, -, htick⟩
      · exact .inr (congrArg (·.1.decoder) htick)
      · rw [after, htick]
        exact decoder_expire d t
      · rw [after, htick]
        exact decoder_expire { d with tx := requeue front' front' rest } t
  | feed bytes now =>
      have hbytes : bytes = [] := by simpa [received] using hread
      subst hbytes
      rcases decoder_feed serde d [] now with h | h
      · exact .inl h
      · refine .inr (h.trans ?_)
        cases d.decoder <;> rfl
  | abort reason => exact .inl rfl

theorem decoder_replaced (serde : Serde) {d : Duplex} {call : Call}
    (h : d.replaces call = true) : (d.after serde call).decoder = some {} := by
  unfold replaces at h
  split at h
  · next key timeout nonce now =>
    rw [Bool.and_eq_true, Option.isNone_iff_eq_none] at h
    rw [after, decoder_startApplication, h.1]
    simp [prepare, h.2, Session.beginConnect, decoder]
  · cases h

/-- The items of frames of the stream are emitted as console output only as payloads. -/
theorem framed_sources (serde : Serde) (s : Session) (expected : Expected) {fs : List Frame}
    {ds : List Decoded} (h : ∀ e ∈ ds.flatMap Decoded.events, ∃ f ∈ fs, e = .frame f) :
    ∀ source ∈ s.sources serde expected ds, framed fs source := by
  induction ds with
  | nil => simp [Session.sources]
  | cons item ds ih =>
      rw [List.flatMap_cons, List.forall_mem_append] at h
      have ih := ih h.2
      cases item with
      | raw data =>
          have hempty : data = [] := by
            cases data with
            | nil => rfl
            | cons b data =>
                obtain ⟨f, -, hf⟩ := h.1 (.raw b) (by simp [Decoded.events])
                cases hf
          rw [Session.sources, List.forall_mem_cons]
          refine ⟨fun data' hdata hne => ?_, ih⟩
          cases hdata
          exact absurd hempty hne
      | corrupt =>
          obtain ⟨f, -, hf⟩ := h.1 .corrupt (by simp [Decoded.events])
          cases hf
      | frame f =>
          obtain ⟨g, hg, hf⟩ := h.1 (.frame f) (by simp [Decoded.events])
          cases hf
          have hconsole : f.kind = console → framed fs (.console f.payload, .frame f) := by
            intro hkind data hdata _
            cases hdata
            exact ⟨f, hg, rfl, hkind, rfl⟩
          have hother : ∀ output, (∀ data, output ≠ .console data) →
              framed fs (output, .frame f) :=
            fun output hne data hdata => absurd hdata (hne data)
          rw [Session.sources]
          split
          · exact ih
          · split
            · split
              · simp
              · exact ih
            · split
              · next hkind => exact List.forall_mem_cons.mpr ⟨hconsole hkind, ih⟩
              · split
                · refine List.forall_mem_cons.mpr ⟨hother _ ?_, ih⟩
                  split <;> exact fun data h => by cases h
                · exact ih

theorem received_cons (call : Call) (calls : List Call) :
    received (call :: calls) = received [call] ++ received calls := by
  simp [received]

theorem framed_cons (serde : Serde) (fs : List Frame) (d : Duplex) (call : Call)
    (calls : List Call) :
    Framed serde fs d (call :: calls) ↔
      (∀ source ∈ d.sources serde call, framed fs source) ∧
        Framed serde fs (d.after serde call) calls := by
  simp only [Framed, Runs.collect, List.forall_mem_append]

theorem framed_quiet (serde : Serde) (fs : List Frame) (d : Duplex) {call : Call}
    (h : received [call] = []) : ∀ source ∈ d.sources serde call, framed fs source := by
  cases call with
  | feed bytes now =>
      have hbytes : bytes = [] := by simpa [received] using h
      subst hbytes
      unfold sources
      cases d.session with
      | none =>
          intro source hsource data hdata hne
          cases List.mem_singleton.mp hsource
          cases hdata
          exact absurd rfl hne
      | some s => simp [Decoder.feed, Decoder.Loop.flush, Session.sources]
  | _ => simp [sources]

theorem feed_of_received {call : Call} (h : received [call] ≠ []) :
    ∃ bytes now, call = .feed bytes now ∧ received [call] = bytes := by
  cases call with
  | feed bytes now => exact ⟨bytes, now, rfl, by simp [received]⟩
  | _ => simp [received] at h

/-- A decoder that starts in the middle of text puts the text out. -/
theorem feed_text {b : UInt8} (hb : b ≠ 0x7e) (bytes : List UInt8) :
    ∃ data ds, data ≠ [] ∧ (Decoder.feed {} (b :: bytes)).2 = .raw data :: ds := by
  have hevents := Decoder.feed_events {} (b :: bytes)
  have hne := Decoder.feedAll_ne_raw {} [b :: bytes]
  simp only [Decoder.feedAll, List.append_nil] at hne
  have hfirst : (Decoder.machine.run {} (b :: bytes)).2 =
      .raw b :: (Decoder.machine.run {} bytes).2 := by
    rw [StreamMachine.Machine.run_cons]
    simp [Decoder.machine, Decoder.step, Decoder.unframed, hb]
  rw [hfirst] at hevents
  cases hds : (Decoder.feed {} (b :: bytes)).2 with
  | nil => simp [hds] at hevents
  | cons item ds =>
      rw [hds] at hevents hne
      cases item with
      | frame f => simp [Decoded.events] at hevents
      | corrupt => simp [Decoded.events] at hevents
      | raw data =>
          refine ⟨data, ds, ?_, rfl⟩
          rintro rfl
          exact hne _ List.mem_cons_self rfl

theorem not_framed_raw (fs : List Frame) {data : List UInt8} (h : data ≠ []) :
    ¬ framed fs (.console data, .raw data) := by
  intro hframed
  obtain ⟨f, -, hf, -⟩ := hframed data rfl h
  cases hf

/-- Bytes inside a frame reach the console when no session, or a new one, receives them. -/
theorem not_framed_text (serde : Serde) (fs : List Frame) {d : Duplex}
    (hd : d.decoder = none ∨ d.decoder = some {}) {calls : List Call} {b : UInt8}
    {rest : List UInt8} (hreceived : received calls = b :: rest) (hb : b ≠ 0x7e) :
    ¬ Framed serde fs d calls := by
  induction calls generalizing d with
  | nil => cases hreceived
  | cons call calls ih =>
      rw [framed_cons]
      rintro ⟨hhere, hlater⟩
      rw [received_cons] at hreceived
      by_cases hread : received [call] = []
      · rw [hread, List.nil_append] at hreceived
        refine ih ?_ hreceived hlater
        cases hreplaces : d.replaces call with
        | true => exact .inr (decoder_replaced serde hreplaces)
        | false =>
            rcases decoder_after serde d hread hreplaces with h | h
            · exact .inl h
            · rw [h]
              exact hd
      · obtain ⟨bytes, now, rfl, hbytes⟩ := feed_of_received hread
        rw [hbytes] at hread hreceived
        obtain ⟨c, bytes, rfl⟩ := List.exists_cons_of_ne_nil hread
        obtain ⟨rfl, -⟩ := List.cons.inj hreceived
        unfold sources at hhere
        cases hsession : d.session with
        | none =>
            rw [hsession] at hhere
            exact not_framed_raw fs hread (hhere _ (List.mem_singleton_self _))
        | some s =>
            have hdecoder : s.decoder = {} := by
              simpa [decoder, hsession] using hd
            obtain ⟨data, ds, hdata, hitems⟩ := feed_text hb bytes
            rw [hsession] at hhere
            dsimp only at hhere
            rw [hdecoder, hitems, Session.sources] at hhere
            exact not_framed_raw fs hdata (hhere _ List.mem_cons_self)

/-- A decoder in step stays in step where the calls are aligned, and only there is
everything on the console payload. -/
theorem framed_iff_aligned (serde : Serde) {fs : List Frame} (hfs : ∀ f ∈ fs, f.Encodable)
    {d : Duplex} {calls : List Call} (hplace : ∃ dec, Follows fs dec (received calls))
    (hfollows : ∀ dec, d.decoder = some dec → Follows fs dec (received calls)) :
    Framed serde fs d calls ↔ Aligned serde d calls := by
  induction calls generalizing d with
  | nil => exact ⟨fun _ => trivial, fun _ => by simp [Framed, Runs.collect]⟩
  | cons call calls ih =>
      rw [framed_cons, Aligned]
      rw [received_cons] at hplace hfollows
      by_cases hread : received [call] = []
      · rw [hread, List.nil_append] at hplace hfollows
        have hquiet := framed_quiet serde fs d hread
        cases hreplaces : d.replaces call with
        | false =>
            have hnext := ih hplace (d := d.after serde call) fun dec hdec => by
              rcases decoder_after serde d hread hreplaces with h | h
              · cases h.symm.trans hdec
              · exact hfollows dec (h.symm.trans hdec)
            exact ⟨fun h => ⟨fun hnew => (by cases hnew), absurd hread, hnext.mp h.2⟩,
              fun h => ⟨hquiet, hnext.mpr h.2.2⟩⟩
        | true =>
            have hnew := decoder_replaced serde hreplaces
            by_cases hdelimiter : ∀ b ∈ (received calls).head?, b = 0x7e
            · have hnext := ih hplace (d := d.after serde call) fun dec hdec => by
                cases hnew.symm.trans hdec
                obtain ⟨_, hold⟩ := hplace
                exact .inl ⟨.inl rfl, hold.boundary hdelimiter⟩
              exact ⟨fun h => ⟨fun _ => hdelimiter, absurd hread, hnext.mp h.2⟩,
                fun h => ⟨hquiet, hnext.mpr h.2.2⟩⟩
            · have htext : ∃ b rest, received calls = b :: rest ∧ b ≠ 0x7e := by
                cases hreceived : received calls with
                | nil => exact absurd (by simp [hreceived]) hdelimiter
                | cons b rest => exact ⟨b, rest, rfl, by simpa [hreceived] using hdelimiter⟩
              obtain ⟨b, rest, hreceived, hb⟩ := htext
              have hleak := not_framed_text serde fs (.inr hnew) hreceived hb
              exact ⟨fun h => absurd h.2 hleak, fun h => absurd (h.1 rfl) hdelimiter⟩
      · obtain ⟨bytes, now, rfl, hbytes⟩ := feed_of_received hread
        have hne : bytes ≠ [] := hbytes ▸ hread
        rw [hbytes] at hplace hfollows
        cases hsession : d.session with
        | none =>
            have hraw : (.console bytes, .raw bytes) ∈ d.sources serde (.feed bytes now) := by
              simp [sources, hsession]
            exact ⟨fun h => absurd (h.1 _ hraw) (not_framed_raw fs hne),
              fun h => absurd (h.2.1 hread) (by simp)⟩
        | some s =>
            have hd : d.decoder = some s.decoder := by rw [decoder, hsession, Option.map_some]
            obtain ⟨hrun, hemit⟩ := (hfollows s.decoder hd).run hfs
            rw [← Decoder.feed_decoder] at hrun
            rw [← Decoder.feed_events] at hemit
            have hhere : ∀ source ∈ d.sources serde (.feed bytes now), framed fs source := by
              simp only [sources, hsession]
              exact framed_sources serde s _ hemit
            have hnext := ih (d := d.after serde (.feed bytes now)) ⟨_, hrun⟩ fun dec hdec => by
              rcases decoder_feed serde d bytes now with h | h
              · cases h.symm.trans hdec
              · rw [hd, Option.map_some] at h
                cases h.symm.trans hdec
                exact hrun
            exact ⟨fun h => ⟨fun hnew => (by cases hnew), fun _ => rfl, hnext.mp h.2⟩,
              fun h => ⟨hhere, hnext.mpr h.2.2⟩⟩

/-- While a stream of whole frames is received, in any reads and with any other calls in
between, the console shows payloads of CONSOLE frames and nothing else exactly when every
new session begins at a delimiter and bytes are received in a session. -/
theorem renegotiation_framed_iff (serde : Serde) {d : Duplex}
    (hborder : ∀ dec, d.decoder = some dec → dec = {} ∨ dec = synced)
    {fs : List Frame} {ws : List (List UInt8)}
    (hencode : List.Forall₂ (fun f w => f.encode = .ok w) fs ws)
    {calls : List Call} (hstream : received calls = ws.flatten) :
    Framed serde fs d calls ↔ Aligned serde d calls := by
  obtain ⟨hfs, hflat⟩ := encode_forall₂ hencode
  have hboundary : Boundary fs (received calls) :=
    ⟨fs, fun _ h => h, .inl (hstream.trans hflat)⟩
  exact framed_iff_aligned serde hfs ⟨{}, .inl ⟨.inl rfl, hboundary⟩⟩
    fun dec hdec => .inl ⟨hborder dec hdec, hboundary⟩

def logFrame : Frame := { kind := console, session := 1, request := 0, payload := [0x41] }

def openDuplex : Duplex where
  session := some { nonce := 1, valid := true }

def mildSerde : Serde where
  toVec _ := .ok []
  fromSlice _ := .ok .null
  display _ := "null"

theorem logFrame_encode : List.Forall₂ (fun f w => f.encode = .ok w) [logFrame] [logFrame.wire] :=
  .cons (Frame.encode_eq_ok.mpr ⟨by decide, rfl⟩) .nil

/-- A connect behind the third byte of a frame: the rest of the frame is console output. -/
theorem renegotiation_leaks :
    received [.feed [0x7e, 1, 3] fun _ => 0, .startApplication "app" none 10 2 fun _ => 0,
        .feed (logFrame.wire.drop 3) fun _ => 0] = [logFrame.wire].flatten ∧
      ¬ Framed mildSerde [logFrame] openDuplex
        [.feed [0x7e, 1, 3] fun _ => 0, .startApplication "app" none 10 2 fun _ => 0,
          .feed (logFrame.wire.drop 3) fun _ => 0] := by
  constructor
  · decide +kernel
  · have hrest : received [.feed (logFrame.wire.drop 3) fun _ => 0] =
        1 :: logFrame.wire.drop 4 := by decide +kernel
    have hreplaces : (openDuplex.after mildSerde (.feed [0x7e, 1, 3] fun _ => 0)).replaces
        (.startApplication "app" none 10 2 fun _ => 0) = true := by decide
    rw [framed_cons, framed_cons]
    rintro ⟨-, -, hframed⟩
    exact not_framed_text mildSerde _ (.inr (decoder_replaced mildSerde hreplaces)) hrest
      (by decide) hframed

/-- A connect between two frames. -/
theorem renegotiation_between :
    Framed mildSerde [logFrame] openDuplex
      [.startApplication "app" none 10 2 fun _ => 0, .feed logFrame.wire fun _ => 0] := by
  have hborder : ∀ dec, openDuplex.decoder = some dec → dec = {} ∨ dec = synced := by
    rintro dec ⟨⟩
    exact .inl rfl
  have hstream : received [.startApplication "app" none 10 2 fun _ => 0,
      .feed logFrame.wire fun _ => 0] = [logFrame.wire].flatten := by simp [received]
  apply (renegotiation_framed_iff mildSerde hborder logFrame_encode hstream).mpr
  refine ⟨fun _ b hb => ?_, by simp [received], nofun, fun _ => rfl, trivial⟩
  have hhead : (received [.feed logFrame.wire fun _ => 0]).head? = some 0x7e := rfl
  rw [hhead] at hb
  exact (Option.some.inj hb).symm

end Duplex
end IdfRemote
