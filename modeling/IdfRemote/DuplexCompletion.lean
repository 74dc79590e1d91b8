import IdfRemote.Duplex
import IdfRemote.Obligations

/-!
# Every started key is completed once

The duties of the scheduler are obligations: a successful start takes one on, and a
completion discharges it. Each function keeps the books balanced, also when it
fails, so that over any run no key is completed twice and none is lost.
-/
namespace IdfRemote
open Mux Application Obligations

/-- The duties that some completions discharge. -/
def Completion.discharges (done : List Completion) : List (String × Lane) :=
  done.map fun c => (c.key, c.lane)

@[simp] theorem Completion.discharges_nil : discharges [] = [] := rfl

@[simp] theorem Completion.discharges_cons (c : Completion) (done : List Completion) :
    discharges (c :: done) = (c.key, c.lane) :: discharges done := rfl

@[simp] theorem Completion.discharges_append (done more : List Completion) :
    discharges (done ++ more) = discharges done ++ discharges more := List.map_append

def Completion.keys (done : List Completion) : List String := done.map (·.key)

theorem Completion.keys_of_discharges (done : List Completion) :
    (discharges done).map Prod.fst = keys done := by
  simp [discharges, keys, Function.comp_def]

namespace Duplex
open Completion

def pendingDuties (d : Duplex) : List (String × Lane) :=
  d.pending.toList.map fun p => (p.key, .application)

/-- The duties of the writes in a queue of transfers. -/
def inputDuties (tx : List Transfer) : List (String × Lane) :=
  (tx.filter fun t => t.lane = .input).map fun t => (t.key, .input)

theorem duties_eq (d : Duplex) : d.duties = d.pendingDuties ++ inputDuties d.tx := rfl

theorem inputDuties_append (tx tx' : List Transfer) :
    inputDuties (tx ++ tx') = inputDuties tx ++ inputDuties tx' := by
  simp [inputDuties]

theorem inputDuties_application {t : Transfer} (ht : t.lane = .application) :
    inputDuties [t] = [] := by
  simp [inputDuties, ht]

theorem inputDuties_input {t : Transfer} (ht : t.lane = .input) :
    inputDuties [t] = [(t.key, .input)] := by
  simp [inputDuties, ht]

theorem inputDuties_cons (t : Transfer) (tx : List Transfer) :
    inputDuties (t :: tx) = inputDuties [t] ++ inputDuties tx :=
  inputDuties_append [t] tx

theorem inputDuties_congr {t u : Transfer} (hkey : t.key = u.key) (hlane : t.lane = u.lane) :
    inputDuties [t] = inputDuties [u] := by
  cases hl : u.lane with
  | application => rw [inputDuties_application hl, inputDuties_application (hlane.trans hl)]
  | input => rw [inputDuties_input hl, inputDuties_input (hlane.trans hl), hkey]

theorem prepare_keeps (serde : Serde) (d : Duplex) (command : Option Command) (nonce : UInt64) :
    (d.prepare serde command nonce).1.pending = d.pending ∧
      (d.prepare serde command nonce).1.tx = d.tx := by
  unfold prepare
  split
  · split
    · exact ⟨rfl, rfl⟩
    · split <;> exact ⟨rfl, rfl⟩
  · split_ifs <;> exact ⟨rfl, rfl⟩

/-- A request that starts is pending, with its frame behind every other transfer. -/
theorem startApplication_cases (serde : Serde) (d : Duplex) (key : String)
    (command : Option Command) (timeout : ℕ) (now : Clock) (nonce : UInt64) :
    (∃ e, (d.startApplication serde key command timeout now nonce).2 = .error e ∧
      (d.startApplication serde key command timeout now nonce).1.pending = d.pending ∧
      (d.startApplication serde key command timeout now nonce).1.tx = d.tx) ∨
    (d.pending = none ∧ (d.startApplication serde key command timeout now nonce).2 = .ok () ∧
      ∃ frame kind bytes,
        (d.prepare serde command nonce).2 = .ok (frame, kind) ∧ frame.encode = .ok bytes ∧
        (d.startApplication serde key command timeout now nonce).1 =
          { (d.prepare serde command nonce).1 with
            pending := some
              { key := key, deadline := now 0 + timeout, kind := kind, request := frame.request }
            tx := d.tx ++ [
              { key := key, lane := .application, deadline := now 0 + timeout, frames := [bytes],
                result := .null }] }) := by
  obtain ⟨hpending, htx⟩ := prepare_keeps serde d command nonce
  unfold startApplication
  split_ifs with hp
  · exact .inl ⟨_, rfl, rfl, rfl⟩
  · rw [Option.not_isSome_iff_eq_none] at hp
    split
    · next d' e hprep =>
      rw [hprep] at hpending htx
      exact .inl ⟨e, rfl, hpending, htx⟩
    · next d' frame kind hprep =>
      rw [hprep] at hpending htx
      cases henc : frame.encode with
      | error e => exact .inl ⟨e, rfl, hpending, htx⟩
      | ok bytes =>
          refine .inr ⟨hp, rfl, frame, kind, bytes, by rw [hprep], henc, ?_⟩
          rw [hprep]
          simp only [← htx]

theorem startInput_cases (d : Duplex) (key : String) (data : List UInt8) (timeout : ℕ)
    (result : Value) (now : Clock) :
    (∃ e, (d.startInput key data timeout result now).2 = .error e ∧
      (d.startInput key data timeout result now).1 = d) ∨
    (inputDuties d.tx = [] ∧ (d.startInput key data timeout result now).2 = .ok () ∧
      ∃ frames, d.inputFrames data = .ok frames ∧
        (d.startInput key data timeout result now).1 =
          { d with
            tx := d.tx ++ [
              { key := key, lane := .input, deadline := now 0 + timeout, frames := frames,
                result := result }] }) := by
  unfold startInput
  split_ifs with hinput
  · exact .inl ⟨_, rfl, rfl⟩
  · cases hframes : d.inputFrames data with
    | error e => exact .inl ⟨e, rfl, rfl⟩
    | ok frames =>
        refine .inr ⟨?_, rfl, frames, rfl, rfl⟩
        rw [inputDuties, List.filter_eq_nil_iff.mpr, List.map_nil]
        simpa using hinput

theorem expire_tx (d : Duplex) (now : ℕ) : (d.expire now).1.tx = d.tx := by
  unfold expire
  split
  · rfl
  · split_ifs <;> rfl

theorem expire_conserves (d : Duplex) (now : ℕ) :
    d.duties = discharges (d.expire now).2 ++ (d.expire now).1.duties := by
  unfold expire
  split
  · rfl
  · next p hp =>
    split
    · simp [duties, hp, Completion.discharges]
    · rfl

theorem requeue_conserves (front : Transfer) (rest : List Transfer) :
    (inputDuties (front :: rest)).Perm
      (discharges (retire front) ++ inputDuties (requeue front front rest)) := by
  rw [inputDuties_cons]
  by_cases hdone : front.frames.isEmpty = true
  · cases hlane : front.lane with
    | application => simp [requeue, retire, hdone, hlane, inputDuties_application hlane]
    | input => simp [requeue, retire, hdone, hlane, inputDuties_input hlane]
  · have hretire : retire front = [] := if_neg fun h => hdone h.1
    rw [hretire, requeue, if_neg hdone]
    split_ifs
    · rw [inputDuties_append]
      exact List.perm_append_comm
    · rw [← inputDuties_cons]
      rfl

theorem Transfer.send_keeps {t u : Transfer} {io : Driver} (h : t.send io = .ok (some u)) :
    u.key = t.key ∧ u.lane = t.lane := by
  unfold Transfer.send at h
  split_ifs at h with hempty
  · cases h
    exact ⟨rfl, rfl⟩
  · split at h
    · cases h
    · cases h
      unfold Transfer.accept
      split_ifs <;> exact ⟨rfl, rfl⟩
    · split_ifs at h
      cases h

/-- A call of `tick` fails and changes nothing, writes nothing, or handles one write. -/
theorem tick_cases (d : Duplex) (now : Clock) (io : Driver) :
    (d.sent now io = none ∧ ∃ e, d.tick now io = (d, .error e)) ∨
    (d.sent now io = none ∧ ∃ t, d.tick now io = ((d.expire t).1, .ok (d.expire t).2)) ∨
    ∃ front front' rest t, d.sent now io = some (front, front') ∧ d.tx = front :: rest ∧
      front.send io = .ok (some front') ∧
      d.tick now io = ((expire { d with tx := requeue front' front' rest } t).1,
        .ok (retire front' ++ (expire { d with tx := requeue front' front' rest } t).2)) := by
  unfold tick sent
  by_cases hlate : d.late now = true
  · rw [if_pos hlate, if_pos hlate]
    exact .inl ⟨rfl, _, rfl⟩
  · rw [if_neg hlate, if_neg hlate]
    cases htx : d.tx with
    | nil => exact .inr (.inl ⟨rfl, _, rfl⟩)
    | cons front rest =>
        dsimp only
        cases hsend : front.send io with
        | error e => exact .inl ⟨rfl, e, rfl⟩
        | ok sent =>
            cases sent with
            | none => exact .inr (.inl ⟨rfl, _, rfl⟩)
            | some front' => exact .inr (.inr ⟨front, front', rest, _, rfl, rfl, hsend, rfl⟩)

theorem tick_conserves (d : Duplex) (now : Clock) (io : Driver) :
    (∃ e, (d.tick now io).2 = .error e ∧ (d.tick now io).1 = d) ∨
    ∃ done, (d.tick now io).2 = .ok done ∧
      d.duties.Perm (discharges done ++ (d.tick now io).1.duties) := by
  rcases tick_cases d now io with
      ⟨-, e, htick⟩ | ⟨-, t, htick⟩ | ⟨front, front', rest, t, -, htx, hsend, htick⟩
  · exact .inl ⟨e, by rw [htick], by rw [htick]⟩
  · rw [htick]
    exact .inr ⟨_, rfl, .of_eq (expire_conserves d t)⟩
  · rw [htick]
    refine .inr ⟨_, rfl, ?_⟩
    obtain ⟨hkey, hlane⟩ := Transfer.send_keeps hsend
    have hplace := requeue_conserves front' rest
    have hexpire := expire_conserves { d with tx := requeue front' front' rest } t
    rw [inputDuties_cons, inputDuties_congr hkey hlane, ← inputDuties_cons, ← htx] at hplace
    rw [duties_eq] at hexpire
    rw [duties_eq, discharges_append, List.append_assoc, ← hexpire]
    have hcomm : (d.pendingDuties ++ discharges (retire front')).Perm
        (discharges (retire front') ++ d.pendingDuties) := List.perm_append_comm
    have hswap := hcomm.append_right (inputDuties (requeue front' front' rest))
    rw [List.append_assoc, List.append_assoc] at hswap
    exact (hplace.append_left _).trans hswap

theorem items_unexpected (serde : Serde) (s : Session) (ds : List Decoded) (reset : Bool)
    {reply : Option (Result Value)} {reset' : Bool}
    (h : (s.items serde none ds none reset).2 = .ok (reply, reset')) : reply = none := by
  induction ds generalizing reset with
  | nil =>
      simp only [Session.items, Except.ok.injEq, Prod.mk.injEq] at h
      exact h.1.symm
  | cons item ds ih =>
      cases item with
      | raw data => exact ih _ h
      | corrupt => exact ih _ h
      | frame frame =>
          simp only [Session.items, Session.expects, Option.any_none, Bool.false_eq_true,
            if_false] at h
          split_ifs at h <;> exact ih _ h

theorem process_unexpected {serde : Serde} {s : Session} {bytes : List UInt8}
    {reply : Option (Result Value)} (h : (s.process serde bytes none).2.2 = .ok reply) :
    reply = none := by
  simp only [Session.process] at h
  generalize hitems : Session.items serde s none (s.decoder.feed bytes).2 none false = r at h
  obtain ⟨outputs, e | ⟨reply', reset⟩⟩ := r
  · cases h
  · have hnone := items_unexpected serde s _ _ (congrArg Prod.snd hitems)
    cases reset with
    | true => cases h
    | false =>
        cases h
        exact hnone

/-- A reply always belongs to the pending request: `feed` never unwraps an absent one. -/
theorem pending_of_reply {serde : Serde} {d : Duplex} {session : Session} {bytes : List UInt8}
    {now : ℕ} {reply : Result Value}
    (h : (session.process serde bytes (d.expected now)).2.2 = .ok (some reply)) :
    ∃ p, d.pending = some p ∧ now < p.deadline := by
  cases hp : d.expected now with
  | none =>
      rw [hp] at h
      cases process_unexpected h
  | some e =>
      unfold expected at hp
      cases hpending : d.pending with
      | none => simp [hpending] at hp
      | some p =>
          rw [hpending, Option.map_eq_some_iff] at hp
          obtain ⟨q, hq, -⟩ := hp
          obtain ⟨hq, hlive⟩ := Option.filter_eq_some_iff.mp hq
          exact ⟨q, hq, by simpa using hlive⟩

theorem feed_conserves (serde : Serde) (d : Duplex) (bytes : List UInt8) (now : Clock) :
    (∃ e, (d.feed serde bytes now).2.2 = .error e ∧ (d.feed serde bytes now).1.duties = d.duties) ∨
    ∃ done, (d.feed serde bytes now).2.2 = .ok done ∧
      d.duties = discharges done ++ (d.feed serde bytes now).1.duties := by
  unfold feed
  split
  · exact .inr ⟨_, rfl, expire_conserves d _⟩
  · next session hsession =>
    split
    · next e hprocess => exact .inl ⟨e, rfl, rfl⟩
    · next session' outputs hprocess =>
      exact .inr ⟨_, rfl, expire_conserves { d with session := some session' } _⟩
    · next session' outputs reply hprocess =>
      obtain ⟨p, hp, -⟩ := pending_of_reply (congrArg (·.2.2) hprocess)
      split
      · next hnone => simp [hnone] at hp
      · next q hq =>
        refine .inr ⟨_, rfl, ?_⟩
        have hexpire := expire_conserves
          { d with session := (conclude session' q reply).1, pending := none } (now 1)
        rw [discharges_cons, List.cons_append, ← hexpire]
        simp [duties, hq]

theorem feed_tx (serde : Serde) (d : Duplex) (bytes : List UInt8) (now : Clock) :
    (d.feed serde bytes now).1.tx = d.tx := by
  unfold feed
  split
  · exact expire_tx _ _
  · split
    · rfl
    · exact expire_tx _ _
    · split
      · rfl
      · exact expire_tx _ _

theorem abort_conserves (d : Duplex) (reason : String) :
    discharges (d.abort reason).2 = d.duties ∧ (d.abort reason).1.duties = [] := by
  simp [abort, Duplex.duties, Completion.discharges, List.map_map, Function.comp_def]

/-- Each call takes on and discharges duties without losing or repeating one. -/
theorem call_conserves (serde : Serde) (d : Duplex) (call : Call) :
    (d.duties ++ d.started serde call).Perm
      (discharges (d.completions serde call) ++ (d.after serde call).duties) := by
  cases call with
  | startApplication key command timeout nonce now =>
      rcases startApplication_cases serde d key command timeout now nonce with
          ⟨e, herr, hpending, htx⟩ | ⟨hp, hok, frame, kind, bytes, -, -, hstate⟩
      · simp [started, completions, after, herr, Duplex.duties, hpending, htx]
      · simp only [started, completions, after, hok, hstate, duties_eq, pendingDuties, hp,
          inputDuties_append, inputDuties_application]
        simp
  | startInput key data timeout result now =>
      rcases startInput_cases d key data timeout result now with
          ⟨e, herr, hstate⟩ | ⟨-, hok, frames, -, hstate⟩
      · simp [started, completions, after, herr, hstate]
      · simp [started, completions, after, hok, hstate, duties_eq, inputDuties_append,
          pendingDuties, inputDuties_input]
  | tick io now =>
      rcases tick_conserves d now io with ⟨e, herr, hstate⟩ | ⟨done, hok, hperm⟩
      · simp [started, completions, after, herr, hstate]
      · simpa [started, completions, after, hok] using hperm
  | feed bytes now =>
      rcases feed_conserves serde d bytes now with ⟨e, herr, hheld⟩ | ⟨done, hok, heq⟩
      · simp [started, completions, after, herr, hheld]
      · simp [started, completions, after, hok, heq]
  | abort reason =>
      obtain ⟨hdone, hheld⟩ := abort_conserves d reason
      simp [started, completions, after, hdone, hheld]

def ledger (serde : Serde) : Ledger Duplex Call String where
  next d call := d.after serde call
  taken d call := (d.started serde call).map Prod.fst
  discharged d call := keys (d.completions serde call)
  held := held
  conserve d call := by
    have h := (call_conserves serde d call).map Prod.fst
    rwa [List.map_append, List.map_append, keys_of_discharges] at h

theorem started_sublist (serde : Serde) (d : Duplex) (call : Call) :
    ((d.started serde call).map Prod.fst).Sublist call.startKey.toList := by
  cases call with
  | startApplication key command timeout nonce now =>
      simp only [started, Call.startKey, Option.toList_some]
      split
      · exact List.Sublist.refl _
      · exact List.nil_sublist _
  | startInput key data timeout result now =>
      simp only [started, Call.startKey, Option.toList_some]
      split
      · exact List.Sublist.refl _
      · exact List.nil_sublist _
  | _ => exact List.nil_sublist _

theorem allTaken_sublist (serde : Serde) (d : Duplex) (calls : List Call) :
    ((ledger serde).allTaken d calls).Sublist (calls.filterMap Call.startKey) := by
  induction calls generalizing d with
  | nil => exact List.Sublist.refl _
  | cons call calls ih =>
      have hcons : (call :: calls).filterMap Call.startKey =
          call.startKey.toList ++ calls.filterMap Call.startKey := by
        cases hkey : call.startKey <;> simp [hkey]
      rw [hcons]
      exact (started_sublist serde d call).append (ih _)

/-- A scheduler that starts empty, after some calls. -/
def runCalls (serde : Serde) (calls : List Call) : Duplex := (ledger serde).run {} calls

/-- The keys of the starts that succeeded. -/
def startedKeys (serde : Serde) (calls : List Call) : List String :=
  (ledger serde).allTaken {} calls

/-- The keys of all completions returned, in order. -/
def completedKeys (serde : Serde) (calls : List Call) : List String :=
  (ledger serde).allDischarged {} calls

/-- The books of a run, at the moment it has reached. -/
structure ExactlyOnce (serde : Serde) (calls : List Call) : Prop where
  completed_nodup : (completedKeys serde calls).Nodup
  completed_started : ∀ key ∈ completedKeys serde calls, key ∈ startedKeys serde calls
  held_iff : ∀ key, key ∈ (runCalls serde calls).held ↔
    key ∈ startedKeys serde calls ∧ key ∉ completedKeys serde calls
  abort_nodup : ∀ reason, (keys ((runCalls serde calls).abort reason).2).Nodup
  abort_iff : ∀ reason key, key ∈ keys ((runCalls serde calls).abort reason).2 ↔
    key ∈ startedKeys serde calls ∧ key ∉ completedKeys serde calls
  abort_clears : ∀ reason, ((runCalls serde calls).abort reason).1.hasPending = false ∧
    ((runCalls serde calls).abort reason).1.session = none

/-- Whatever the driver, the device and the clock do, also when calls fail. -/
theorem exactly_once (serde : Serde) (calls : List Call)
    (hkeys : (calls.filterMap Call.startKey).Nodup) : ExactlyOnce serde calls := by
  have hstart : (ledger serde).held {} = [] := rfl
  have hnodup : ((ledger serde).allTaken {} calls).Nodup :=
    (allTaken_sublist serde {} calls).nodup hkeys
  have hheld := (ledger serde).mem_held_iff hstart hnodup
  have habort : ∀ reason, keys ((runCalls serde calls).abort reason).2 =
      (runCalls serde calls).held := by
    intro reason
    rw [← keys_of_discharges, (abort_conserves (runCalls serde calls) reason).1]
    rfl
  constructor
  · exact (ledger serde).discharged_nodup hstart hnodup
  · exact fun key => (ledger serde).mem_taken_of_mem_discharged hstart
  · exact hheld
  · intro reason
    rw [habort]
    exact (ledger serde).held_nodup hstart hnodup
  · intro reason key
    rw [habort]
    exact hheld key
  · exact fun reason => ⟨rfl, rfl⟩

/-- A driver that takes all it is given. -/
def eager : Driver where
  write bytes := .ok bytes.length
  write_le h := by cases h; exact le_rfl

/-- No document is read or written by the calls below. -/
def silentSerde : Serde where
  toVec _ := .error (.msg "not serialized")
  fromSlice _ := .error (.msg "EOF while parsing a value at line 1 column 0")
  display _ := "null"

/-- A driver that takes a byte at a time. -/
def reluctant : Driver where
  write bytes := .ok (min 1 bytes.length)
  write_le h := by cases h; exact Nat.min_le_right ..

/-- A negotiation runs into its deadline, and then a write that is half done into its own. -/
theorem exactly_once_timeout :
    ExactlyOnce silentSerde
      [.startApplication "connect" none 5 7 fun _ => 0, .tick eager fun _ => 1,
        .tick eager fun _ => 6, .startInput "write" [0x68, 0x69] 9 .null fun _ => 7,
        .tick reluctant fun _ => 8, .tick reluctant fun _ => 16, .abort "closed"] :=
  exactly_once silentSerde _ (by decide)

end Duplex
end IdfRemote
