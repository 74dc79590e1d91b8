import IdfRemote.StoreInvariant
import IdfRemote.Monitoring
import IdfRemote.Runs

/-!
# What a rejected submission forgets

A submission that finds its worker's channel closed or full has made room for its
operation by then, and the room stays when the operation is taken back. While fewer
than 64 operations have finished there is nothing to make room for. All other errors
come before the store is changed.
-/
namespace IdfRemote

/-- The operations, the request keys and the artifacts that a store keeps. -/
abbrev Ledger :=
  List Operation × (String → Option IdempotencyRecord) × (String → Option ArtifactRecord)

def Store.ledger (s : Store) : Ledger := (s.operations, s.idempotency, s.artifacts)

namespace Store
variable {s s' : Store}

theorem Touches.ledger (h : s.Touches s') : s'.ledger = s.ledger := by
  rw [h]
  rfl

theorem makeRoom_of_spent {fuel : ℕ} (h : s.spent ≤ 63) : s.makeRoom fuel = s := by
  cases fuel with
  | zero => rfl
  | succ fuel =>
      unfold spent at h
      rw [makeRoom, if_neg (by omega)]

theorem ledger_cleared_iff (host : Host) (device : DeviceId) (action : Action) :
    (s.cleared host device action).ledger = s.ledger ↔ s.spent ≤ 63 := by
  constructor
  · intro hsame
    have hroom : (s.cleared host device action).spent ≤ 63 := spent_makeRoom (le_refl _)
    have hoperations : (s.cleared host device action).operations = s.operations :=
      congrArg Prod.fst hsame
    rwa [spent, hoperations] at hroom
  · intro hroom
    have hoccupy : s.Touches (s.occupy host device action) := rfl
    have hspent : (s.occupy host device action).spent ≤ 63 := hroom
    rw [cleared, makeRoom_of_spent hspent, hoccupy.ledger]

theorem ledger_withdraw {host : Host} {device : DeviceId} {action : Action}
    {identity : RequestIdentity} {accepted : Store} {op : Operation} {devices : List DeviceId}
    {enqueued : List Enqueued} (hretained : Retained s devices enqueued)
    (hreplay : s.replay identity = .ok none)
    (haccept : s.accept host device action identity = .ok (accepted, op)) :
    (accepted.withdraw device action identity).ledger =
      (s.cleared host device action).ledger := by
  obtain ⟨-, rfl, rfl⟩ := accept_cases haccept
  rw [withdraw_push _ _ _ _ _ rfl (hretained.idempotency_cleared host _ _ hreplay)]
  rfl

end Store

namespace System
variable {host : Host} {s : System} {n : ℕ}

/-- A submission that gets as far as the hand-over of its job. -/
theorem admits_cases {sub : Submission} (h : s.admits host sub = true) :
    ∃ descriptor accepted op, sub.phase = .check descriptor ∧
      sub.precheck descriptor = .ok () ∧ s.store.replay sub.identity = .ok none ∧
      s.store.accept host sub.request.deviceId sub.action sub.identity = .ok (accepted, op) := by
  unfold admits at h
  split at h
  · next descriptor hphase =>
    rw [Bool.and_eq_true] at h
    obtain ⟨hprecheck, hstarts⟩ := h
    unfold starts at hstarts
    split at hstarts
    · next hreplay =>
      cases hcheck : sub.precheck descriptor with
      | error e =>
          rw [hcheck] at hprecheck
          cases hprecheck
      | ok u =>
          cases haccept : s.store.accept host sub.request.deviceId sub.action sub.identity with
          | error e =>
              rw [haccept] at hstarts
              cases hstarts
          | ok r => exact ⟨descriptor, r.1, r.2, hphase, hcheck, hreplay, rfl⟩
    · cases hstarts
  · cases h

theorem ledger_proceed {sub : Submission} (refresh : Refresh)
    (hadmits : s.admits host sub = false) :
    (s.proceed host sub refresh).1.store.ledger = s.store.ledger := by
  rcases s.proceed_cases host sub refresh with
      ⟨-, hp | ⟨descriptor, hp⟩ | ⟨availability, hp⟩⟩ | ⟨descriptor, hphase, hprecheck, hp⟩
  · rw [hp]
  · rw [hp]
    rfl
  · rw [hp]
    rfl
  · have hstarts : s.starts host sub = false := by
      rw [admits, hphase] at hadmits
      dsimp only at hadmits
      rwa [hprecheck] at hadmits
    rw [hp]
    rcases s.tryStart_cases host sub with ⟨result, hstart⟩ | ⟨accepted, op, hreplay, haccept, -⟩
    · rw [hstart]
    · rw [starts, hreplay, haccept] at hstarts
      cases hstarts

/-- What the hand-over of a job comes to. -/
theorem proceed_admits {sub : Submission} (refresh : Refresh) (h : s.admits host sub = true) :
    (s.hasRoom sub.request.deviceId = true ∧
      ∃ op, (s.proceed host sub refresh).2.phase = .done (.ok op)) ∨
    (s.hasRoom sub.request.deviceId = false ∧
      ∃ accepted op, s.store.replay sub.identity = .ok none ∧
        s.store.accept host sub.request.deviceId sub.action sub.identity = .ok (accepted, op) ∧
        (s.proceed host sub refresh).1.store =
          accepted.withdraw sub.request.deviceId sub.action sub.identity) := by
  obtain ⟨descriptor, accepted, op, hphase, hprecheck, hreplay, haccept⟩ := admits_cases h
  unfold proceed
  rw [hphase]
  dsimp only
  rw [hprecheck]
  dsimp only [tryStart]
  rw [hreplay]
  dsimp only
  rw [haccept]
  cases hroom : s.hasRoom sub.request.deviceId with
  | true => exact .inl ⟨rfl, op, rfl⟩
  | false => exact .inr ⟨rfl, accepted, op, rfl, rfl, rfl⟩

/-- The hand-over of this submission's job fails while 64 operations have finished. -/
def evicts (host : Host) (n : ℕ) (s : System) : Step → Bool
  | .advance m _ =>
      m = n && (s.submissions[n]?).any fun sub =>
        s.admits host sub && !s.hasRoom sub.request.deviceId && 64 ≤ s.store.spent
  | _ => false

/-- The ledger before and after each section of a submission. -/
def sections (host : Host) (n : ℕ) (s : System) : Step → List (Ledger × Ledger)
  | .advance m refresh =>
      if m = n then [(s.store.ledger, (s.advance host n refresh).store.ledger)] else []
  | _ => []

/-- A submission has got its operation. -/
def Granted (n : ℕ) (s : System) : Prop :=
  ∃ sub op, s.submissions[n]? = some sub ∧ sub.phase = .done (.ok op)

theorem submissions_work (host : Host) (s : System) (device : DeviceId) (i : Inputs) :
    (s.work host device i).submissions = s.submissions := by
  unfold work
  split_ifs
  · rfl
  · split
    · next instr rest htodo =>
      obtain ⟨decoder, bootReopenAt, runtimes, -, hexecute⟩ := s.execute_eq host device i instr rest
      rw [hexecute]
      rfl
    · unfold pass
      dsimp only
      split
      · rfl
      · split_ifs <;> rfl
      · split <;> rfl
      · rfl
      · rfl

theorem Granted.next (h : Granted n s) (hconsistent : s.Consistent) (step : Step) :
    Granted n (s.next host step) := by
  obtain ⟨sub, op, hsub, hphase⟩ := h
  have hlt : n < s.submissions.length := (List.getElem?_eq_some_iff.mp hsub).choose
  cases step with
  | submit request action identity =>
      refine ⟨sub, op, ?_, hphase⟩
      rw [System.next, List.getElem?_append_left hlt, hsub]
  | advance m refresh =>
      rcases s.advance_cases host m refresh with hsame | ⟨sub', hsub', hadvance⟩
      · rw [System.next, hsame]
        exact ⟨sub, op, hsub, hphase⟩
      · rw [System.next, hadvance]
        by_cases hm : m = n
        · subst hm
          cases hsub.symm.trans hsub'
          have hdone : s.proceed host sub refresh = (s, sub) := by
            unfold proceed
            rw [hphase]
          rw [hdone]
          exact ⟨sub, op, List.getElem?_set_self hlt, hphase⟩
        · have hkeeps := proceed_keeps host hconsistent (List.mem_of_getElem? hsub') refresh
          refine ⟨sub, op, ?_, hphase⟩
          dsimp only
          rw [hkeeps.submissions, List.getElem?_set_ne hm, hsub]
  | work device i =>
      refine ⟨sub, op, ?_, hphase⟩
      rw [System.next, submissions_work, hsub]
  | shutdown => exact ⟨sub, op, hsub, hphase⟩
  | discover descriptor =>
      refine ⟨sub, op, ?_, hphase⟩
      rw [System.next]
      rcases s.discover_cases descriptor with hold | ⟨-, hd⟩
      · rw [hold, hsub]
      · rw [hd, hsub]
  | describe device descriptor => exact ⟨sub, op, hsub, hphase⟩
  | setAvailability device availability =>
      refine ⟨sub, op, ?_, hphase⟩
      rw [System.next]
      split_ifs <;> exact hsub

theorem Granted.run (h : Granted n s) (hconsistent : s.Consistent) (steps : List Step) :
    Granted n (s.run host steps) := by
  induction steps generalizing s with
  | nil => exact h
  | cons step steps ih => exact ih (h.next hconsistent step) (hconsistent.next step)

/-- A section that does not grant the operation keeps the ledger unless it evicts. -/
theorem ledger_advance_iff (h : s.Consistent) {refresh : Refresh}
    (hnot : ¬ Granted n (s.next host (.advance n refresh))) :
    (s.advance host n refresh).store.ledger = s.store.ledger ↔
      s.evicts host n (.advance n refresh) = false := by
  cases hsub : s.submissions[n]? with
  | none =>
      have hsame : s.advance host n refresh = s := by
        unfold advance
        rw [hsub]
      simp [evicts, hsub, hsame]
  | some sub =>
      have hadvance : s.advance host n refresh =
          { (s.proceed host sub refresh).1 with
            submissions := (s.proceed host sub refresh).1.submissions.set n
              (s.proceed host sub refresh).2 } := by
        unfold advance
        rw [hsub]
      have hlt : n < s.submissions.length := (List.getElem?_eq_some_iff.mp hsub).choose
      have hkeeps := proceed_keeps host h (List.mem_of_getElem? hsub) refresh
      have hevicts : s.evicts host n (.advance n refresh) =
          (s.admits host sub && !s.hasRoom sub.request.deviceId && 64 ≤ s.store.spent) := by
        simp [evicts, hsub]
      rw [hevicts, hadvance]
      dsimp only
      cases hadmits : s.admits host sub with
      | false => simp [ledger_proceed refresh hadmits]
      | true =>
          rcases proceed_admits refresh hadmits with
              ⟨-, op, hgranted⟩ | ⟨hroom, accepted, op, hreplay, haccept, hstore⟩
          · refine absurd ⟨_, op, ?_, hgranted⟩ hnot
            rw [System.next, hadvance]
            dsimp only
            rw [hkeeps.submissions, List.getElem?_set_self hlt]
          · rw [hstore, Store.ledger_withdraw h.retained hreplay haccept,
              Store.ledger_cleared_iff, hroom]
            simp [Nat.lt_succ_iff]

theorem sections_kept_iff (h : s.Consistent) {step : Step}
    (hnot : ¬ Granted n (s.next host step)) :
    (∀ change ∈ s.sections host n step, change.2 = change.1) ↔
      s.evicts host n step = false := by
  cases step with
  | advance m refresh =>
      by_cases hm : m = n
      · subst hm
        rw [← ledger_advance_iff h hnot]
        simp [sections]
      · simp [sections, evicts, hm]
  | _ => simp [sections, evicts]

theorem kept_iff_of_consistent (h : s.Consistent) {steps : List Step}
    (hnot : ¬ Granted n (s.run host steps)) :
    (∀ change ∈ Runs.collect (next host) (sections host n) s steps, change.2 = change.1) ↔
      Runs.eachSafe (next host) (fun s step => !s.evicts host n step) s steps = true := by
  induction steps generalizing s with
  | nil => simp [Runs.collect, Runs.eachSafe]
  | cons step steps ih =>
      have hnext : (s.next host step).Consistent := h.next step
      have hstep : ¬ Granted n (s.next host step) := fun hgranted =>
        hnot (hgranted.run hnext steps)
      rw [Runs.collect, Runs.eachSafe, Bool.and_eq_true, Bool.not_eq_true', ← ih hnext hnot,
        ← sections_kept_iff h hstep]
      simp [List.mem_append, or_imp, forall_and]

/-- A command for an application that nobody has connected to. -/
def pinging (k : ℕ) : Submission where
  request := ⟨"dev-1", 115200, true⟩
  action := .application (some ⟨"ping", .null⟩) 1000
  identity := ⟨toString k, "f"⟩

def asks (s : System) (sub : Submission) : System :=
  { s with submissions := s.submissions ++ [sub] }

/-- A device after so many of these commands, which have all been refused by its worker. -/
structure Rested (k : ℕ) (s : System) : Prop where
  consistent : s.Consistent
  runtimes : s.runtimes = [("dev-1", monitored)]
  available : (s.store.devices "dev-1").status.availability = .available
  activity : (s.store.devices "dev-1").status.activity ≠ .monitoring
  app : (s.store.devices "dev-1").applicationPending = false
  input : (s.store.devices "dev-1").inputPending = false
  busy : (s.store.devices "dev-1").busy = false
  keys : s.store.operations.map (·.requestKey) = (List.range k).map toString
  finished : ∀ id, s.store.isRunning id = false
  submitted : s.submissions.length = k
  queue : s.queues "dev-1" = []

/-- The worker is at the head of its loop, and submissions are taken. -/
structure Waiting (k : ℕ) (s : System) : Prop extends Rested k s where
  running : s.running = true
  worker : s.workers "dev-1" = {}

variable {k : ℕ}

/-- What a submission of this command learns of the device. -/
def shown (s : System) : DeviceDescriptor :=
  { monitored with status := (s.store.devices "dev-1").status }

/-- The operation of a command that is refused. -/
def refusedOp (host : Host) (s : System) (k : ℕ) : Operation :=
  (s.store.occupy host "dev-1" (pinging k).action).started "dev-1" (pinging k).identity

theorem toString_inj {k j : ℕ} (h : toString k = toString j) : k = j := by
  have hlist := congrArg String.toList h
  simp only [Nat.toString_eq_repr, Nat.toList_repr] at hlist
  have hnumber := congrArg (Nat.ofDigitChars 10 · 0) hlist
  simpa only [Nat.ofDigitChars_ten_toDigits] using hnumber

theorem asks_advance (host : Host) {sub sub' : Submission} (refresh : Refresh)
    (h : (s.asks sub).proceed host sub refresh = (s.asks sub, sub')) :
    (s.asks sub).next host (.advance s.submissions.length refresh) = s.asks sub' := by
  have hsub : (s.asks sub).submissions[s.submissions.length]? = some sub := by simp [asks]
  rw [next, advance, hsub]
  dsimp only
  rw [h]
  simp [asks]

namespace Rested

theorem spent (h : Rested k s) : s.store.spent = k := by
  have hlength := congrArg List.length h.keys
  simp only [List.length_map, List.length_range] at hlength
  have hall : s.store.spent = s.store.operations.length := by
    apply List.countP_eq_length.mpr
    intro op hop
    have hnot := List.any_eq_false.mp (h.finished op.id) op hop
    simpa using hnot
  rw [hall, hlength]

theorem unused (h : Rested k s) : s.store.replay (pinging k).identity = .ok none := by
  have hnone : s.store.idempotency (toString k) = none := by
    rw [← Option.not_isSome_iff_eq_none, h.consistent.retained.isSome_idempotency, h.keys,
      List.mem_map]
    rintro ⟨j, hj, heq⟩
    have hlt := List.mem_range.mp hj
    rw [toString_inj heq] at hlt
    omega
  unfold Store.replay
  rw [show (pinging k).identity.key = toString k from rfl, hnone]

theorem setAvailability (h : Rested k s) (sub : Submission) :
    (s.asks sub).setAvailability "dev-1" .available = s.asks sub := by
  have hsame : (s.store.devices "dev-1").setAvailability .available = s.store.devices "dev-1" := by
    unfold DeviceState.setAvailability
    rw [← h.available]
  simp [System.setAvailability, Store.modifyDevice, asks, hsame]

theorem describe (h : Rested k s) (sub : Submission) :
    (s.asks sub).describe "dev-1" monitored = s.asks sub := by
  simp [System.describe, asks, h.runtimes]

theorem asking (h : Rested k s) :
    (List.replicate 6 (Step.advance k (.answer (.ok monitored)))).foldl (next host)
      (s.asks { pinging k with phase := .lookup }) = s.asks { pinging k with
        phase := .check (shown s) } := by
  have hstep := @asks_advance s host
  rw [h.submitted] at hstep
  have hlookup : (s.asks { pinging k with phase := .lookup }).proceed host
      { pinging k with phase := .lookup } (.answer (.ok monitored)) =
        (s.asks { pinging k with phase := .lookup },
          { pinging k with phase := .replay monitored }) := by
    simp [proceed, pinging, asks, h.runtimes]
  have hreplay : (s.asks { pinging k with phase := .replay monitored }).proceed host
      { pinging k with phase := .replay monitored } (.answer (.ok monitored)) =
        (s.asks { pinging k with phase := .replay monitored },
          { pinging k with phase := .monitor monitored }) := by
    have hunused := h.unused
    simp only [proceed, asks]
    rw [hunused]
    rfl
  have hmonitor : (s.asks { pinging k with phase := .monitor monitored }).proceed host
      { pinging k with phase := .monitor monitored } (.answer (.ok monitored)) =
        (s.asks { pinging k with phase := .monitor monitored },
          { pinging k with phase := .refresh }) := by
    have hnone : s.store.activeMonitorStatus "dev-1" = none := by
      simp [Store.activeMonitorStatus, h.activity, h.app, h.input]
    simp only [proceed, asks]
    rw [show (pinging k).request.deviceId = "dev-1" from rfl, hnone]
  have hrefresh : (s.asks { pinging k with phase := .refresh }).proceed host
      { pinging k with phase := .refresh } (.answer (.ok monitored)) =
        (s.asks { pinging k with phase := .refresh },
          { pinging k with phase := .describe monitored }) := rfl
  have hdescribe : (s.asks { pinging k with phase := .describe monitored }).proceed host
      { pinging k with phase := .describe monitored } (.answer (.ok monitored)) =
        (s.asks { pinging k with phase := .describe monitored },
          { pinging k with phase := .publish monitored }) := by
    simp only [proceed]
    rw [show (pinging k).request.deviceId = "dev-1" from rfl, h.describe]
  have hpublish : (s.asks { pinging k with phase := .publish monitored }).proceed host
      { pinging k with phase := .publish monitored } (.answer (.ok monitored)) =
        (s.asks { pinging k with phase := .publish monitored },
          { pinging k with phase := .check (shown s) }) := by
    simp only [proceed]
    rw [show (pinging k).request.deviceId = "dev-1" from rfl,
      show monitored.status.availability = .available from rfl, h.setAvailability]
    rfl
  rw [List.replicate, List.replicate, List.replicate, List.replicate, List.replicate,
    List.replicate, List.replicate, List.foldl, hstep _ hlookup, List.foldl, hstep _ hreplay,
    List.foldl, hstep _ hmonitor, List.foldl, hstep _ hrefresh, List.foldl, hstep _ hdescribe,
    List.foldl, hstep _ hpublish, List.foldl]

theorem prechecked (h : Rested k s) : (pinging k).precheck (shown s) = .ok () := by
  have hsupports : (shown s).supports (pinging k).action.capability = true := rfl
  unfold Submission.precheck
  rw [hsupports, show (shown s).status = (s.store.devices "dev-1").status from rfl, h.available]
  rfl

theorem handed (h : Rested k s) (host : Host) : ∃ accepted,
    s.store.accept host "dev-1" (pinging k).action (pinging k).identity =
      .ok (accepted, refusedOp host s k) := by
  unfold Store.accept
  dsimp only
  rw [h.busy]
  exact ⟨_, rfl⟩

theorem queued (h : Rested k s) (hworker : s.workers "dev-1" = {}) {accepted : Store}
    (haccept : s.store.accept host "dev-1" (pinging k).action (pinging k).identity =
      .ok (accepted, refusedOp host s k)) :
    ∃ t, (s.asks { pinging k with phase := .check (shown s) }).next host
        (.advance k (.answer (.ok monitored))) = t ∧ t.store = accepted ∧
      t.queues "dev-1" = [⟨(refusedOp host s k).id, (pinging k).request, (pinging k).action⟩] ∧
      t.workers = s.workers ∧ t.running = s.running ∧ t.runtimes = s.runtimes ∧
      t.submissions.length = k + 1 := by
  have hsub : (s.asks { pinging k with phase := .check (shown s) }).submissions[k]? =
      some { pinging k with phase := .check (shown s) } := by simp [asks, ← h.submitted]
  have hprecheck : ({ pinging k with phase := .check (shown s) } : Submission).precheck
      (shown s) = .ok () := h.prechecked
  have hroom : (s.asks { pinging k with phase := .check (shown s) }).hasRoom "dev-1" = true := by
    simp [hasRoom, asks, h.queue, hworker, queueCapacity]
  refine ⟨_, rfl, ?_⟩
  rw [next, advance, hsub]
  dsimp only [proceed]
  rw [hprecheck]
  dsimp only [tryStart]
  rw [show (s.asks { pinging k with phase := .check (shown s) }).store = s.store from rfl,
    h.unused]
  dsimp only
  rw [show (pinging k).request.deviceId = "dev-1" from rfl, haccept]
  dsimp only
  rw [hroom]
  simp [asks, h.submitted, h.queue]

end Rested

/-- How such a command completes. -/
def refusedWith (id : String) : Completion where
  key := id
  lane := .application
  result := .error (.msg "application not connected; use app-connect first")

theorem work_head {t : System} {descriptor : DeviceDescriptor}
    (hknown : t.runtimes.lookup "dev-1" = some descriptor) (hworker : t.workers "dev-1" = {}) :
    t.work host "dev-1" (stalled fun _ => 0) = t.setWorker "dev-1" { place := .test } := by
  simp [work, hknown, hworker, pass, Worker.abandon]
  rfl

/-- The worker takes the job, refuses it, and is back at the head of its loop. -/
theorem refusal (host : Host) {t : System} {descriptor : DeviceDescriptor}
    (hknown : t.runtimes.lookup "dev-1" = some descriptor) (hrunning : t.running = true)
    (hworker : t.workers "dev-1" = {})
    {id : String} {k : ℕ}
    (hqueue : t.queues "dev-1" = [⟨id, (pinging k).request, (pinging k).action⟩]) :
    ∃ workers queues, workers "dev-1" = {} ∧ queues "dev-1" = [] ∧
      (List.replicate 4 (Step.work "dev-1" (stalled fun _ => 0))).foldl (next host) t =
        { t with
          store := t.store.finishStream host "dev-1"
            [refusedWith id] false
          workers := workers
          queues := queues } := by
  have hserve : ({ place := .receive } : Worker).serve host
      ⟨id, (pinging k).request, (pinging k).action⟩ (stalled fun _ => 0) =
        { place := .receive, todo := [.finishStream [refusedWith id] false] } := rfl
  simp only [List.replicate, List.foldl, next]
  have htest : (t.setWorker "dev-1" { place := .test }).work host "dev-1" (stalled fun _ => 0) =
      (t.setWorker "dev-1" { place := .test }).setWorker "dev-1" { place := .receive } := by
    simp [work, pass, setWorker, hknown, hrunning]
  have hreceive : ((t.setWorker "dev-1" { place := .test }).setWorker "dev-1"
      { place := .receive }).work host "dev-1" (stalled fun _ => 0) =
        { ((t.setWorker "dev-1" { place := .test }).setWorker "dev-1"
            { place := .receive }).setWorker "dev-1"
              { todo := [.finishStream [refusedWith id] false] } with
          queues := Function.update t.queues "dev-1" [] } := by
    simp [work, pass, setWorker, hknown, hqueue, hserve]
  rw [work_head hknown hworker, htest, hreceive]
  simp [work, execute, setWorker, hknown, Worker.exec]

def refusedRound (k : ℕ) : List Step :=
  .submit (pinging k).request (pinging k).action (pinging k).identity ::
    List.replicate 8 (.advance k (.answer (.ok monitored))) ++
    List.replicate 4 (.work "dev-1" (stalled fun _ => 0))

namespace Rested
variable {accepted : Store} (h : Rested k s)
  (haccept : s.store.accept host "dev-1" (pinging k).action (pinging k).identity =
    .ok (accepted, refusedOp host s k))
include h haccept

theorem isRunning_accepted (id : String) :
    accepted.isRunning id = decide ((refusedOp host s k).id = id) := by
  rw [Fits.isRunning_accept h.consistent.retained haccept, h.finished, Bool.false_or]

theorem refused_device : ∃ state, (accepted.finishStream host "dev-1"
      [refusedWith (refusedOp host s k).id] false).devices "dev-1" = state ∧
    state.status.availability = .available ∧ state.status.activity ≠ .monitoring ∧
    state.applicationPending = false ∧ state.inputPending = false ∧ state.busy = false := by
  obtain ⟨kind, data, hstate⟩ := Fits.devices_accept_self h.consistent.retained haccept
  have hrunning : accepted.isRunning (refusedOp host s k).id = true := by
    simp [h.isRunning_accepted haccept]
  obtain ⟨kind', data', hdone, -⟩ := devices_conclude host "dev-1"
    (·.finish (refusedWith (refusedOp host s k).id).result) (·.completeStream .application false)
    hrunning
  refine ⟨_, hdone, ?_⟩
  rw [hstate]
  simp [DeviceState.completeStream, DeviceState.setActivity, DeviceState.emit,
    DeviceState.occupy, h.input, h.available, pinging, Action.inputLane]

theorem refused_finished (id : String) : (accepted.finishStream host "dev-1"
    [refusedWith (refusedOp host s k).id] false).isRunning id = false := by
  have hknown : "dev-1" ∈ s.devices := mem_devices.mpr (by simp [h.runtimes])
  have hretained := h.consistent.retained.start h.unused haccept hknown
    (e := ⟨⟨(refusedOp host s k).id, (pinging k).request, (pinging k).action⟩,
      (pinging k).identity⟩) rfl rfl rfl
  have hdone := @isRunning_conclude host accepted "dev-1" (refusedOp host s k).id _
    (·.completeStream .application false) hretained.ids
    (finishes_finish (refusedWith (refusedOp host s k).id).result) id
  apply hdone.trans
  rw [h.isRunning_accepted haccept]
  simp [eq_comm]

theorem refused_keys (hk : k ≤ 63) : (accepted.finishStream host "dev-1"
    [refusedWith (refusedOp host s k).id] false).operations.map (·.requestKey) =
      (List.range (k + 1)).map toString := by
  obtain ⟨-, -, hstore⟩ := Store.accept_cases haccept
  have hspent : (s.store.occupy host "dev-1" (pinging k).action).spent ≤ 63 := by
    have hsame := h.spent
    exact (show _ = k from hsame).trans_le hk
  rw [Store.cleared, Store.makeRoom_of_spent hspent] at hstore
  have htickets := (accepted.evolves_finishStream host "dev-1"
    [refusedWith (refusedOp host s k).id] false).tickets
  have hkeys : ∀ store : Store, store.operations.map (·.requestKey) =
      store.tickets.map Ticket.key := by
    intro store
    rw [Store.tickets, List.map_map]
    rfl
  rw [hkeys, htickets, ← hkeys, hstore, List.range_succ, List.map_append, ← h.keys]
  simp [Store.push, Store.modifyDevice, Store.occupy, Store.emit]
  rfl

end Rested

theorem Waiting.started (h : Waiting k s) :
    (s.asks (pinging k)).next host (.advance k (.answer (.ok monitored))) =
      s.asks { pinging k with phase := .lookup } := by
  have hstart : (s.asks (pinging k)).proceed host (pinging k) (.answer (.ok monitored)) =
      (s.asks (pinging k), { pinging k with phase := .lookup }) := by
    simp [proceed, pinging, asks, h.running]
  have hfirst := asks_advance host _ hstart
  rwa [h.submitted] at hfirst

theorem Waiting.next (h : Waiting k s) (host : Host) (hk : k ≤ 63) :
    Waiting (k + 1) ((refusedRound k).foldl (System.next host) s) := by
  have hconsistent := h.consistent.run host (refusedRound k)
  have hretained := h.consistent.retained
  obtain ⟨accepted, haccept⟩ := h.toRested.handed host
  have hasked : (List.replicate 7 (Step.advance k (.answer (.ok monitored)))).foldl
      (System.next host) (s.asks (pinging k)) =
        s.asks { pinging k with phase := .check (shown s) } := by
    rw [List.replicate_succ, List.foldl_cons, ← h.toRested.asking]
    rw [h.started]
  have hround : ∃ t, (refusedRound k).foldl (System.next host) s = t ∧
      t.store = accepted.finishStream host "dev-1" [refusedWith (refusedOp host s k).id] false ∧
      t.workers "dev-1" = {} ∧ t.queues "dev-1" = [] ∧ t.running = s.running ∧
      t.runtimes = s.runtimes ∧ t.submissions.length = k + 1 := by
    obtain ⟨t, ht, hstore, hqueue, hsame, hrunning, hruntimes, hlength⟩ :=
      h.toRested.queued h.worker haccept
    have hcall : (refusedRound k).foldl (System.next host) s =
        (List.replicate 4 (Step.work "dev-1" (stalled fun _ => 0))).foldl (System.next host)
          ((s.asks { pinging k with phase := .check (shown s) }).next host
            (.advance k (.answer (.ok monitored)))) := by
      have hsplit : List.replicate 8 (Step.advance k (.answer (.ok monitored))) =
          List.replicate 7 (Step.advance k (.answer (.ok monitored))) ++
            [.advance k (.answer (.ok monitored))] := List.replicate_succ'
      have hsubmit : s.next host (.submit (pinging k).request (pinging k).action
          (pinging k).identity) = s.asks (pinging k) := rfl
      rw [refusedRound, hsplit, List.cons_append, List.foldl_cons, List.foldl_append,
        List.foldl_append, hsubmit, hasked, List.foldl_cons, List.foldl_nil]
    have hknown : t.runtimes.lookup "dev-1" = some monitored := by simp [hruntimes, h.runtimes]
    obtain ⟨workers, queues, hworkers, hqueues, hrefusal⟩ := refusal host hknown
      (hrunning.trans h.running) ((congrFun hsame _).trans h.worker) hqueue
    rw [hcall, ht, hrefusal, hstore]
    exact ⟨_, rfl, rfl, hworkers, hqueues, hrunning, hruntimes, hlength⟩
  obtain ⟨t, hround, hstore, hworker, hqueue, hrunning, hruntimes, hlength⟩ := hround
  obtain ⟨state, hstate, havailable, hactivity, happ, hinput, hbusy⟩ :=
    h.toRested.refused_device haccept
  rw [hround]
  rw [System.run, hround] at hconsistent
  constructor
  · constructor
    · exact hconsistent
    · rw [hruntimes, h.runtimes]
    · rwa [hstore, hstate]
    · rwa [hstore, hstate]
    · rwa [hstore, hstate]
    · rwa [hstore, hstate]
    · rwa [hstore, hstate]
    · rw [hstore, h.toRested.refused_keys haccept hk]
    · intro id
      rw [hstore, h.toRested.refused_finished haccept]
    · exact hlength
    · exact hqueue
  · rw [hrunning, h.running]
  · exact hworker

/-- So many commands, one after the other. -/
def refusals (k : ℕ) : List Step := (List.range k).flatMap refusedRound

theorem Waiting.init : Waiting 0 (System.init "1-1" [("dev-1", monitored)]) where
  consistent := .init _ _
  runtimes := rfl
  available := rfl
  activity := by decide
  app := rfl
  input := rfl
  busy := rfl
  keys := rfl
  finished _ := rfl
  submitted := rfl
  queue := rfl
  running := rfl
  worker := rfl

theorem waiting_refusals (host : Host) (hk : k ≤ 64) :
    Waiting k ((System.init "1-1" [("dev-1", monitored)]).run host (refusals k)) := by
  induction k with
  | zero => exact .init
  | succ k ih =>
      have hround := (ih (by omega)).next host (by omega)
      rwa [refusals, List.range_succ, List.flatMap_append, run, List.foldl_append,
        List.flatMap_singleton]

/-- The daemon is stopped while a command is on its way, up to the checks of the command. -/
def lateRound (k : ℕ) : List Step :=
  .submit (pinging k).request (pinging k).action (pinging k).identity ::
    .advance k (.answer (.ok monitored)) :: .shutdown ::
    List.replicate 3 (.work "dev-1" (stalled fun _ => 0)) ++
    List.replicate 6 (.advance k (.answer (.ok monitored)))

theorem leaving (host : Host) {t : System} {descriptor : DeviceDescriptor}
    (hknown : t.runtimes.lookup "dev-1" = some descriptor) (hrunning : t.running = false)
    (hbusy : (t.store.devices "dev-1").busy = false) (hworker : t.workers "dev-1" = {}) :
    ∃ workers queues, (workers "dev-1").place = .exited ∧ queues "dev-1" = [] ∧
      (List.replicate 3 (Step.work "dev-1" (stalled fun _ => 0))).foldl (next host) t =
        { t with workers := workers, queues := queues } := by
  have htest : (t.setWorker "dev-1" { place := .test }).work host "dev-1" (stalled fun _ => 0) =
      (t.setWorker "dev-1" { place := .test }).setWorker "dev-1" { place := .leaving } := by
    simp [work, pass, setWorker, hknown, hrunning, hbusy]
  have hleave : ((t.setWorker "dev-1" { place := .test }).setWorker "dev-1"
      { place := .leaving }).work host "dev-1" (stalled fun _ => 0) =
        { ((t.setWorker "dev-1" { place := .test }).setWorker "dev-1"
            { place := .leaving }).setWorker "dev-1" { place := .exited } with
          queues := Function.update t.queues "dev-1" [] } := by
    simp [work, pass, setWorker, hknown]
  simp only [List.replicate, List.foldl, next]
  rw [work_head hknown hworker, htest, hleave]
  simp [setWorker]

/-- A worker that stops while its device is free is gone when the command gets to it. -/
theorem Waiting.late (h : Waiting k s) (host : Host) : ∃ t, Rested k t ∧
    (t.workers "dev-1").place = .exited ∧
    (lateRound k).foldl (System.next host) s =
      t.asks { pinging k with phase := .check (shown t) } := by
  have hknown : (({ s with running := false } : System).asks
      { pinging k with phase := .lookup }).runtimes.lookup "dev-1" = some monitored := by
    simp [asks, h.runtimes]
  obtain ⟨workers, queues, hplace, hqueue, hexit⟩ := leaving host hknown rfl h.busy h.worker
  have hrested : Rested k { s with running := false, workers := workers, queues := queues } := by
    have hconsistent : System.Consistent
        { s with running := false, workers := workers, queues := queues } :=
      ⟨h.consistent.retained, h.consistent.found⟩
    exact { h.toRested with consistent := hconsistent, queue := hqueue }
  refine ⟨_, hrested, hplace, ?_⟩
  have hsubmit : s.next host (.submit (pinging k).request (pinging k).action
      (pinging k).identity) = s.asks (pinging k) := rfl
  have hshutdown : (s.asks { pinging k with phase := .lookup }).next host .shutdown =
      ({ s with running := false } : System).asks { pinging k with phase := .lookup } := rfl
  rw [lateRound, List.cons_append, List.foldl_cons, hsubmit, List.cons_append, List.foldl_cons,
    h.started, List.cons_append, List.foldl_cons, hshutdown, List.foldl_append, hexit]
  exact hrested.asking

/-- The command makes room for its operation, and then finds no worker. -/
theorem Rested.forgotten (h : Rested k s) (host : Host) (hk : 64 ≤ k)
    (hexited : (s.workers "dev-1").place = .exited) :
    (s.asks { pinging k with phase := .check (shown s) }).evicts host k
      (.advance k (.answer (.ok monitored))) = true ∧
    ∃ sub, ((s.asks { pinging k with phase := .check (shown s) }).advance host k
        (.answer (.ok monitored))).submissions[k]? = some sub ∧
      sub.phase = .done (.error ⟨.serviceUnavailable, "device worker unavailable"⟩) := by
  obtain ⟨accepted, haccept⟩ := h.handed host
  have hsub : (s.asks { pinging k with phase := .check (shown s) }).submissions[k]? =
      some { pinging k with phase := .check (shown s) } := by simp [asks, ← h.submitted]
  have hprecheck : ({ pinging k with phase := .check (shown s) } : Submission).precheck
      (shown s) = .ok () := h.prechecked
  have hroom : (s.asks { pinging k with phase := .check (shown s) }).hasRoom "dev-1" = false := by
    simp [hasRoom, asks, hexited]
  have hadmits : (s.asks { pinging k with phase := .check (shown s) }).admits host
      { pinging k with phase := .check (shown s) } = true := by
    have hstarts : (s.asks { pinging k with phase := .check (shown s) }).starts host
        { pinging k with phase := .check (shown s) } = true := by
      unfold starts
      rw [show (s.asks { pinging k with phase := .check (shown s) }).store = s.store from rfl,
        h.unused]
      dsimp only
      rw [show (pinging k).request.deviceId = "dev-1" from rfl, haccept]
      rfl
    rw [admits]
    dsimp only
    rw [hprecheck, hstarts]
    rfl
  constructor
  · have hspent : 64 ≤ (s.asks { pinging k with phase := .check (shown s) }).store.spent :=
      h.spent.symm ▸ hk
    rw [evicts, hsub]
    simp [hadmits, hspent, show (pinging k).request.deviceId = "dev-1" from rfl, hroom]
  · rw [advance, hsub]
    dsimp only [proceed]
    rw [hprecheck]
    dsimp only [tryStart]
    rw [show (s.asks { pinging k with phase := .check (shown s) }).store = s.store from rfl,
      h.unused]
    dsimp only
    rw [show (pinging k).request.deviceId = "dev-1" from rfl, haccept]
    dsimp only
    rw [hroom]
    refine ⟨_, List.getElem?_set_self ?_, rfl⟩
    simp [asks, h.submitted]

/-- In every run a submission that returns an error has left operations, request keys and
artifacts as they were in all its sections, if and only if none of them failed to hand its job
over while 64 operations had finished. -/
theorem rejected_keeps_iff (host : Host) (epoch : String)
    (runtimes : List (DeviceId × DeviceDescriptor)) (steps : List Step) (n : ℕ)
    {sub : Submission} {e : ApiError}
    (hsub : ((System.init epoch runtimes).run host steps).submissions[n]? = some sub)
    (herror : sub.phase = .done (.error e)) :
    (∀ change ∈ Runs.collect (next host) (sections host n) (System.init epoch runtimes) steps,
        change.2 = change.1) ↔
      Runs.eachSafe (next host) (fun s step => !s.evicts host n step)
        (System.init epoch runtimes) steps = true := by
  apply kept_iff_of_consistent (.init epoch runtimes)
  rintro ⟨sub', op, hsub', hgranted⟩
  cases hsub.symm.trans hsub'
  cases herror.symm.trans hgranted

/-- A command that finds no worker before any other has finished. -/
def earlySteps : List Step := lateRound 0 ++ [.advance 0 (.answer (.ok monitored))]

theorem early_submission_keeps :
    (∃ sub, ((System.init "1-1" [("dev-1", monitored)]).run bareHost earlySteps).submissions[0]? =
        some sub ∧
      sub.phase = .done (.error ⟨.serviceUnavailable, "device worker unavailable"⟩)) ∧
    ∀ change ∈ Runs.collect (next bareHost) (sections bareHost 0)
      (System.init "1-1" [("dev-1", monitored)]) earlySteps, change.2 = change.1 := by
  have hsub : ((System.init "1-1" [("dev-1", monitored)]).run bareHost
      earlySteps).submissions[0]? = some { pinging 0 with
        phase := .done (.error ⟨.serviceUnavailable, "device worker unavailable"⟩) } := by rfl
  refine ⟨⟨_, hsub, rfl⟩, ?_⟩
  apply (rejected_keeps_iff bareHost "1-1" [("dev-1", monitored)] _ 0 hsub rfl).mpr
  decide +kernel

/-- Sixty-four commands are refused, and one more comes too late. -/
def lateSteps : List Step :=
  refusals 64 ++ lateRound 64 ++ [.advance 64 (.answer (.ok monitored))]

/-- The last command has made the oldest of the others leave. -/
theorem late_submission_forgets :
    (∃ sub, ((System.init "1-1" [("dev-1", monitored)]).run bareHost lateSteps).submissions[64]? =
        some sub ∧
      sub.phase = .done (.error ⟨.serviceUnavailable, "device worker unavailable"⟩)) ∧
    ¬ ∀ change ∈ Runs.collect (next bareHost) (sections bareHost 64)
        (System.init "1-1" [("dev-1", monitored)]) lateSteps, change.2 = change.1 := by
  obtain ⟨t, ht, hexited, hlate⟩ := (waiting_refusals bareHost le_rfl).late bareHost
  obtain ⟨hevicts, sub, hsub, herror⟩ := ht.forgotten bareHost le_rfl hexited
  have hfront : (refusals 64 ++ lateRound 64).foldl (next bareHost)
      (System.init "1-1" [("dev-1", monitored)]) =
        t.asks { pinging 64 with phase := .check (shown t) } := by
    rw [List.foldl_append, ← hlate]
    rfl
  have hconsistent : (t.asks { pinging 64 with phase := .check (shown t) }).Consistent := by
    rw [← hfront]
    exact (Consistent.init _ _).run bareHost _
  constructor
  · refine ⟨sub, ?_, herror⟩
    rw [run, lateSteps, List.foldl_append, hfront]
    exact hsub
  · intro hkept
    have hnot : ¬ Granted 64 ((t.asks { pinging 64 with phase := .check (shown t) }).next bareHost
        (.advance 64 (.answer (.ok monitored)))) := by
      rintro ⟨sub', op, hsub', hgranted⟩
      cases hsub.symm.trans hsub'
      cases herror.symm.trans hgranted
    have hlast := (ledger_advance_iff hconsistent hnot).mp (hkept
      (_, ((t.asks { pinging 64 with phase := .check (shown t) }).advance bareHost 64
        (.answer (.ok monitored))).store.ledger) ?_)
    · rw [hevicts] at hlast
      cases hlast
    · rw [lateSteps, Runs.collect_append, hfront]
      exact List.mem_append_right _ (List.mem_singleton_self _)

end System
end IdfRemote
