import IdfRemote.Monitoring
import IdfRemote.Runs
import IdfRemote.StoreInvariant

/-!
# What a worker leaves behind

A worker leaves its loop when the daemon stops and nothing occupies its device. Its
queue takes jobs until the worker is gone for good, and an admission does not ask
again whether the daemon still runs. An operation that is admitted in between stays
as running, and there is no other way to abandon one.
-/
namespace IdfRemote
open Runs

theorem mem_of_mem_updateFirst {α : Type} {p : α → Bool} {f : α → α} {xs : List α} {y : α}
    (h : y ∈ updateFirst p f xs) : y ∈ xs ∨ ∃ x, y = f x := by
  induction xs with
  | nil => exact .inl h
  | cons x xs ih =>
      unfold updateFirst at h
      split_ifs at h
      · rcases List.mem_cons.mp h with rfl | h
        · exact .inr ⟨x, rfl⟩
        · exact .inl (List.mem_cons_of_mem _ h)
      · rcases List.mem_cons.mp h with rfl | h
        · exact .inl List.mem_cons_self
        · exact (ih h).imp_left (List.mem_cons_of_mem _)

theorem Store.mem_of_conclude (host : Host) {s : Store} (device : DeviceId) (id : String)
    {finish : Operation → Operation} (complete : DeviceState → DeviceState)
    (hfinish : Finishes finish) {op : Operation}
    (hop : op ∈ (s.conclude host device id finish complete).operations)
    (hrunning : op.isRunning = true) : op ∈ s.operations := by
  unfold conclude at hop
  cases hfind : s.operations.find? fun op => op.id = id with
  | none =>
      rw [hfind] at hop
      exact hop
  | some found =>
      rw [hfind] at hop
      rcases mem_of_mem_updateFirst hop with hop | ⟨before, rfl⟩
      · exact hop
      · rw [hfinish.done before] at hrunning
        cases hrunning

theorem Worker.mem_of_exec (host : Host) (device : DeviceId) (i : Inputs) {s : Store} (w : Worker)
    (instr : Instr) {op : Operation}
    (hop : op ∈ (Worker.exec host device i s w instr).1.operations)
    (hrunning : op.isRunning = true) : op ∈ s.operations := by
  cases hcompletes : instr.completes with
  | true =>
      cases instr with
      | finishStream done hasReader =>
          unfold exec Store.finishStream at hop
          dsimp only at hop
          induction done generalizing s with
          | nil => exact hop
          | cons c done ih =>
              have hrest := ih hop rfl
              exact Store.mem_of_conclude host device c.key _ (finishes_finish c.result) hrest
                hrunning
      | finishExclusive id result artifact hasReader =>
          have hkept := Store.mem_of_conclude host device id _
            (finishes_finished result artifact) hop hrunning
          rwa [s.operations_keepArtifact] at hkept
      | _ => cases hcompletes
  | false =>
      have htouches := (Worker.exec_touches host device i s w hcompletes).1
      rw [Store.Touches] at htouches
      rw [htouches] at hop
      exact hop

/-- An operation that runs after a step did so before, or is the one that the step admits. -/
theorem StoreStep.running {host : Host} {s : System} {step : Step} {store : Store}
    {enqueued : List Enqueued} {devices : List DeviceId} {news : DeviceId → List News}
    (h : StoreStep host s step store enqueued devices news)
    (hretained : Retained s.store s.devices s.enqueued) {op : Operation}
    (hop : op ∈ store.operations) (hrunning : op.isRunning = true) :
    op ∈ s.store.operations ∨
    ∃ n refresh sub, step = .advance n refresh ∧ s.submissions[n]? = some sub ∧
      s.admits host sub = true ∧ s.hasRoom sub.request.deviceId = true ∧
      op.deviceId = sub.request.deviceId := by
  cases h with
  | idle => exact .inl hop
  | availability device availability => exact .inl hop
  | @admission n refresh sub accepted new hknown hreplay haccept hroom hsub hadmits =>
      obtain ⟨-, rfl, rfl⟩ := Store.accept_cases haccept
      rcases List.mem_append.mp hop with hold | hnew
      · exact .inl ((hretained.cleared_sheds host _ _).sublist.mem hold)
      · rw [List.mem_singleton.mp hnew]
        exact .inr ⟨n, refresh, sub, rfl, hsub, hadmits, hroom, rfl⟩
  | withdrawal sub accepted new hknown hreplay haccept hroom =>
      obtain ⟨-, rfl, rfl⟩ := Store.accept_cases haccept
      rw [Store.withdraw_push _ _ _ _ _ rfl
        (hretained.idempotency_cleared host _ _ hreplay)] at hop
      exact .inl ((hretained.cleared_sheds host _ _).sublist.mem hop)
  | instruction device i instr rest hknown htodo =>
      exact .inl (Worker.mem_of_exec host device i _ instr hop hrunning)
  | discovery descriptor hnew => exact .inl hop

/-- The worker has left its loop, whether or not its queue is gone as well. -/
def Worker.left (w : Worker) : Bool := w.place = .leaving || w.place = .exited

namespace System
variable {s : System}

/-- Nothing is running on a device whose worker has left its loop. -/
def NothingAbandoned (s : System) : Prop :=
  ∀ device, (s.workers device).left = true →
    ∀ op ∈ s.store.operations, op.deviceId = device → op.isRunning = false

/-- A submission is admitted to the queue of a worker that has left its loop. -/
def slips (host : Host) (s : System) : Step → Bool
  | .advance n _ =>
      match s.submissions[n]? with
      | none => false
      | some sub => s.admits host sub && (s.workers sub.request.deviceId).place = .leaving
  | _ => false

theorem pass_store (host : Host) (s : System) (device : DeviceId) (i : Inputs) :
    (s.pass host device i).store = s.store := by
  unfold pass
  dsimp only
  split
  · rfl
  · split_ifs <;> rfl
  · split <;> rfl
  · rfl
  · rfl

theorem left_pass (host : Host) (i : Inputs) {device : DeviceId}
    (h : ((s.pass host device i).workers device).left = true) :
    (s.workers device).left = true ∨ (s.store.devices device).busy = false := by
  unfold pass at h
  cases hplace : (s.workers device).place with
  | head =>
      simp only [hplace, setWorker_self] at h
      cases h
  | test =>
      simp only [hplace] at h
      split_ifs at h with hleaves
      · simp only [Bool.and_eq_true, Bool.not_eq_true'] at hleaves
        exact .inr hleaves.2
      · rw [setWorker_self] at h
        cases h
  | receive =>
      simp only [hplace] at h
      cases hqueue : s.queues device with
      | nil =>
          simp only [hqueue, setWorker_self] at h
          cases h
      | cons job jobs =>
          simp only [hqueue, setWorker_self] at h
          cases h
  | leaving => exact .inl (by rw [Worker.left, hplace]; rfl)
  | exited => exact .inl (by rw [Worker.left, hplace]; rfl)

/-- A worker leaves its loop when nothing occupies its device. -/
theorem left_next (host : Host) (step : Step) {device : DeviceId}
    (h : ((s.next host step).workers device).left = true) :
    (s.workers device).left = true ∨
      (s.store.devices device).busy = false ∧ (s.next host step).store = s.store := by
  cases step with
  | submit request action identity => exact .inl h
  | advance n refresh =>
      rw [System.next, advance_workers] at h
      exact .inl h
  | work d i =>
      by_cases hd : device = d
      · subst hd
        rw [System.next] at h ⊢
        rcases s.work_cases host device i with hw | ⟨instr, rest, -, hw⟩ | ⟨-, hw⟩
        · rw [hw] at h
          exact .inl h
        · obtain ⟨decoder, bootReopenAt, runtimes, -, hexecute⟩ :=
            s.execute_eq host device i instr rest
          rw [hw, hexecute] at h
          dsimp only at h
          rw [setWorker_self] at h
          exact .inl h
        · rw [hw] at h ⊢
          exact (s.left_pass host i h).imp_right fun hidle => ⟨hidle, s.pass_store host device i⟩
      · rw [System.next, work_workers_of_ne host s hd] at h
        exact .inl h
  | shutdown => exact .inl h
  | discover descriptor =>
      rw [System.next] at h
      rcases s.discover_cases descriptor with hold | ⟨-, hnew⟩
      · rw [hold] at h
        exact .inl h
      · rw [hnew] at h
        dsimp only at h
        by_cases hd : device = descriptor.id
        · rw [hd, Function.update_self] at h
          cases h
        · rw [Function.update_of_ne hd] at h
          exact .inl h
  | describe d descriptor => exact .inl h
  | setAvailability d availability =>
      simp only [System.next] at h
      split_ifs at h <;> exact .inl h

end System

theorem Retained.live_eq_nil {s : Store} {devices : List DeviceId} {enqueued : List Enqueued}
    (h : Retained s devices enqueued) (device : DeviceId) : live s enqueued device = [] ↔
      ∀ op ∈ s.operations, op.deviceId = device → op.isRunning = false := by
  have hperm := (h.running_perm device).length_eq
  rw [List.length_map, List.length_map] at hperm
  rw [← List.length_eq_zero_iff, ← hperm, List.length_eq_zero_iff, List.filter_eq_nil_iff]
  simp

theorem Occupancy.eq_nil {state : DeviceState} {actions : List Action}
    (h : Occupancy state actions) (hidle : state.busy = false) : actions = [] := by
  cases h with
  | idle => rfl
  | exclusive action _ _ hbusy =>
      rw [hidle] at hbusy
      cases hbusy
  | streams _ _ _ _ _ hbusy =>
      rw [hidle] at hbusy
      cases hbusy

namespace System
variable {s : System}

/-- What every run keeps, whether or not it abandons something. -/
structure Sound (s : System) : Prop where
  consistent : s.Consistent
  balanced : s.Balanced
  kept : s.Kept

theorem Sound.next (h : s.Sound) (host : Host) (step : Step) : (s.next host step).Sound where
  consistent := h.consistent.next step
  balanced := h.balanced.next h.consistent.retained step
  kept := h.kept.next h.consistent h.balanced host step

theorem Sound.nothingAbandoned_next (h : s.Sound) (host : Host) (hnothing : s.NothingAbandoned)
    {step : Step} (hsafe : s.slips host step = false) : (s.next host step).NothingAbandoned := by
  intro device hleft op hop hdevice
  have hretained := h.consistent.retained
  by_contra hrunning
  rw [Bool.not_eq_false] at hrunning
  rcases s.left_next host step hleft with hgone | ⟨hidle, hsame⟩
  · have hstep := s.next_storeStep host h.consistent step
    rcases hstep.running hretained hop hrunning with hold |
        ⟨n, refresh, sub, rfl, hsub, hadmits, hroom, hto⟩
    · rw [hnothing device hgone op hold hdevice] at hrunning
      cases hrunning
    · rw [hdevice] at hto
      subst hto
      simp only [slips, hsub, hadmits, Bool.true_and, decide_eq_false_iff_not] at hsafe
      simp only [Worker.left, Bool.or_eq_true, decide_eq_true_eq] at hgone
      simp [hasRoom, hgone.resolve_left hsafe] at hroom
  · rw [hsame] at hop
    have hlive := List.map_eq_nil_iff.mp ((h.kept.occupied device).eq_nil hidle)
    rw [(hretained.live_eq_nil device).mp hlive op hop hdevice] at hrunning
    cases hrunning

theorem running_of_admits (host : Host) (s : System) {n : ℕ} {sub : Submission}
    (hsub : s.submissions[n]? = some sub) (hadmits : s.admits host sub = true)
    (hroom : s.hasRoom sub.request.deviceId = true) (refresh : Refresh) :
    ∃ op ∈ (s.advance host n refresh).store.operations,
      op.deviceId = sub.request.deviceId ∧ op.isRunning = true := by
  unfold admits at hadmits
  split at hadmits
  · next descriptor hphase =>
    rw [Bool.and_eq_true] at hadmits
    obtain ⟨hchecked, hstarts⟩ := hadmits
    cases hprecheck : sub.precheck descriptor with
    | error e =>
        rw [hprecheck] at hchecked
        cases hchecked
    | ok u =>
        unfold starts at hstarts
        split at hstarts
        · next hreplay =>
          cases haccept : s.store.accept host sub.request.deviceId sub.action sub.identity with
          | error e =>
              rw [haccept] at hstarts
              cases hstarts
          | ok r =>
              obtain ⟨accepted, op⟩ := r
              have hstore : (s.advance host n refresh).store = accepted := by
                simp [advance, hsub, proceed, hphase, hprecheck, tryStart, hreplay, haccept, hroom]
              rw [hstore]
              obtain ⟨-, rfl, rfl⟩ := Store.accept_cases haccept
              exact ⟨_, List.mem_append_right _ List.mem_cons_self, rfl, rfl⟩
        · cases hstarts
  · cases hadmits

theorem Sound.not_nothingAbandoned_next (h : s.Sound) (host : Host)
    (hnothing : s.NothingAbandoned) {step : Step} (hslips : s.slips host step = true) :
    ¬ (s.next host step).NothingAbandoned := by
  cases step with
  | advance n refresh =>
      unfold slips at hslips
      dsimp only at hslips
      cases hsub : s.submissions[n]? with
      | none =>
          rw [hsub] at hslips
          cases hslips
      | some sub =>
          rw [hsub] at hslips
          simp only [Bool.and_eq_true, decide_eq_true_eq] at hslips
          obtain ⟨hadmits, hleaving⟩ := hslips
          have hplace : (s.workers sub.request.deviceId).place ≠ .exited := by
            rw [hleaving]
            decide
          have hleft : (s.workers sub.request.deviceId).left = true := by
            rw [Worker.left, hleaving]
            rfl
          -- The queue of a worker that has left its loop is empty.
          have hlive := (h.consistent.retained.live_eq_nil _).mpr (hnothing _ hleft)
          have hperm := (h.balanced.fits _ hplace).perm
          rw [hlive] at hperm
          have hqueue : s.queues sub.request.deviceId = [] := by
            have hempty := (List.append_eq_nil_iff.mp hperm.nil_eq.symm).1
            exact List.map_eq_nil_iff.mp hempty
          have hroom : s.hasRoom sub.request.deviceId = true := by
            simp [hasRoom, hqueue, hplace, queueCapacity]
          obtain ⟨op, hop, hdevice, hrunning⟩ :=
            s.running_of_admits host hsub hadmits hroom refresh
          intro hafter
          have hstopped := hafter _ (by rwa [System.next, advance_workers]) op hop hdevice
          rw [hrunning] at hstopped
          cases hstopped
  | _ => cases hslips

/-- Nothing is abandoned throughout a run, if and only if no submission is admitted between the
end of a worker's loop and the end of its queue. -/
theorem nothing_abandoned_iff (host : Host) (epoch : String)
    (runtimes : List (DeviceId × DeviceDescriptor)) (steps : List Step) :
    Throughout (next host) NothingAbandoned (System.init epoch runtimes) steps ↔
      eachSafe (next host) (fun s step => !s.slips host step) (System.init epoch runtimes)
        steps = true := by
  apply throughout_iff (R := Sound)
  · exact fun s step h => h.next host step
  · exact fun s step h hnothing hsafe =>
      h.nothingAbandoned_next host hnothing (by simpa using hsafe)
  · exact fun s step h hnothing hslips =>
      h.not_nothingAbandoned_next host hnothing (by simpa using hslips)
  · exact ⟨.init epoch runtimes, .init epoch runtimes, .init epoch runtimes⟩
  · exact fun device hleft => by cases hleft

/-- A monitor is submitted, and the daemon stops while it waits for its last section. The
worker leaves its loop, takes the job into its queue, and drops the queue. -/
def stopSteps : List Step :=
  .submit ⟨"dev-1", 115200, true⟩ .monitor ⟨"key-1", "f1"⟩ ::
    List.replicate 6 (.advance 0 (.answer (.ok monitored))) ++
    .shutdown :: List.replicate 2 (.work "dev-1" (stalled fun _ => 0)) ++
    [.advance 0 (.answer (.ok monitored)), .work "dev-1" (stalled fun _ => 0)]

theorem stop_abandons_monitor :
    ¬ Throughout (next bareHost) NothingAbandoned (System.init "1-1" [("dev-1", monitored)])
      stopSteps :=
  fun h => absurd (h.last "dev-1" (by decide +kernel)) (by decide +kernel)

end System
end IdfRemote
