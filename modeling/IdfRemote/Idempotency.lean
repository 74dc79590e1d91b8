import IdfRemote.Retention

/-!
# One operation for one request key

Every retained operation has its job among those handed over and its request key
on record, and every record has its operation. So a submission that looks up the
key of a retained operation gets that operation, or a conflict, and nothing else
happens. A second job for the key can only follow the eviction of the first.
-/
namespace IdfRemote

theorem find?_of_nodup {α β : Type} [DecidableEq β] {f : α → β} {xs : List α}
    (hnodup : (xs.map f).Nodup) {x : α} (hx : x ∈ xs) :
    xs.find? (fun y => f y = f x) = some x := by
  cases hfind : xs.find? fun y => f y = f x with
  | none => simpa using List.find?_eq_none.mp hfind x hx
  | some y =>
      have hy : f y = f x := by simpa using List.find?_some hfind
      rw [List.inj_on_of_nodup_map hnodup (List.mem_of_find?_eq_some hfind) hx hy]

/-- The retained operations, the records of their keys, and the jobs handed over. -/
structure Retained (s : Store) (devices : List DeviceId) (enqueued : List Enqueued) : Prop where
  enqueued_ids : (enqueued.map fun e => e.job.id).Nodup
  ids : (s.tickets.map Ticket.id).Nodup
  keys : (s.tickets.map Ticket.key).Nodup
  past : ∀ e ∈ enqueued, ∃ n, n ≤ (s.devices e.device).seq ∧ e.job.id = s.operationId e.device n
  known : ∀ e ∈ enqueued, e.device ∈ devices
  entry : ∀ t ∈ s.tickets, ∃ e ∈ enqueued, e.ticket = t
  record : ∀ e ∈ enqueued, e.ticket ∈ s.tickets →
    s.idempotency e.identity.key = some ⟨e.identity.fingerprint, e.job.id⟩
  retained : ∀ key record, s.idempotency key = some record → ∃ t ∈ s.tickets, t.key = key
  once : enqueued.Pairwise fun e e' => e.ticket ∈ s.tickets → e'.identity.key ≠ e.identity.key

namespace Retained
variable {s s' : Store} {devices : List DeviceId} {enqueued : List Enqueued}

theorem init (epoch : String) (status : DeviceId → DeviceStatus) (devices : List DeviceId) :
    Retained (.new epoch status) devices [] where
  enqueued_ids := List.nodup_nil
  ids := List.nodup_nil
  keys := List.nodup_nil
  past _ h := by cases h
  known _ h := by cases h
  entry _ h := by cases h
  record _ h := by cases h
  retained _ _ h := by cases h
  once := .nil

theorem evolve (h : Retained s devices enqueued) (hs : s.Evolves s') :
    Retained s' devices enqueued where
  enqueued_ids := h.enqueued_ids
  ids := by rw [hs.tickets]; exact h.ids
  keys := by rw [hs.tickets]; exact h.keys
  past e he := by
    obtain ⟨n, hn, hid⟩ := h.past e he
    refine ⟨n, hn.trans (hs.seq_le e.device), ?_⟩
    rw [hid, Store.operationId, Store.operationId, hs.epoch]
  known := h.known
  entry := by rw [hs.tickets]; exact h.entry
  record := by rw [hs.tickets, hs.idempotency]; exact h.record
  retained := by rw [hs.tickets, hs.idempotency]; exact h.retained
  once := by rw [hs.tickets]; exact h.once

theorem shed (h : Retained s devices enqueued) (hs : s.Sheds s') :
    Retained s' devices enqueued where
  enqueued_ids := h.enqueued_ids
  ids := (hs.tickets.map _).nodup h.ids
  keys := (hs.tickets.map _).nodup h.keys
  past e he := by
    obtain ⟨n, hn, hid⟩ := h.past e he
    rw [hs.devices]
    exact ⟨n, hn, by rw [hid, Store.operationId, Store.operationId, hs.epoch]⟩
  known := h.known
  entry t ht := h.entry t (hs.tickets.mem ht)
  record e he ht := (hs.kept _ ht).trans (h.record e he (hs.tickets.mem ht))
  retained key record hr := by
    obtain ⟨t, ht, rfl⟩ := h.retained key record (hs.idempotency_some key record hr)
    exact ⟨t, hs.retained t ht (by rw [hr]; rfl), rfl⟩
  once := h.once.imp fun hpair ht => hpair (hs.tickets.mem ht)

theorem push (h : Retained s devices enqueued) (op : Operation) (e : Enqueued)
    (hticket : e.ticket = op.ticket) (hknown : e.device ∈ devices)
    (hid : ∀ e' ∈ enqueued, e'.job.id ≠ op.id)
    (hpast : ∃ n, n ≤ (s.devices e.device).seq ∧ op.id = s.operationId e.device n)
    (hkey : s.idempotency op.requestKey = none) :
    Retained (s.push op e.identity.fingerprint) devices (enqueued ++ [e]) := by
  have htickets : (s.push op e.identity.fingerprint).tickets = s.tickets ++ [op.ticket] :=
    List.map_append
  have heid : e.job.id = op.id := congrArg Ticket.id hticket
  have hekey : e.identity.key = op.requestKey := congrArg Ticket.key hticket
  have hnewid : ∀ t ∈ s.tickets, t.id ≠ op.id := by
    intro t ht
    obtain ⟨e', he', rfl⟩ := h.entry t ht
    exact hid e' he'
  have hnewkey : ∀ t ∈ s.tickets, t.key ≠ op.requestKey := by
    intro t ht heq
    obtain ⟨e', he', rfl⟩ := h.entry t ht
    have hrecord := h.record e' he' ht
    rw [show e'.identity.key = op.requestKey from heq, hkey] at hrecord
    cases hrecord
  have hold : ∀ e' ∈ enqueued, e'.ticket ∈ s.tickets ++ [op.ticket] → e'.ticket ∈ s.tickets := by
    intro e' he' ht
    rcases List.mem_append.mp ht with ht | ht
    · exact ht
    · rw [List.mem_singleton] at ht
      exact absurd (congrArg Ticket.id ht) (hid e' he')
  constructor
  · rw [List.map_append, List.map_singleton, heid]
    refine List.nodup_append.mpr ⟨h.enqueued_ids, List.nodup_singleton _, ?_⟩
    simpa using hid
  · rw [htickets, List.map_append]
    refine List.nodup_append.mpr ⟨h.ids, List.nodup_singleton _, ?_⟩
    simpa [Operation.ticket] using hnewid
  · rw [htickets, List.map_append]
    refine List.nodup_append.mpr ⟨h.keys, List.nodup_singleton _, ?_⟩
    simpa [Operation.ticket] using hnewkey
  · intro e' he'
    rcases List.mem_append.mp he' with he' | he'
    · exact h.past e' he'
    · rw [List.mem_singleton.mp he', heid]
      exact hpast
  · intro e' he'
    rcases List.mem_append.mp he' with he' | he'
    · exact h.known e' he'
    · rw [List.mem_singleton.mp he']
      exact hknown
  · intro t ht
    rw [htickets] at ht
    rcases List.mem_append.mp ht with ht | ht
    · obtain ⟨e', he', rfl⟩ := h.entry t ht
      exact ⟨e', List.mem_append_left _ he', rfl⟩
    · rw [List.mem_singleton.mp ht]
      exact ⟨e, by simp, hticket⟩
  · intro e' he' ht
    rw [htickets] at ht
    rcases List.mem_append.mp he' with he' | he'
    · have ht' := hold e' he' ht
      have hne : e'.identity.key ≠ op.requestKey := hnewkey _ ht'
      exact (Function.update_of_ne hne _ _).trans (h.record e' he' ht')
    · rw [List.mem_singleton.mp he', hekey, heid]
      exact Function.update_self ..
  · intro key record hr
    rw [htickets]
    by_cases hk : key = op.requestKey
    · exact ⟨op.ticket, by simp, hk.symm⟩
    · simp only [Store.push, Function.update_of_ne hk] at hr
      obtain ⟨t, ht, hkey⟩ := h.retained key record hr
      exact ⟨t, List.mem_append_left _ ht, hkey⟩
  · rw [htickets]
    refine List.pairwise_append.mpr ⟨?_, List.pairwise_singleton _ _, ?_⟩
    · refine h.once.imp_of_mem fun he' _ hpair ht => hpair (hold _ he' ht)
    · intro e' he' e'' he'' ht
      rw [List.mem_singleton.mp he'', hekey]
      exact (hnewkey _ (hold e' he' ht)).symm

theorem discover (h : Retained s devices enqueued) {device : DeviceId} {state : DeviceState}
    (hnew : device ∉ devices) :
    Retained (s.modifyDevice device fun _ => state) (devices ++ [device]) enqueued where
  enqueued_ids := h.enqueued_ids
  ids := h.ids
  keys := h.keys
  past e he := by
    have hne : e.device ≠ device := fun heq => hnew (heq ▸ h.known e he)
    rw [Store.modifyDevice_of_ne _ _ _ hne]
    exact h.past e he
  known e he := List.mem_append_left _ (h.known e he)
  entry := h.entry
  record := h.record
  retained := h.retained
  once := h.once

/-- The record of a retained operation, by the job that was handed over for it. -/
theorem record_of_mem (h : Retained s devices enqueued) {op : Operation}
    (hop : op ∈ s.operations) {e : Enqueued} (hticket : e.ticket = op.ticket)
    (he : e ∈ enqueued) :
    s.idempotency op.requestKey = some ⟨e.identity.fingerprint, op.id⟩ := by
  have hmem : e.ticket ∈ s.tickets := hticket ▸ List.mem_map_of_mem hop
  have hkey : e.identity.key = op.requestKey := congrArg Ticket.key hticket
  have hid : e.job.id = op.id := congrArg Ticket.id hticket
  rw [← hkey, ← hid]
  exact h.record e he hmem

theorem find?_operation (h : Retained s devices enqueued) {op : Operation}
    (hop : op ∈ s.operations) : s.operations.find? (fun o => o.id = op.id) = some op := by
  refine find?_of_nodup (f := Operation.id) ?_ hop
  have hids := h.ids
  rwa [Store.tickets, List.map_map] at hids

theorem replay_eq (h : Retained s devices enqueued) {op : Operation} (hop : op ∈ s.operations)
    {e : Enqueued} (he : e ∈ enqueued) (hticket : e.ticket = op.ticket)
    {identity : RequestIdentity} (hkey : identity.key = op.requestKey) :
    s.replay identity =
      if identity.fingerprint = e.identity.fingerprint then .ok (some op)
      else .error ⟨.conflict,
        "idempotency_key_conflict: key was already used for a different request"⟩ := by
  unfold Store.replay
  rw [hkey, h.record_of_mem hop hticket he]
  by_cases hfp : identity.fingerprint = e.identity.fingerprint
  · simp [hfp, h.find?_operation hop]
  · simp [hfp, Ne.symm hfp]

theorem idempotency_of_replay (h : Retained s devices enqueued) {identity : RequestIdentity}
    (hnone : s.replay identity = .ok none) : s.idempotency identity.key = none := by
  cases hrecord : s.idempotency identity.key with
  | none => rfl
  | some record =>
      obtain ⟨t, ht, hkey⟩ := h.retained _ record hrecord
      obtain ⟨op, hop, rfl⟩ := List.mem_map.mp ht
      obtain ⟨e, he, hticket⟩ := h.entry _ ht
      have heq := h.replay_eq hop he hticket hkey.symm
      rw [hnone] at heq
      split_ifs at heq
      cases heq

end Retained

theorem Store.occupy_evolves (host : Host) (s : Store) (device : DeviceId) (action : Action) :
    s.Evolves (s.occupy host device action) :=
  (s.evolves_modifyDevice (f := (·.occupy action)) device le_rfl).trans
    (evolves_emit _ _ _ _ _)

namespace Retained
variable {s : Store} {devices : List DeviceId} {enqueued : List Enqueued}

theorem cleared_sheds (h : Retained s devices enqueued) (host : Host) (device : DeviceId)
    (action : Action) : (s.occupy host device action).Sheds (s.cleared host device action) :=
  (s.occupy host device action).makeRoom_sheds s.operations.length
    (h.evolve (s.occupy_evolves host device action)).keys

theorem cleared (h : Retained s devices enqueued) (host : Host) (device : DeviceId)
    (action : Action) : Retained (s.cleared host device action) devices enqueued :=
  (h.evolve (s.occupy_evolves host device action)).shed (h.cleared_sheds host device action)

theorem idempotency_cleared (h : Retained s devices enqueued) (host : Host) (device : DeviceId)
    (action : Action) {identity : RequestIdentity} (hreplay : s.replay identity = .ok none) :
    (s.cleared host device action).idempotency identity.key = none := by
  rw [Option.eq_none_iff_forall_not_mem]
  intro record hrecord
  have hsome := (h.cleared_sheds host device action).idempotency_some _ _ hrecord
  rw [(s.occupy_evolves host device action).idempotency, h.idempotency_of_replay hreplay] at hsome
  cases hsome

variable {host : Host} {device : DeviceId} {action : Action} {identity : RequestIdentity}
  {accepted : Store} {op : Operation}

theorem started_id (host : Host) (s : Store) (device : DeviceId) (action : Action)
    (identity : RequestIdentity) :
    ((s.occupy host device action).started device identity).id =
      s.operationId device ((s.devices device).seq + 1) := by
  have hseq : ((s.occupy host device action).devices device).seq = (s.devices device).seq + 1 := by
    simp [Store.occupy, Store.emit, DeviceState.occupy]
  rw [Store.started, Store.cursor, hseq]
  rfl

theorem started_fresh (h : Retained s devices enqueued) (host : Host) (device : DeviceId)
    (action : Action) (identity : RequestIdentity) : ∀ e ∈ enqueued,
      e.job.id ≠ ((s.occupy host device action).started device identity).id := by
  intro e he heq
  obtain ⟨n, hn, hpast⟩ := h.past e he
  rw [hpast, started_id] at heq
  obtain ⟨rfl, rfl⟩ := Store.operationId_inj heq
  omega

theorem start (h : Retained s devices enqueued) (hreplay : s.replay identity = .ok none)
    (haccept : s.accept host device action identity = .ok (accepted, op))
    (hknown : device ∈ devices) {e : Enqueued} (hid : e.job.id = op.id)
    (hdevice : e.device = device) (hidentity : e.identity = identity) :
    Retained accepted devices (enqueued ++ [e]) := by
  obtain ⟨-, rfl, rfl⟩ := Store.accept_cases haccept
  have hpush := (h.cleared host device action).push
    ((s.occupy host device action).started device identity) e ?_ (hdevice ▸ hknown)
    (h.started_fresh host device action identity) ?_
    (h.idempotency_cleared host device action hreplay)
  · rw [hidentity] at hpush
    exact hpush.evolve (Store.evolves_modifyDevice (f := (·.setActivity .busy)) _ device le_rfl)
  · simp [Enqueued.ticket, Operation.ticket, Store.started, hid, hdevice, hidentity]
  · have hsheds := h.cleared_sheds host device action
    refine ⟨(s.devices device).seq + 1, ?_, ?_⟩
    · rw [hsheds.devices, hdevice]
      simp [Store.occupy, Store.emit, DeviceState.occupy]
    · rw [started_id, hdevice, Store.operationId, Store.operationId, hsheds.epoch]
      rfl

theorem reject (h : Retained s devices enqueued) (hreplay : s.replay identity = .ok none)
    (haccept : s.accept host device action identity = .ok (accepted, op)) :
    Retained (accepted.withdraw device action identity) devices enqueued := by
  obtain ⟨-, rfl, rfl⟩ := Store.accept_cases haccept
  rw [Store.withdraw_push _ device action identity _ rfl
    (h.idempotency_cleared host device action hreplay)]
  exact (h.cleared host device action).evolve (Store.evolves_modifyDevice _ device le_rfl)

end Retained

/-- A submission in this phase has found its device in the inventory. -/
def Phase.found : Phase → Bool
  | start | lookup | done _ => false
  | _ => true

namespace System

def devices (s : System) : List DeviceId := s.runtimes.map Prod.fst

theorem mem_devices {s : System} {device : DeviceId} :
    device ∈ s.devices ↔ (s.runtimes.lookup device).isSome := by
  rw [devices, List.mem_map, List.lookup_isSome_iff]
  constructor
  · rintro ⟨r, hr, rfl⟩
    exact ⟨r, hr, by simp⟩
  · rintro ⟨r, hr, heq⟩
    exact ⟨r, hr, (eq_of_beq heq).symm⟩

@[simp] theorem describe_devices (s : System) (device : DeviceId)
    (descriptor : DeviceDescriptor) : (s.describe device descriptor).devices = s.devices := by
  unfold devices describe
  rw [List.map_map]
  apply List.map_congr_left
  intro r _
  simp only [Function.comp_apply]
  split_ifs <;> rfl

/-- The last section of `submit` changes nothing, hands a job over, or takes an admission
back. -/
theorem tryStart_cases (host : Host) (s : System) (sub : Submission) :
    (∃ result, s.tryStart host sub = (s, result)) ∨
    ∃ accepted op, s.store.replay sub.identity = .ok none ∧
      s.store.accept host sub.request.deviceId sub.action sub.identity = .ok (accepted, op) ∧
      ((s.hasRoom sub.request.deviceId = true ∧ s.tryStart host sub =
        ({ s with
            store := accepted
            queues := Function.update s.queues sub.request.deviceId
              (s.queues sub.request.deviceId ++ [⟨op.id, sub.request, sub.action⟩])
            enqueued := s.enqueued ++ [⟨⟨op.id, sub.request, sub.action⟩, sub.identity⟩] },
          .ok op)) ∨
      (s.hasRoom sub.request.deviceId = false ∧ s.tryStart host sub =
        ({ s with
            store := accepted.withdraw sub.request.deviceId sub.action sub.identity },
          .error ⟨.serviceUnavailable, "device worker unavailable"⟩))) := by
  unfold tryStart
  split
  · exact .inl ⟨_, rfl⟩
  · exact .inl ⟨_, rfl⟩
  · next hreplay =>
    dsimp only
    split
    · exact .inl ⟨_, rfl⟩
    · next accepted op haccept =>
      refine .inr ⟨accepted, op, hreplay, haccept, ?_⟩
      cases hroom : s.hasRoom sub.request.deviceId with
      | true => exact .inl ⟨rfl, rfl⟩
      | false => exact .inr ⟨rfl, rfl⟩

/-- The books of the daemon, and what its submissions know. -/
structure Consistent (s : System) : Prop where
  retained : Retained s.store s.devices s.enqueued
  found : ∀ sub ∈ s.submissions, sub.phase.found = true → sub.request.deviceId ∈ s.devices

/-- What a step of a submission keeps. -/
structure Proceeds (s : System) (sub : Submission) (r : System × Submission) : Prop where
  retained : Retained r.1.store r.1.devices r.1.enqueued
  devices : r.1.devices = s.devices
  submissions : r.1.submissions = s.submissions
  request : r.2.request = sub.request
  found : r.2.phase.found = true → sub.request.deviceId ∈ s.devices

theorem proceed_keeps (host : Host) {s : System} (h : s.Consistent) {sub : Submission}
    (hsub : sub ∈ s.submissions) (refresh : Refresh) :
    Proceeds s sub (s.proceed host sub refresh) := by
  have hfound := h.found sub hsub
  have hsame : ∀ phase : Phase, (phase.found = true → sub.request.deviceId ∈ s.devices) →
      Proceeds s sub (s, { sub with phase := phase }) :=
    fun phase hphase => ⟨h.retained, rfl, rfl, rfl, hphase⟩
  unfold proceed
  dsimp only
  split
  · next hphase =>
    split_ifs
    · exact hsame _ (fun h => by cases h)
    · exact hsame _ (fun h => by cases h)
  · next hphase =>
    split
    · exact hsame _ (fun h => by cases h)
    · next runtime hruntime =>
      exact hsame _ fun _ => mem_devices.mpr (by rw [hruntime]; rfl)
  · next runtime hphase =>
    rw [hphase] at hfound
    split
    · exact hsame _ (fun h => by cases h)
    · exact hsame _ (fun h => by cases h)
    · exact hsame _ fun _ => hfound rfl
  · next runtime hphase =>
    rw [hphase] at hfound
    split
    · exact hsame _ fun _ => hfound rfl
    · exact hsame _ fun _ => hfound rfl
  · next hphase =>
    rw [hphase] at hfound
    split
    · exact hsame _ (fun h => by cases h)
    · exact hsame _ (fun h => by cases h)
    · exact hsame _ fun _ => hfound rfl
  · next descriptor hphase =>
    rw [hphase] at hfound
    refine ⟨?_, describe_devices s _ _, rfl, rfl, fun _ => hfound rfl⟩
    rw [describe_devices]
    exact h.retained
  · next descriptor hphase =>
    rw [hphase] at hfound
    refine ⟨?_, rfl, rfl, rfl, fun _ => hfound rfl⟩
    exact h.retained.evolve (s.store.evolves_setAvailability _ _)
  · next descriptor hphase =>
    rw [hphase] at hfound
    split
    · exact hsame _ (fun h => by cases h)
    · rcases s.tryStart_cases host sub with
          ⟨result, hr⟩ | ⟨accepted, op, hreplay, haccept, ⟨-, hr⟩ | ⟨-, hr⟩⟩
      · rw [hr]
        exact hsame _ (fun h => by cases h)
      · rw [hr]
        refine ⟨?_, rfl, rfl, rfl, fun h => by cases h⟩
        exact h.retained.start hreplay haccept (hfound rfl) rfl rfl rfl
      · rw [hr]
        refine ⟨?_, rfl, rfl, rfl, fun h => by cases h⟩
        exact h.retained.reject hreplay haccept
  · next result hphase => exact hsame _ (fun h => by rw [hphase] at h; cases h)

/-- A submission takes a step, or there is none of this number. -/
theorem advance_cases (host : Host) (s : System) (n : ℕ) (refresh : Refresh) :
    s.advance host n refresh = s ∨ ∃ sub, s.submissions[n]? = some sub ∧
      s.advance host n refresh =
        { (s.proceed host sub refresh).1 with
          submissions :=
            (s.proceed host sub refresh).1.submissions.set n (s.proceed host sub refresh).2 } := by
  unfold advance
  cases hsub : s.submissions[n]? with
  | none => exact .inl rfl
  | some sub => exact .inr ⟨sub, rfl, rfl⟩

theorem admits_eq_false (host : Host) (s : System) {sub : Submission}
    (h : ∀ descriptor, sub.phase ≠ .check descriptor) : s.admits host sub = false := by
  unfold admits
  split
  · next descriptor hphase => exact absurd hphase (h descriptor)
  · rfl

/-- What a step of a submission leaves of the daemon. It admits nothing before its last check. -/
theorem proceed_cases (host : Host) (s : System) (sub : Submission) (refresh : Refresh) :
    (s.admits host sub = false ∧
      ((s.proceed host sub refresh).1 = s ∨
      (∃ descriptor,
        (s.proceed host sub refresh).1 = s.describe sub.request.deviceId descriptor) ∨
      ∃ availability,
        (s.proceed host sub refresh).1 = s.setAvailability sub.request.deviceId availability)) ∨
    ∃ descriptor, sub.phase = .check descriptor ∧ sub.precheck descriptor = .ok () ∧
      (s.proceed host sub refresh).1 = (s.tryStart host sub).1 := by
  unfold proceed
  cases hphase : sub.phase with
  | check descriptor =>
      dsimp only
      cases hprecheck : sub.precheck descriptor with
      | error e =>
          refine .inl ⟨?_, .inl rfl⟩
          rw [admits, hphase]
          dsimp only
          rw [hprecheck]
          rfl
      | ok u => exact .inr ⟨descriptor, rfl, hprecheck, rfl⟩
  | describe descriptor =>
      exact .inl ⟨s.admits_eq_false host (by simp [hphase]), .inr (.inl ⟨descriptor, rfl⟩)⟩
  | publish descriptor =>
      refine .inl ⟨s.admits_eq_false host (by simp [hphase]), .inr (.inr ?_)⟩
      exact ⟨descriptor.status.availability, rfl⟩
  | done result => exact .inl ⟨s.admits_eq_false host (by simp [hphase]), .inl rfl⟩
  | _ =>
      refine .inl ⟨s.admits_eq_false host (by simp [hphase]), .inl ?_⟩
      dsimp only
      split <;> rfl

theorem advance_workers (host : Host) (s : System) (n : ℕ) (refresh : Refresh) :
    (s.advance host n refresh).workers = s.workers := by
  rcases advance_cases host s n refresh with hsame | ⟨sub, -, hadvance⟩
  · rw [hsame]
  · rw [hadvance]
    rcases s.proceed_cases host sub refresh with
        ⟨-, hp | ⟨descriptor, hp⟩ | ⟨availability, hp⟩⟩ | ⟨descriptor, -, -, hp⟩
    · rw [hp]
    · rw [hp]
      rfl
    · rw [hp]
      rfl
    · rw [hp]
      rcases s.tryStart_cases host sub with
          ⟨result, hr⟩ | ⟨accepted, op, -, -, ⟨-, hr⟩ | ⟨-, hr⟩⟩ <;> rw [hr]

/-- A worker has an instruction to carry out, or goes on with its pass. -/
theorem work_cases (host : Host) (s : System) (device : DeviceId) (i : Inputs) :
    s.work host device i = s ∨
    (∃ instr rest, (s.workers device).todo = instr :: rest ∧
      s.work host device i = s.execute host device i instr rest) ∨
    ((s.workers device).todo = [] ∧ s.work host device i = s.pass host device i) := by
  unfold work
  split_ifs
  · exact .inl rfl
  · cases htodo : (s.workers device).todo with
    | nil => exact .inr (.inr ⟨rfl, rfl⟩)
    | cons instr rest => exact .inr (.inl ⟨instr, rest, rfl, rfl⟩)

theorem exec_worker (host : Host) (device : DeviceId) (i : Inputs) (store : Store) (w : Worker)
    (instr : Instr) : ∃ decoder bootReopenAt, (Worker.exec host device i store w instr).2 =
      { w with decoder := decoder, bootReopenAt := bootReopenAt } := by
  cases instr with
  | raw bytes reopens deadline =>
      unfold Worker.exec
      dsimp only
      split
      · exact ⟨_, _, rfl⟩
      · exact ⟨_, _, rfl⟩
  | _ => exact ⟨_, _, rfl⟩

/-- An instruction changes the store, and of its worker no more than the line decoder and the
time of a reopening. -/
theorem execute_eq (host : Host) (s : System) (device : DeviceId) (i : Inputs) (instr : Instr)
    (rest : List Instr) : ∃ decoder bootReopenAt runtimes,
      runtimes.map Prod.fst = s.devices ∧ s.execute host device i instr rest =
        { s.setWorker device { s.workers device with
            todo := rest, decoder := decoder, bootReopenAt := bootReopenAt } with
          store := (Worker.exec host device i s.store
            { s.workers device with todo := rest } instr).1
          runtimes := runtimes } := by
  obtain ⟨decoder, bootReopenAt, hw⟩ :=
    exec_worker host device i s.store { s.workers device with todo := rest } instr
  unfold execute
  dsimp only at hw ⊢
  rw [hw]
  cases instr with
  | describe descriptor => exact ⟨_, _, _, s.describe_devices device descriptor, rfl⟩
  | _ => exact ⟨_, _, _, rfl, rfl⟩

theorem work_workers_of_ne (host : Host) (s : System) {device d : DeviceId} (hd : d ≠ device)
    (i : Inputs) : (s.work host device i).workers d = s.workers d := by
  rcases s.work_cases host device i with hw | ⟨instr, rest, -, hw⟩ | ⟨-, hw⟩
  · rw [hw]
  · obtain ⟨decoder, bootReopenAt, runtimes, -, hexecute⟩ := s.execute_eq host device i instr rest
    rw [hw, hexecute]
    exact Function.update_of_ne hd _ _
  · rw [hw, pass]
    dsimp only
    split
    · exact Function.update_of_ne hd _ _
    · split_ifs <;> exact Function.update_of_ne hd _ _
    · split <;> exact Function.update_of_ne hd _ _
    · exact Function.update_of_ne hd _ _
    · rfl

theorem discover_cases (s : System) (descriptor : DeviceDescriptor) :
    s.discover descriptor = s ∨ descriptor.id ∉ s.devices ∧ s.discover descriptor =
      { s with
        runtimes := s.runtimes ++ [(descriptor.id, descriptor)]
        store := s.store.modifyDevice descriptor.id fun _ => { status := descriptor.status }
        queues := Function.update s.queues descriptor.id []
        workers := Function.update s.workers descriptor.id {} } := by
  unfold discover
  split_ifs with hold
  · exact .inl rfl
  · exact .inr ⟨fun hmem => hold (.inl (mem_devices.mp hmem)), rfl⟩

namespace Consistent
variable {host : Host} {s : System}

theorem init (epoch : String) (runtimes : List (DeviceId × DeviceDescriptor)) :
    (System.init epoch runtimes).Consistent where
  retained := .init epoch _ _
  found _ h := by cases h

theorem advance (h : s.Consistent) (n : ℕ) (refresh : Refresh) :
    (s.advance host n refresh).Consistent := by
  rcases advance_cases host s n refresh with hsame | ⟨sub, hsub, hadvance⟩
  · rw [hsame]
    exact h
  · have hkeeps := proceed_keeps host h (List.mem_of_getElem? hsub) refresh
    rw [hadvance]
    refine ⟨hkeeps.retained, fun other hother hfound => ?_⟩
    have hdevices := hkeeps.devices
    unfold System.devices at hdevices ⊢
    rw [hdevices]
    rw [hkeeps.submissions] at hother
    rcases List.mem_or_eq_of_mem_set hother with hother | rfl
    · exact h.found other hother hfound
    · rw [hkeeps.request]
      exact hkeeps.found hfound

theorem describe (h : s.Consistent) (device : DeviceId) (descriptor : DeviceDescriptor) :
    (s.describe device descriptor).Consistent where
  retained := by
    rw [describe_devices]
    exact h.retained
  found := by
    rw [describe_devices]
    exact h.found

theorem evolve (h : s.Consistent) {store : Store} (hstore : s.store.Evolves store)
    (queues : DeviceId → List Job) (workers : DeviceId → Worker) :
    Consistent { s with store := store, queues := queues, workers := workers } :=
  ⟨h.retained.evolve hstore, h.found⟩

theorem execute (h : s.Consistent) (device : DeviceId) (i : Inputs) (instr : Instr)
    (rest : List Instr) : (s.execute host device i instr rest).Consistent := by
  obtain ⟨decoder, bootReopenAt, runtimes, hdevices, hexecute⟩ :=
    s.execute_eq host device i instr rest
  have hevolves := Worker.evolves_exec host device i s.store
    { s.workers device with todo := rest } instr
  rw [hexecute]
  constructor
  · rw [System.devices, hdevices]
    exact h.retained.evolve hevolves
  · rw [System.devices, hdevices]
    exact h.found

theorem pass (h : s.Consistent) (device : DeviceId) (i : Inputs) :
    (s.pass host device i).Consistent := by
  unfold System.pass
  dsimp only
  split
  · exact h.evolve (.refl _) _ _
  · split_ifs <;> exact h.evolve (.refl _) _ _
  · split <;> exact h.evolve (.refl _) _ _
  · exact h.evolve (.refl _) _ _
  · exact h

theorem next (h : s.Consistent) (step : Step) : (s.next host step).Consistent := by
  cases step with
  | submit request action identity =>
      refine ⟨h.retained, fun sub hsub hfound => ?_⟩
      rcases List.mem_append.mp hsub with hsub | hsub
      · exact h.found sub hsub hfound
      · rw [List.mem_singleton.mp hsub] at hfound
        cases hfound
  | advance n refresh => exact h.advance n refresh
  | work device inputs =>
      rw [System.next]
      rcases work_cases host s device inputs with hw | ⟨instr, rest, -, hw⟩ | ⟨-, hw⟩
      · rwa [hw]
      · rw [hw]
        exact h.execute device inputs instr rest
      · rw [hw]
        exact h.pass device inputs
  | shutdown => exact ⟨h.retained, h.found⟩
  | discover descriptor =>
      rw [System.next]
      rcases s.discover_cases descriptor with hold | ⟨hnew, hd⟩
      · rwa [hold]
      · rw [hd]
        have hdevices : (s.runtimes ++ [(descriptor.id, descriptor)]).map Prod.fst =
            s.devices ++ [descriptor.id] := List.map_append
        constructor
        · rw [System.devices, hdevices]
          exact h.retained.discover hnew
        · intro sub hsub hfound
          rw [System.devices, hdevices]
          exact List.mem_append_left _ (h.found sub hsub hfound)
  | describe device descriptor => exact h.describe device descriptor
  | setAvailability device availability =>
      simp only [System.next]
      split_ifs
      · exact h.evolve (s.store.evolves_setAvailability device availability) _ _
      · exact h

theorem run (host : Host) (h : s.Consistent) (steps : List Step) :
    (s.run host steps).Consistent := by
  induction steps generalizing s with
  | nil => exact h
  | cons step steps ih => exact ih (h.next step)

end Consistent

end System

/-- The next step of this submission looks its request key up. -/
def Submission.checksKey (sub : Submission) : Bool :=
  match sub.phase with
  | .replay _ => true
  | .check device => (sub.precheck device).isOk
  | _ => false

namespace System

/-- What a key check finds while the operation of its key is retained. -/
structure Idempotent (host : Host) (s : System) : Prop where
  check : ∀ op ∈ s.store.operations, ∃ e ∈ s.enqueued, e.ticket = op.ticket ∧
    ∀ n refresh sub, s.submissions[n]? = some sub → sub.identity.key = op.requestKey →
      sub.checksKey = true →
      s.advance host n refresh =
        { s with
          submissions := s.submissions.set n (sub.finish (
            if sub.identity.fingerprint = e.identity.fingerprint then .ok op
            else .error ⟨.conflict,
              "idempotency_key_conflict: key was already used for a different request"⟩)) }
  once : s.enqueued.Pairwise fun e e' =>
    (∃ op ∈ s.store.operations, op.ticket = e.ticket) → e'.identity.key ≠ e.identity.key

/-- A key check ends the submission with what the look-up finds. -/
theorem proceed_of_checksKey (host : Host) {s : System} {sub : Submission}
    (hcheck : sub.checksKey = true) (refresh : Refresh) {found : ApiResult Operation}
    (hreplay : s.store.replay sub.identity = found.map some) :
    s.proceed host sub refresh = (s, sub.finish found) := by
  unfold Submission.checksKey at hcheck
  unfold proceed
  dsimp only
  split at hcheck
  · next runtime hphase =>
    rw [hphase]
    dsimp only
    rw [hreplay]
    cases found <;> rfl
  · next device hphase =>
    rw [hphase]
    dsimp only
    have hstart : s.tryStart host sub = (s, found) := by
      unfold tryStart
      rw [hreplay]
      cases found <;> rfl
    rw [hstart]
    cases hpre : sub.precheck device with
    | error e =>
        rw [hpre] at hcheck
        cases hcheck
    | ok u => rfl
  · cases hcheck

theorem Consistent.idempotent (host : Host) {s : System} (h : s.Consistent) :
    Idempotent host s where
  check op hop := by
    obtain ⟨e, he, hticket⟩ := h.retained.entry _ (List.mem_map_of_mem hop)
    refine ⟨e, he, hticket, fun n refresh sub hsub hkey hcheck => ?_⟩
    have hreplay := h.retained.replay_eq hop he hticket hkey
    rw [System.advance, hsub]
    dsimp only
    rw [proceed_of_checksKey host hcheck]
    rw [hreplay]
    split_ifs <;> rfl
  once := by
    refine h.retained.once.imp fun hpair hretained => hpair ?_
    obtain ⟨op, hop, hticket⟩ := hretained
    exact hticket ▸ List.mem_map_of_mem hop

/-- Whatever submissions, workers, shutdown and discovery do in between. -/
theorem idempotent_admission (host : Host) (epoch : String)
    (runtimes : List (DeviceId × DeviceDescriptor)) (steps : List Step) :
    Idempotent host ((System.init epoch runtimes).run host steps) :=
  ((Consistent.init epoch runtimes).run host steps).idempotent host

end System
end IdfRemote
