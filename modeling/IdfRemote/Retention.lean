import IdfRemote.Announcements
import Mathlib.Data.List.Nodup
import Mathlib.Data.List.Perm.Basic

/-!
# Operations and their request keys

What never changes of an operation is its ticket. The tickets of the retained
operations, the records of request keys and the jobs handed to workers stay in
step: whatever a section of the lock does, it keeps the tickets, sheds some with
their keys, or takes a new ticket for a new key.
-/
namespace IdfRemote

structure Ticket where
  id : String
  device : DeviceId
  key : String

def Operation.ticket (op : Operation) : Ticket := ⟨op.id, op.deviceId, op.requestKey⟩

def Enqueued.device (e : Enqueued) : DeviceId := e.job.request.deviceId

def Enqueued.ticket (e : Enqueued) : Ticket := ⟨e.job.id, e.device, e.identity.key⟩

def Store.tickets (s : Store) : List Ticket := s.operations.map Operation.ticket

/-- The part behind the last separator is determined. -/
theorem append_cons_inj_last {α : Type} {a : α} {front front' back back' : List α}
    (hback : a ∉ back) (hback' : a ∉ back')
    (h : front ++ a :: back = front' ++ a :: back') : front = front' ∧ back = back' := by
  rcases List.append_eq_append_iff.mp h with ⟨mid, hfront, hmid⟩ | ⟨mid, hfront, hmid⟩
  · cases mid with
    | nil => simp_all
    | cons b mid =>
        obtain ⟨rfl, rfl⟩ : a = b ∧ back = mid ++ a :: back' := by simpa using hmid
        simp at hback
  · cases mid with
    | nil => simp_all
    | cons b mid =>
        obtain ⟨rfl, rfl⟩ : a = b ∧ back' = mid ++ a :: back := by simpa using hmid
        simp at hback'

/-- Device names may contain any character, yet an identifier tells its device and number. -/
theorem Store.operationId_inj {s : Store} {device device' : DeviceId} {n n' : ℕ}
    (h : s.operationId device n = s.operationId device' n') : device = device' ∧ n = n' := by
  have hdash : ∀ k : ℕ, '-' ∉ Nat.toDigits 10 k := by
    intro k hk
    have hdigit := Nat.isDigit_of_mem_toDigits (by decide) (by decide) hk
    simp at hdigit
  have hlist := congrArg String.toList h
  simp only [operationId, String.toList_append, List.append_assoc, List.append_cancel_left_eq,
    Nat.toString_eq_repr, Nat.toList_repr] at hlist
  obtain ⟨hdevice, hdigits⟩ := append_cons_inj_last (hdash n) (hdash n') hlist
  refine ⟨String.toList_injective hdevice, ?_⟩
  have hnumber := congrArg (Nat.ofDigitChars 10 · 0) hdigits
  simpa only [Nat.ofDigitChars_ten_toDigits] using hnumber

/-- Tickets and keys stay, and events are only added. -/
structure Store.Evolves (s s' : Store) : Prop where
  epoch : s'.epoch = s.epoch
  idempotency : s'.idempotency = s.idempotency
  tickets : s'.tickets = s.tickets
  seq_le : ∀ device, (s.devices device).seq ≤ (s'.devices device).seq

/-- Tickets leave with their keys; running operations stay. -/
structure Store.Sheds (s s' : Store) : Prop where
  epoch : s'.epoch = s.epoch
  devices : s'.devices = s.devices
  sublist : s'.operations.Sublist s.operations
  running : s'.operations.filter Operation.isRunning = s.operations.filter Operation.isRunning
  idempotency_some : ∀ key record, s'.idempotency key = some record →
    s.idempotency key = some record
  kept : ∀ t ∈ s'.tickets, s'.idempotency t.key = s.idempotency t.key
  retained : ∀ t ∈ s.tickets, (s'.idempotency t.key).isSome → t ∈ s'.tickets

namespace Store

theorem Evolves.refl (s : Store) : s.Evolves s := ⟨rfl, rfl, rfl, fun _ => le_rfl⟩

theorem Evolves.trans {s s' s'' : Store} (h : s.Evolves s') (h' : s'.Evolves s'') :
    s.Evolves s'' where
  epoch := h'.epoch.trans h.epoch
  idempotency := h'.idempotency.trans h.idempotency
  tickets := h'.tickets.trans h.tickets
  seq_le device := (h.seq_le device).trans (h'.seq_le device)

theorem evolves_modifyDevice (s : Store) (device : DeviceId) {f : DeviceState → DeviceState}
    (hf : (s.devices device).seq ≤ (f (s.devices device)).seq) :
    s.Evolves (s.modifyDevice device f) where
  epoch := rfl
  idempotency := rfl
  tickets := rfl
  seq_le d := by
    by_cases hd : d = device
    · subst hd
      rwa [modifyDevice_self]
    · rw [modifyDevice_of_ne _ _ _ hd]

theorem evolves_emit (size : Event → ℕ) (s : Store) (device : DeviceId) (kind : String)
    (data : Value) : s.Evolves (s.emit size device kind data) :=
  evolves_modifyDevice s device (by simp)

theorem evolves_emitAll (size : Event → ℕ) (s : Store) (device : DeviceId) (news : List News) :
    s.Evolves (s.emitAll size device news) :=
  related_emitAll .refl (fun h h' => h.trans h') (fun s => s.evolves_emit size device) s news

theorem evolves_setAvailability (s : Store) (device : DeviceId)
    (availability : DeviceAvailability) :
    s.Evolves (s.modifyDevice device (·.setAvailability availability)) :=
  s.evolves_modifyDevice (f := (·.setAvailability availability)) device le_rfl

theorem evolves_foldl {ι : Type} {f : Store → ι → Store} (hf : ∀ s x, Evolves s (f s x))
    (s : Store) (xs : List ι) : s.Evolves (xs.foldl f s) := by
  induction xs generalizing s with
  | nil => exact .refl s
  | cons x xs ih => exact (hf s x).trans (ih _)

theorem map_updateFirst {α β : Type} {p : α → Bool} {f : α → α} {g : α → β}
    (hg : ∀ x, g (f x) = g x) (xs : List α) : (updateFirst p f xs).map g = xs.map g := by
  induction xs with
  | nil => rfl
  | cons x xs ih =>
      unfold updateFirst
      split_ifs
      · rw [List.map_cons, List.map_cons, hg]
      · rw [List.map_cons, List.map_cons, ih]

theorem ticket_finish (op : Operation) (result : Result Value) :
    (op.finish result).ticket = op.ticket := by
  cases result <;> rfl

theorem ticket_finished (result : Result Value) (artifact : Option ArtifactRecord)
    (op : Operation) : (finished result artifact op).ticket = op.ticket := by
  cases result <;> rfl

theorem completeStream_seq (state : DeviceState) (lane : Lane) (hasReader : Bool) :
    (state.completeStream lane hasReader).seq = state.seq := by
  cases lane <;> rfl

theorem evolves_conclude (host : Host) (s : Store) (device : DeviceId) (id : String)
    {finish : Operation → Operation} {complete : DeviceState → DeviceState}
    (hfinish : ∀ op, (finish op).ticket = op.ticket)
    (hcomplete : ∀ state, (complete state).seq = state.seq) :
    s.Evolves (s.conclude host device id finish complete) := by
  unfold conclude
  split
  · exact .refl s
  · have hoperations : s.Evolves
        { s with operations := updateFirst (fun op => op.id = id) finish s.operations } :=
      ⟨rfl, rfl, map_updateFirst hfinish _, fun _ => le_rfl⟩
    refine hoperations.trans ((evolves_modifyDevice _ device ?_).trans (evolves_emit _ _ _ _ _))
    rw [hcomplete]

theorem evolves_finishCompletion (host : Host) (s : Store) (device : DeviceId)
    (hasReader : Bool) (c : Completion) : s.Evolves (s.finishCompletion host device hasReader c) :=
  s.evolves_conclude host device c.key (ticket_finish · c.result)
    (completeStream_seq · c.lane hasReader)

theorem evolves_finishStream (host : Host) (s : Store) (device : DeviceId)
    (done : List Completion) (hasReader : Bool) :
    s.Evolves (s.finishStream host device done hasReader) :=
  evolves_foldl (fun s c => evolves_finishCompletion host s device hasReader c) s done

theorem evolves_keepArtifact (s : Store) (id : String) (result : Result Value)
    (artifact : Option ArtifactRecord) : s.Evolves (s.keepArtifact id result artifact) := by
  unfold keepArtifact
  split
  · exact ⟨rfl, rfl, rfl, fun _ => le_rfl⟩
  · exact .refl s

theorem evolves_finishExclusive (host : Host) (s : Store) (device : DeviceId) (id : String)
    (result : Result Value) (artifact : Option ArtifactRecord) (hasReader : Bool) :
    s.Evolves (s.finishExclusive host device id result artifact hasReader) :=
  (s.evolves_keepArtifact id result artifact).trans
    (evolves_conclude host _ device id (ticket_finished result artifact) fun _ => rfl)

end Store

theorem Worker.evolves_exec (host : Host) (device : DeviceId) (i : Inputs) (s : Store)
    (w : Worker) (instr : Instr) : s.Evolves (Worker.exec host device i s w instr).1 := by
  cases instr with
  | finishStream done hasReader => exact s.evolves_finishStream host device done hasReader
  | finishExclusive id result artifact hasReader =>
      exact s.evolves_finishExclusive host device id result artifact hasReader
  | emit kind data => exact s.evolves_emit _ device kind data
  | describe descriptor => exact .refl s
  | setAvailability availability => exact s.evolves_setAvailability device availability
  | beginMonitorReconnect baud text =>
      refine Store.Evolves.trans (s.evolves_modifyDevice device ?_) (Store.evolves_emit _ _ _ _ _)
      exact le_rfl
  | finishMonitorReconnect baud attempts =>
      refine Store.Evolves.trans (s.evolves_modifyDevice device ?_) (Store.evolves_emit _ _ _ _ _)
      exact le_rfl
  | output output =>
      rw [exec_output]
      exact s.evolves_emitAll _ device _
  | raw bytes reopens deadline =>
      rw [exec_raw]
      exact s.evolves_emitAll _ device _

namespace Store

theorem expire_cases (s : Store) :
    ((∀ op ∈ s.operations, op.isRunning = true) ∧ s.expire = s) ∨
    ∃ front expired back, s.operations = front ++ expired :: back ∧
      expired.isRunning = false ∧ s.expire =
        { s with
          operations := front ++ back
          idempotency := Function.update s.idempotency expired.requestKey none
          artifacts := Function.update s.artifacts expired.id none } := by
  unfold expire
  cases hfind : s.operations.find? fun op => !op.isRunning with
  | none =>
      refine .inl ⟨fun op hop => ?_, rfl⟩
      simpa using List.find?_eq_none.mp hfind op hop
  | some expired =>
      obtain ⟨hexpired, front, back, hsplit, hfront⟩ := List.find?_eq_some_iff_append.mp hfind
      refine .inr ⟨front, expired, back, hsplit, by simpa using hexpired, ?_⟩
      have herase : s.operations.eraseP (fun op => !op.isRunning) = front ++ back := by
        rw [hsplit, List.eraseP_append_right _ fun op hop => by simpa using hfront op hop,
          List.eraseP_cons_of_pos (by exact hexpired)]
      simp only [herase]

theorem Sheds.refl (s : Store) : s.Sheds s :=
  ⟨rfl, rfl, .refl _, rfl, fun _ _ h => h, fun _ _ => rfl, fun _ h _ => h⟩

theorem Sheds.tickets {s s' : Store} (h : s.Sheds s') : s'.tickets.Sublist s.tickets :=
  h.sublist.map _

theorem Sheds.trans {s s' s'' : Store} (h : s.Sheds s') (h' : s'.Sheds s'') : s.Sheds s'' where
  epoch := h'.epoch.trans h.epoch
  devices := h'.devices.trans h.devices
  sublist := h'.sublist.trans h.sublist
  running := h'.running.trans h.running
  idempotency_some key record hr := h.idempotency_some key record (h'.idempotency_some _ _ hr)
  kept t ht := (h'.kept t ht).trans (h.kept t (h'.tickets.mem ht))
  retained t ht hsome := by
    refine h'.retained t (h.retained t ht ?_) hsome
    obtain ⟨record, hr⟩ := Option.isSome_iff_exists.mp hsome
    rw [h'.idempotency_some _ _ hr]
    rfl

theorem expire_sheds (s : Store) (hkeys : (s.tickets.map Ticket.key).Nodup) :
    s.Sheds s.expire := by
  rcases s.expire_cases with ⟨-, hsame⟩ | ⟨front, expired, back, hsplit, hexpired, hstate⟩
  · rw [hsame]
    exact .refl s
  · have hticket : ∀ t ∈ (front ++ back).map Operation.ticket, t.key ≠ expired.requestKey := by
      intro t ht hkey
      rw [tickets, hsplit, List.map_append, List.map_cons, List.map_append, List.map_cons] at hkeys
      have hperm := (List.perm_middle.nodup_iff.mp hkeys)
      rw [← List.map_append, ← List.map_append] at hperm
      apply (List.nodup_cons.mp hperm).1
      exact List.mem_map.mpr ⟨t, ht, hkey⟩
    rw [hstate]
    constructor
    · rfl
    · rfl
    · rw [hsplit]
      exact List.Sublist.append_left (List.sublist_cons_self _ _) front
    · rw [hsplit, List.filter_append, List.filter_append,
        List.filter_cons_of_neg (by simp [hexpired])]
    · intro key record hr
      by_cases hkey : key = expired.requestKey
      · simp [hkey] at hr
      · simpa [hkey] using hr
    · intro t ht
      exact Function.update_of_ne (hticket t ht) _ _
    · intro t ht hsome
      have hkey : t.key ≠ expired.requestKey := by
        intro hkey
        simp [hkey] at hsome
      rw [tickets, hsplit] at ht
      simp only [tickets, List.map_append, List.map_cons, List.mem_append, List.mem_cons] at ht ⊢
      rcases ht with ht | rfl | ht
      · exact .inl ht
      · exact absurd rfl hkey
      · exact .inr ht

theorem makeRoom_sheds (fuel : ℕ) (s : Store) (hkeys : (s.tickets.map Ticket.key).Nodup) :
    s.Sheds (s.makeRoom fuel) := by
  induction fuel generalizing s with
  | zero => exact .refl s
  | succ fuel ih =>
      unfold makeRoom
      split_ifs
      · have hfirst := s.expire_sheds hkeys
        exact hfirst.trans (ih _ ((hfirst.tickets.map _).nodup hkeys))
      · exact .refl s

/-- A running operation that `push_operation` adds is the last one. -/
def push (s : Store) (op : Operation) (fingerprint : String) : Store :=
  { s with
    operations := s.operations ++ [op]
    idempotency := Function.update s.idempotency op.requestKey (some ⟨fingerprint, op.id⟩) }

/-- The device is occupied, and room is made for the operation. -/
def cleared (host : Host) (s : Store) (device : DeviceId) (action : Action) : Store :=
  (s.occupy host device action).makeRoom s.operations.length

/-- An admission makes room, adds its operation, and marks the device as busy. -/
theorem accept_cases {host : Host} {s s' : Store} {device : DeviceId} {action : Action}
    {identity : RequestIdentity} {op : Operation}
    (h : s.accept host device action identity = .ok (s', op)) :
    ((s.devices device).busy && !(s.devices device).compatible action) = false ∧
    op = (s.occupy host device action).started device identity ∧
    s' = ((s.cleared host device action).push op identity.fingerprint).modifyDevice device
      (·.setActivity .busy) := by
  unfold accept at h
  dsimp only at h
  split_ifs at h with hbusy
  cases h
  exact ⟨by simpa using hbusy, rfl, rfl⟩

theorem withdraw_push (s : Store) (device : DeviceId) (action : Action)
    (identity : RequestIdentity) (op : Operation) (hkey : op.requestKey = identity.key)
    (hnone : s.idempotency identity.key = none) :
    ((s.push op identity.fingerprint).modifyDevice device (·.setActivity .busy)).withdraw device
        action identity =
      s.modifyDevice device fun state => (state.setActivity .busy).release action := by
  have hrecord : Function.update s.idempotency identity.key none = s.idempotency := by
    rw [← hnone, Function.update_eq_self]
  simp [withdraw, push, modifyDevice, hkey, hrecord]

end Store
end IdfRemote
