import IdfRemote.StoreSteps

/-!
# The history of a run

What a run announces on a device, numbered from one, is the history of the device.
The ring is what emitting all of it leaves, so as long as no event is too large the
ring serves any part of the history that it still has and reports the rest as gone.
-/
namespace IdfRemote
open BoundedLog

@[simp] theorem length_numberFrom (n : ℕ) (news : List News) :
    (numberFrom n news).length = news.length := by
  induction news generalizing n with
  | nil => rfl
  | cons first news ih => rw [numberFrom, List.length_cons, List.length_cons, ih]

theorem numberFrom_append (n : ℕ) (news more : List News) :
    numberFrom n (news ++ more) = numberFrom n news ++ numberFrom (n + news.length) more := by
  induction news generalizing n with
  | nil => rfl
  | cons first news ih =>
      rw [List.cons_append, numberFrom, numberFrom, ih, List.cons_append, List.length_cons,
        Nat.add_assoc, Nat.add_comm 1]

theorem seq_numberFrom (n : ℕ) (news : List News) :
    (numberFrom n news).map Event.seq = List.range' (n + 1) news.length := by
  induction news generalizing n with
  | nil => rfl
  | cons first news ih => rw [numberFrom, List.map_cons, ih, List.length_cons, List.range'_succ]

theorem kind_of_mem_numberFrom {n : ℕ} {news : List News} {e : Event}
    (h : e ∈ numberFrom n news) : ∃ data, (e.kind, data) ∈ news := by
  induction news generalizing n with
  | nil => cases h
  | cons first news ih =>
      rw [numberFrom] at h
      rcases List.mem_cons.mp h with rfl | h
      · exact ⟨first.2, List.mem_cons_self⟩
      · obtain ⟨data, hdata⟩ := ih h
        exact ⟨data, List.mem_cons_of_mem _ hdata⟩

namespace Polling
variable {size : Event → ℕ} {state state' : DeviceState} {published : List Event}

theorem Retains.congr (h : Retains size state published) (hring : state'.ring = state.ring) :
    Retains size state' published := by
  simp only [DeviceState.ring, Prod.mk.injEq] at hring
  obtain ⟨hseq, hevents, hbytes⟩ := hring
  refine ⟨h.numbered, hseq.trans h.seq_eq, ?_⟩
  rw [hevents, hbytes]
  exact h.keeps

theorem Retains.emitAll (h : Retains size state published) (news : List News)
    (hsize : ∀ e ∈ numberFrom state.seq news, size e ≤ maxEventBytes) :
    Retains size (state.emitAll size news) (published ++ numberFrom state.seq news) := by
  induction news generalizing state published with
  | nil =>
      rw [numberFrom, List.append_nil]
      exact h
  | cons first news ih =>
      have hfirst := h.emit (hsize _ List.mem_cons_self)
      have hrest := ih hfirst fun e he => hsize e (List.mem_cons_of_mem _ he)
      rw [List.append_assoc] at hrest
      exact hrest

end Polling

/-- A device that nobody knows has no events. -/
def System.Fresh (s : System) : Prop :=
  ∀ device, device ∉ s.devices → (s.store.devices device).ring = (0, [], 0)

namespace Store
variable {s accepted : Store} {host : Host} {device : DeviceId} {action : Action}
  {identity : RequestIdentity} {op : Operation} {devices : List DeviceId}
  {enqueued : List Enqueued}

theorem announces_cleared (h : Retained s devices enqueued) (host : Host) (device : DeviceId)
    (action : Action) :
    s.Announces host.eventSize device [("operation_started", .object [])]
      (s.cleared host device action) := by
  have hoccupy : s.Announces host.eventSize device [("operation_started", .object [])]
      (s.occupy host device action) :=
    (s.announces_modifyDevice (f := (·.occupy action)) device fun _ => rfl).trans
      (announces_emit _ _ _ _ _)
  have hsame := (h.cleared_sheds host device action).devices
  exact ⟨by rw [hsame]; exact hoccupy.own, fun d hd => by rw [hsame]; exact hoccupy.other d hd⟩

theorem announces_accept (h : Retained s devices enqueued)
    (haccept : s.accept host device action identity = .ok (accepted, op)) :
    s.Announces host.eventSize device [("operation_started", .object [])] accepted := by
  have hcleared := announces_cleared h host device action
  obtain ⟨-, rfl, rfl⟩ := accept_cases haccept
  have hpush : s.Announces host.eventSize device [("operation_started", .object [])]
      ((s.cleared host device action).push ((s.occupy host device action).started device identity)
        identity.fingerprint) := ⟨hcleared.own, hcleared.other⟩
  exact hpush.trans (announces_modifyDevice (f := (·.setActivity .busy)) _ device fun _ => rfl)

theorem announces_withdraw (h : Retained s devices enqueued)
    (haccept : s.accept host device action identity = .ok (accepted, op)) :
    s.Announces host.eventSize device [("operation_started", .object [])]
      (accepted.withdraw device action identity) := by
  have hwithdraw := (announces_accept h haccept).trans
    (announces_modifyDevice (f := (·.release action)) _ device fun _ => rfl)
  exact ⟨hwithdraw.own, hwithdraw.other⟩

end Store

/-- What a step announces is all that it does to the events of the devices it knows. -/
theorem StoreStep.ring {host : Host} {s : System} {step : Step} {store : Store}
    {enqueued : List Enqueued} {devices : List DeviceId} {news : DeviceId → List News}
    (h : StoreStep host s step store enqueued devices news)
    (hretained : Retained s.store s.devices s.enqueued) (hfresh : s.Fresh) (device : DeviceId) :
    (store.devices device).ring =
      ((s.store.devices device).emitAll host.eventSize (news device)).ring := by
  have hone : ∀ {d : DeviceId} {more : List News} {store : Store},
      s.store.Announces host.eventSize d more store → (store.devices device).ring =
        ((s.store.devices device).emitAll host.eventSize (newsOn d more device)).ring := by
    intro d more store hannounces
    by_cases hd : device = d
    · subst hd
      rw [newsOn_self]
      exact hannounces.own
    · rw [newsOn_of_ne hd]
      exact hannounces.other device hd
  cases h with
  | idle => rfl
  | availability d availability =>
      have hmodify := hone (s.store.announces_modifyDevice (f := (·.setAvailability availability))
        d fun _ => rfl)
      rwa [newsOn_nil] at hmodify
  | admission sub accepted op hknown hreplay haccept hroom =>
      exact hone (Store.announces_accept hretained haccept)
  | withdrawal sub accepted op hknown hreplay haccept hroom =>
      exact hone (Store.announces_withdraw hretained haccept)
  | instruction d i instr rest hknown htodo => exact hone (Worker.announces_exec host d i _ _ instr)
  | discovery descriptor hnew =>
      by_cases hd : device = descriptor.id
      · rw [hd, Store.modifyDevice_self]
        exact (hfresh descriptor.id hnew).symm
      · rw [Store.modifyDevice_of_ne _ _ _ hd]
        rfl

theorem StoreStep.news_eq_nil {host : Host} {s : System} {step : Step} {store : Store}
    {enqueued : List Enqueued} {devices : List DeviceId} {news : DeviceId → List News}
    (h : StoreStep host s step store enqueued devices news) {device : DeviceId}
    (hdevice : device ∉ s.devices) : news device = [] := by
  have hone : ∀ {d : DeviceId} {more : List News}, d ∈ s.devices → newsOn d more device = [] := by
    intro d more hd
    have hne : device ≠ d := fun heq => hdevice (heq ▸ hd)
    exact newsOn_of_ne hne more
  cases h with
  | idle => rfl
  | availability d availability => rfl
  | admission sub accepted op hknown hreplay haccept hroom => exact hone hknown
  | withdrawal sub accepted op hknown hreplay haccept hroom => exact hone hknown
  | instruction d i instr rest hknown htodo => exact hone hknown
  | discovery descriptor hnew => rfl

theorem StoreStep.devices_subset {host : Host} {s : System} {step : Step} {store : Store}
    {enqueued : List Enqueued} {devices : List DeviceId} {news : DeviceId → List News}
    (h : StoreStep host s step store enqueued devices news) : s.devices ⊆ devices := by
  cases h with
  | discovery descriptor hnew => exact List.subset_append_left _ _
  | _ => exact List.Subset.refl _

namespace System
variable {s : System}

theorem Fresh.init (epoch : String) (runtimes : List (DeviceId × DeviceDescriptor)) :
    (System.init epoch runtimes).Fresh := fun _ _ => rfl

theorem ring_next (host : Host) (h : s.Fresh) (hconsistent : s.Consistent) (step : Step)
    (device : DeviceId) : ((s.next host step).store.devices device).ring =
      ((s.store.devices device).emitAll host.eventSize (s.news host step device)).ring :=
  (s.next_storeStep host hconsistent step).ring hconsistent.retained h device

theorem Fresh.next (h : s.Fresh) (hconsistent : s.Consistent) (host : Host) (step : Step) :
    (s.next host step).Fresh := by
  intro device hdevice
  have hstep := s.next_storeStep host hconsistent step
  have hold : device ∉ s.devices := fun hmem => hdevice (hstep.devices_subset hmem)
  rw [ring_next host h hconsistent, hstep.news_eq_nil hold]
  exact h device hold

/-- The ring of a device is what emitting everything that was announced leaves. -/
theorem ring_run (host : Host) (h : s.Fresh) (hconsistent : s.Consistent) (steps : List Step)
    (device : DeviceId) : ((s.run host steps).store.devices device).ring =
      ((s.store.devices device).emitAll host.eventSize (s.announced host device steps)).ring := by
  induction steps generalizing s with
  | nil => rfl
  | cons step steps ih =>
      have hrest := ih (h.next hconsistent host step) (hconsistent.next step)
      rw [announced, DeviceState.emitAll_append]
      exact hrest.trans (DeviceState.ring_emitAll (ring_next host h hconsistent step device) _)

theorem announced_append (host : Host) (device : DeviceId) (s : System) (steps more : List Step) :
    s.announced host device (steps ++ more) =
      s.announced host device steps ++ (s.run host steps).announced host device more := by
  induction steps generalizing s with
  | nil => rfl
  | cons step steps ih =>
      rw [List.cons_append, announced, announced, ih, List.append_assoc]
      rfl

theorem history_append (host : Host) (h : s.Fresh) (hconsistent : s.Consistent)
    (steps more : List Step) (device : DeviceId) : s.history host (steps ++ more) device =
      s.history host steps device ++ (s.run host steps).history host more device := by
  have hseq := DeviceState.seq_of_ring (ring_run host h hconsistent steps device)
  rw [DeviceState.seq_emitAll] at hseq
  rw [history, history, history, announced_append, numberFrom_append, hseq]

/-- As long as no event is too large, the ring keeps the end of the history. -/
theorem retains_history (host : Host) (epoch : String)
    (runtimes : List (DeviceId × DeviceDescriptor)) (steps : List Step) (device : DeviceId)
    (hsize : ∀ e ∈ (System.init epoch runtimes).history host steps device,
      host.eventSize e ≤ maxEventBytes) :
    Polling.Retains host.eventSize (((System.init epoch runtimes).run host steps).store.devices
      device) ((System.init epoch runtimes).history host steps device) := by
  have hring := ring_run host (.init epoch runtimes) (.init epoch runtimes) steps device
  have hempty : Polling.Retains host.eventSize
      ((System.init epoch runtimes).store.devices device) [] := ⟨rfl, rfl, Keeps.nil⟩
  exact (hempty.emitAll _ hsize).congr hring

end System
end IdfRemote
