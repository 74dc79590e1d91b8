import IdfRemote.Announcements
import IdfRemote.Idempotency
import IdfRemote.WorkerInstructions

/-!
# A worker announces no operation by itself

Operations are announced where they start and where they are concluded. The events
that a pass writes down for later are of other kinds.
-/
namespace IdfRemote

/-- The kinds of events that speak about operations. -/
def announcesOperation (kind : String) : Bool :=
  kind = "operation_started" || kind = "operation_finished"

def Instr.ordinary : Instr → Bool
  | .emit kind _ => !announcesOperation kind
  | _ => true

def Ordinary (todo : List Instr) : Prop := ∀ instr ∈ todo, instr.ordinary = true

/-- Apart from completions, such an instruction announces no operation. -/
theorem Worker.news_ordinary (w : Worker) (host : Host) (device : DeviceId) (i : Inputs)
    (s : Store) {instr : Instr} (hcompletes : instr.completes = false)
    (hordinary : instr.ordinary = true) :
    ∀ n ∈ w.news host device i s instr, announcesOperation n.1 = false := by
  have hpublish : ∀ bytes, ∀ n ∈ Store.publishNews host i.hostTime w.decoder bytes,
      announcesOperation n.1 = false := by
    intro bytes n hn
    rcases List.mem_cons.mp hn with rfl | hn
    · rfl
    · obtain ⟨r, -, rfl⟩ := List.mem_map.mp hn
      rfl
  have hsingle : ∀ {n : News}, announcesOperation n.1 = false →
      ∀ m ∈ [n], announcesOperation m.1 = false := fun h => List.forall_mem_singleton.mpr h
  cases instr with
  | finishStream done hasReader => cases hcompletes
  | finishExclusive id result artifact hasReader => cases hcompletes
  | emit kind data => exact hsingle (by simpa [Instr.ordinary] using hordinary)
  | describe descriptor => exact fun n hn => nomatch hn
  | setAvailability availability => exact fun n hn => nomatch hn
  | beginMonitorReconnect baud text => exact hsingle rfl
  | finishMonitorReconnect baud attempts => exact hsingle rfl
  | output output =>
      unfold Worker.news Store.outputNews
      dsimp only
      split_ifs
      · exact fun n hn => nomatch hn
      · cases output with
        | console bytes => exact hpublish bytes
        | event value => exact hsingle rfl
        | corruptFrame => exact hsingle rfl
  | raw bytes reopens deadline =>
      unfold Worker.news
      dsimp only
      split_ifs
      · exact fun n hn => nomatch hn
      · exact hpublish bytes

theorem leftByWorkers_ordinary : LeftByWorkers fun instr => instr.ordinary = true where
  finishStream _ _ := rfl
  emit kind hkind _ := by
    simp only [workerKinds, List.mem_cons, List.not_mem_nil, or_false] at hkind
    rcases hkind with rfl | rfl | rfl | rfl | rfl <;> rfl
  describe _ := rfl
  setAvailability _ := rfl

theorem leftByJobs_ordinary : LeftByJobs fun instr => instr.ordinary = true where
  toLeftByWorkers := leftByWorkers_ordinary
  finishExclusive _ _ _ _ := rfl

theorem leftByReads_ordinary : LeftByReads fun instr => instr.ordinary = true where
  toLeftByWorkers := leftByWorkers_ordinary
  beginMonitorReconnect _ _ := rfl
  finishMonitorReconnect _ _ := rfl
  output _ := rfl
  raw _ _ _ := rfl

/-- No worker has an instruction that announces an operation. -/
def System.Ordinary (s : System) : Prop := ∀ device, IdfRemote.Ordinary (s.workers device).todo

namespace System
variable {s : System}

theorem ordinary_init (epoch : String) (runtimes : List (DeviceId × DeviceDescriptor)) :
    (System.init epoch runtimes).Ordinary := fun _ => List.forall_mem_nil _

theorem Ordinary.setWorker (h : s.Ordinary) (device : DeviceId) {w : Worker}
    (hw : IdfRemote.Ordinary w.todo) : (s.setWorker device w).Ordinary := by
  intro d
  by_cases hd : d = device
  · subst hd
    rwa [setWorker_self]
  · rw [setWorker_of_ne s w hd]
    exact h d

theorem Ordinary.pass (h : s.Ordinary) (host : Host) (device : DeviceId) (i : Inputs)
    (htodo : (s.workers device).todo = []) : (s.pass host device i).Ordinary := by
  unfold System.pass
  dsimp only
  split
  · exact h.setWorker device (leftByWorkers_ordinary.abandon htodo)
  · split_ifs <;> exact h.setWorker device (h device)
  · split
    · exact h.setWorker device (leftByJobs_ordinary.serve host _ _ i)
    · exact h.setWorker device (leftByReads_ordinary.idle host _ i htodo)
  · exact h.setWorker device (w := { s.workers device with place := .exited }) (h device)
  · exact h

theorem Ordinary.work (h : s.Ordinary) (host : Host) (device : DeviceId) (i : Inputs) :
    (s.work host device i).Ordinary := by
  rcases work_cases host s device i with hw | ⟨instr, rest, htodo, hw⟩ | ⟨htodo, hw⟩
  · rwa [hw]
  · obtain ⟨decoder, bootReopenAt, runtimes, -, hexecute⟩ :=
      s.execute_eq host device i instr rest
    have hrest : IdfRemote.Ordinary rest := fun other hother =>
      h device other (htodo ▸ List.mem_cons_of_mem _ hother)
    rw [hw, hexecute]
    exact h.setWorker device (w := { s.workers device with
      todo := rest, decoder := decoder, bootReopenAt := bootReopenAt }) hrest
  · rw [hw]
    exact h.pass host device i htodo

theorem Ordinary.next (h : s.Ordinary) (host : Host) (step : Step) :
    (s.next host step).Ordinary := by
  cases step with
  | submit request action identity => exact h
  | advance n refresh =>
      unfold System.Ordinary
      rw [System.next, advance_workers]
      exact h
  | work device inputs => exact h.work host device inputs
  | shutdown => exact h
  | discover descriptor =>
      rw [System.next]
      rcases s.discover_cases descriptor with hold | ⟨-, hd⟩
      · rwa [hold]
      · rw [hd]
        exact h.setWorker descriptor.id (w := {}) (List.forall_mem_nil _)
  | describe device descriptor => exact h
  | setAvailability device availability =>
      simp only [System.next]
      split_ifs <;> exact h

end System
end IdfRemote
