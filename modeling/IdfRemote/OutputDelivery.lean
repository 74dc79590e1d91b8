import IdfRemote.Discarding

/-!
# What a session delivers is published

While a device discards, an operation that is none of its stream waits in the queue
of its worker, and the worker comes to it before it reads again. It closes the stream
then, unless it is a monitor and the session is still there: such a monitor takes
over a stream that has been read in vain.
-/
namespace IdfRemote
open Runs Mux

/-- Console output and events of the application, but not a frame that was damaged. -/
def Application.Output.shown : Application.Output → Bool
  | .console _ | .event _ => true
  | .corruptFrame => false

/-- What the publication of an output announces, and the line decoder that it leaves. -/
def Store.published (host : Host) (hostTime : ℕ → ℕ) (decoder : LineDecoder) :
    Application.Output → List News × LineDecoder
  | .console bytes =>
      (publishNews host hostTime decoder bytes, (decoder.feed host.logText hostTime bytes).1)
  | .event value => ([("application_event", value)], decoder)
  | .corruptFrame =>
      ([("application_protocol_error", reason "invalid or oversized mux frame")], decoder)

theorem Store.applicationOutput_of_shown (host : Host) (hostTime : ℕ → ℕ) {s : Store}
    {device : DeviceId} (hflag : (s.devices device).discardMonitorRead = false)
    (decoder : LineDecoder) (output : Application.Output) :
    s.applicationOutput host hostTime device decoder output =
      (s.emitAll host.eventSize device (published host hostTime decoder output).1,
        (published host hostTime decoder output).2) := by
  have hnews := s.applicationOutput_eq host hostTime device decoder output
  unfold outputNews at hnews
  unfold applicationOutput at hnews ⊢
  rw [hflag] at hnews ⊢
  cases output with
  | console bytes => exact Prod.ext hnews rfl
  | event value => rfl
  | corruptFrame => rfl

namespace System
variable {host : Host} {s : System} {device : DeviceId}

/-- The books of the daemon, with what its devices discard and its workers attend to. -/
structure Orderly (s : System) : Prop where
  consistent : s.Consistent
  balanced : s.Balanced
  discards : s.store.Discards s.enqueued
  attending : s.Attending

namespace Orderly

theorem init (epoch : String) (runtimes : List (DeviceId × DeviceDescriptor)) :
    (System.init epoch runtimes).Orderly where
  consistent := .init epoch runtimes
  balanced := .init epoch runtimes
  discards _ h := by cases h
  attending := .init epoch runtimes

theorem next (h : s.Orderly) (step : Step) : (s.next host step).Orderly where
  consistent := h.consistent.next step
  balanced := h.balanced.next h.consistent.retained step
  discards := discards_next h.discards h.consistent h.balanced host step
  attending := h.attending.next host step

end Orderly

theorem pass_queues_of_ne (host : Host) (s : System) {d : DeviceId} (hd : device ≠ d)
    (i : Inputs) : (s.pass host d i).queues device = s.queues device := by
  unfold pass
  dsimp only
  split
  · rfl
  · split_ifs <;> rfl
  · split
    · exact Function.update_of_ne hd ..
    · rfl
  · exact Function.update_of_ne hd ..
  · rfl

/-- A submission may add to a queue; only a pass of the worker takes from it. -/
theorem next_queue_cases (host : Host) (hknown : device ∈ s.devices) (step : Step) :
    (∃ more, (s.next host step).queues device = s.queues device ++ more) ∨
    ∃ i, step = .work device i ∧ (s.workers device).todo = [] ∧
      s.next host step = s.pass host device i := by
  cases step with
  | advance n refresh =>
      refine .inl ?_
      rw [System.next]
      rcases s.advance_cases host n refresh with hsame | ⟨sub, -, hadvance⟩
      · exact ⟨[], by rw [hsame, List.append_nil]⟩
      · rw [hadvance]
        dsimp only
        rcases s.proceed_cases host sub refresh with
            ⟨-, hp | ⟨descriptor, hp⟩ | ⟨availability, hp⟩⟩ | ⟨descriptor, -, -, hp⟩
        · exact ⟨[], by rw [hp, List.append_nil]⟩
        · exact ⟨[], by rw [hp, List.append_nil]; rfl⟩
        · exact ⟨[], by rw [hp, List.append_nil]; rfl⟩
        · rw [hp]
          rcases s.tryStart_cases host sub with
              ⟨result, hr⟩ | ⟨accepted, op, -, -, ⟨-, hr⟩ | ⟨-, hr⟩⟩
          · exact ⟨[], by rw [hr, List.append_nil]⟩
          · rw [hr]
            by_cases hd : device = sub.request.deviceId
            · subst hd
              exact ⟨_, Function.update_self ..⟩
            · exact ⟨[], by rw [List.append_nil]; exact Function.update_of_ne hd ..⟩
          · exact ⟨[], by rw [hr, List.append_nil]⟩
  | work d i =>
      rw [System.next]
      rcases s.work_cases host d i with hw | ⟨instr, rest, -, hw⟩ | ⟨htodo, hw⟩
      · exact .inl ⟨[], by rw [hw, List.append_nil]⟩
      · refine .inl ⟨[], ?_⟩
        obtain ⟨decoder, bootReopenAt, runtimes, -, hexecute⟩ := s.execute_eq host d i instr rest
        rw [hw, hexecute, List.append_nil]
        rfl
      · by_cases hd : device = d
        · subst hd
          exact .inr ⟨i, rfl, htodo, hw⟩
        · exact .inl ⟨[], by rw [hw, s.pass_queues_of_ne host hd, List.append_nil]⟩
  | discover descriptor =>
      refine .inl ⟨[], ?_⟩
      rw [System.next, List.append_nil]
      rcases s.discover_cases descriptor with hold | ⟨hnew, hd⟩
      · rw [hold]
      · have hne : device ≠ descriptor.id := fun heq => hnew (heq ▸ hknown)
        rw [hd]
        exact Function.update_of_ne hne ..
  | setAvailability d availability =>
      refine .inl ⟨[], ?_⟩
      rw [System.next, List.append_nil]
      split_ifs <;> rfl
  | _ => exact .inl ⟨[], (List.append_nil _).symm⟩

/-- A job at the head of its queue is no job of the stream, and will close it. -/
structure Awaiting (device : DeviceId) (stream : ℕ) (job : Job) (s : System) : Prop where
  known : device ∈ s.devices
  queue : ∃ rest, s.queues device = job :: rest
  reader : (s.workers device).reader = some stream
  exclusive : job.action.isStream = false
  closes : (job.action.isMonitor && (s.workers device).duplex.session.isSome) = false
  stays : (s.workers device).place ≠ .leaving ∧ (s.workers device).place ≠ .exited

theorem isRunning_of_queue (h : s.Balanced) {job : Job} {rest : List Job}
    (hplace : (s.workers device).place ≠ .exited) (hqueue : s.queues device = job :: rest) :
    s.store.isRunning job.id = true ∧ (s.store.devices device).busy = true := by
  have hfits := h.fits device hplace
  have hmem : job.duty ∈ (s.queues device).map Job.duty ++ (s.workers device).duties := by
    rw [hqueue]
    exact List.mem_append_left _ List.mem_cons_self
  obtain ⟨e, -, -, hrunning, hduty⟩ := hfits.entry hmem
  refine ⟨?_, ?_⟩
  · rwa [show e.job.id = job.id from congrArg Prod.fst hduty] at hrunning
  · have hlive : live s.store s.enqueued device ≠ [] := by
      intro hnil
      have hperm := hfits.perm
      rw [hnil] at hperm
      rw [hperm.nil_eq.symm] at hmem
      cases hmem
    have hoccupancy := hfits.occupancy
    generalize hactions : (live s.store s.enqueued device).map (·.action) = actions at hoccupancy
    cases hoccupancy with
    | idle hbusy happ hinput => exact absurd (List.map_eq_nil_iff.mp hactions) hlive
    | exclusive action hcommand hwrite hbusy => exact hbusy
    | streams _ hne hlanes hcommand hwrite hbusy => exact hbusy

/-- A job that closes the stream may open another one, but not the same again. -/
theorem exclusive_closes (host : Host) {w : Worker} {job : Job} (i : Inputs)
    (hcloses : (job.action.isMonitor && w.duplex.session.isSome) = false) {stream : ℕ}
    (hfresh : stream < w.opened) : (w.exclusive host job i).reader ≠ some stream := by
  have hhardware := Worker.hardware_moves host
    { ({ w with reconnect := none, bootReopenAt := none } : Worker).closeStream with
      duplex := { w.duplex with session := none }
      decoder := {} } job i
  unfold Worker.exclusive
  dsimp only
  rw [hcloses]
  rcases hhardware with ⟨-, hreader | hreader⟩ | ⟨-, hreader⟩
  · exact fun h => by cases hreader.symm.trans h
  · exact fun h => by cases hreader.symm.trans h
  · intro h
    have heq := Option.some.inj (hreader.symm.trans h)
    dsimp only [Worker.closeStream] at heq
    omega

namespace Awaiting
variable {stream : ℕ} {job : Job}

theorem pass (h : Awaiting device stream job s) (horderly : s.Orderly) (host : Host) (i : Inputs)
    (hdevices : device ∈ (s.pass host device i).devices) :
    Awaiting device stream job (s.pass host device i) ∨
      ((s.pass host device i).workers device).reader ≠ some stream := by
  obtain ⟨rest, hqueue⟩ := h.queue
  have hbusy := (isRunning_of_queue horderly.balanced h.stays.2 hqueue).2
  have hkeep : ∀ w : Worker, w.reader = (s.workers device).reader →
      w.duplex = (s.workers device).duplex → w.place ≠ .leaving ∧ w.place ≠ .exited →
      s.pass host device i = s.setWorker device w →
      Awaiting device stream job (s.pass host device i) := by
    intro w hreader hduplex hplace hpass
    refine ⟨hdevices, ?_, ?_, h.exclusive, ?_, ?_⟩
    · rw [hpass]
      exact h.queue
    · rw [hpass, setWorker_self, hreader, h.reader]
    · rw [hpass, setWorker_self, hduplex, h.closes]
    · rwa [hpass, setWorker_self]
  cases hplace : (s.workers device).place with
  | head =>
      refine .inl (hkeep { (s.workers device) with place := .test } rfl rfl (by simp) ?_)
      have habandon : (s.workers device).abandon = s.workers device := by
        unfold Worker.abandon
        rw [h.reader]
        exact if_neg (by simp)
      rw [System.pass, hplace]
      dsimp only
      rw [habandon]
  | test =>
      refine .inl (hkeep { (s.workers device) with place := .receive } rfl rfl (by simp) ?_)
      rw [System.pass, hplace]
      dsimp only
      rw [hbusy]
      simp
  | receive =>
      right
      have hserve : ((s.pass host device i).workers device).reader =
          ((s.workers device).exclusive host job i).reader := by
        rw [System.pass, hplace]
        dsimp only
        rw [hqueue]
        dsimp only
        rw [setWorker_self, Worker.serve, h.exclusive]
        rfl
      rw [hserve]
      exact exclusive_closes host i h.closes (horderly.attending.fresh device stream h.reader)
  | leaving => exact absurd hplace h.stays.1
  | exited => exact absurd hplace h.stays.2

theorem next (h : Awaiting device stream job s) (horderly : s.Orderly) (host : Host)
    (step : Step) : Awaiting device stream job (s.next host step) ∨
      ((s.next host step).workers device).reader ≠ some stream := by
  have hdevices := devices_next host horderly.consistent step h.known
  have hsame : ∀ w : Worker, (s.next host step).workers device = w →
      w.reader = (s.workers device).reader → w.duplex = (s.workers device).duplex →
      w.place = (s.workers device).place →
      Awaiting device stream job (s.next host step) ∨
        ((s.next host step).workers device).reader ≠ some stream := by
    intro w hw hreader hduplex hplace
    rcases s.next_queue_cases host h.known step with ⟨more, hmore⟩ | ⟨i, -, -, hpass⟩
    · obtain ⟨rest, hqueue⟩ := h.queue
      refine .inl ⟨hdevices, ⟨rest ++ more, by rw [hmore, hqueue]; rfl⟩, ?_, h.exclusive, ?_, ?_⟩
      · rw [hw, hreader, h.reader]
      · rw [hw, hduplex, h.closes]
      · rw [hw, hplace]
        exact h.stays
    · rw [hpass] at hdevices ⊢
      exact h.pass horderly host i hdevices
  rcases s.next_worker_cases host h.known step with
      hw | ⟨i, instr, rest, decoder, bootReopenAt, -, -, hw⟩ | ⟨i, -, -, hpass⟩
  · exact hsame _ hw rfl rfl rfl
  · exact hsame _ hw rfl rfl rfl
  · rw [hpass] at hdevices ⊢
    exact h.pass horderly host i hdevices

/-- Until the stream is closed, the job waits. -/
theorem run (h : Awaiting device stream job s) (horderly : s.Orderly) (host : Host)
    (steps : List Step) : Awaiting device stream job (s.run host steps) ∨
      ∃ front back, steps = front ++ back ∧
        ((s.run host front).workers device).reader ≠ some stream := by
  induction steps generalizing s with
  | nil => exact .inl h
  | cons step steps ih =>
      rcases h.next horderly host step with hnext | hclosed
      · rcases ih hnext (horderly.next step) with hrun | ⟨front, back, rfl, hclosed⟩
        · exact .inl hrun
        · exact .inr ⟨step :: front, back, rfl, hclosed⟩
      · exact .inr ⟨[step], steps, rfl, hclosed⟩

end Awaiting

/-- Whatever follows, the stream is closed before the operation of the job is done. -/
def GoesOnToClose (host : Host) (device : DeviceId) (stream : ℕ) (job : Job) (s : System) : Prop :=
  ∀ more, (s.run host more).store.isRunning job.id = false →
    ∃ front back, more = front ++ back ∧
      ((s.run host front).workers device).reader ≠ some stream

theorem Orderly.run (h : s.Orderly) (host : Host) (steps : List Step) :
    (s.run host steps).Orderly := by
  induction steps generalizing s with
  | nil => exact h
  | cons step steps ih => exact ih (h.next step)

theorem Awaiting.goesOnToClose {stream : ℕ} {job : Job} (h : Awaiting device stream job s)
    (horderly : s.Orderly) (host : Host) : GoesOnToClose host device stream job s := by
  intro more hdone
  rcases h.run horderly host more with hawaiting | hclosed
  · obtain ⟨rest, hqueue⟩ := hawaiting.queue
    have hrunning := (isRunning_of_queue (horderly.run host more).balanced hawaiting.stays.2
      hqueue).1
    rw [hdone] at hrunning
    cases hrunning
  · exact hclosed

/-- An output has its turn. It is published, or an operation that has been admitted by now goes
on to close the stream. -/
def Accounted (host : Host) (device : DeviceId) (s : System) (step : Step) : Prop :=
  ∀ i output rest, step = .work device i → device ∈ s.devices →
    (s.workers device).todo = .output output :: rest → output.shown = true →
    ((s.next host step).store = s.store.emitAll host.eventSize device
        (Store.published host i.hostTime (s.workers device).decoder output).1 ∧
      ((s.next host step).workers device).decoder =
        (Store.published host i.hostTime (s.workers device).decoder output).2) ∨
    ∃ stream job, (s.workers device).reader = some stream ∧ job ∈ s.queues device ∧
      s.store.isRunning job.id = true ∧
      GoesOnToClose host device stream job (s.next host step)

/-- An output has its turn while a monitor waits that will keep the session and the stream. -/
def readInVain (device : DeviceId) (s : System) : Step → Bool
  | .work d _ =>
      d = device && (s.runtimes.lookup device).isSome &&
        (s.workers device).todo.head?.any (fun | .output output => output.shown | _ => false) &&
        (s.store.devices device).discardMonitorRead &&
        (s.queues device).head?.any (·.action.isMonitor) &&
        (s.workers device).duplex.session.isSome
  | _ => false

theorem exclusive_notMem_duties {w : Worker} (h : Lacks Instr.isExclusive w.todo) (id : String) :
    (id, none) ∉ w.duties := by
  intro hmem
  rcases List.mem_append.mp hmem with htodo | hduplex
  · obtain ⟨instr, hinstr, hduty⟩ := List.mem_flatMap.mp htodo
    have hnot := h instr hinstr
    cases instr with
    | finishExclusive id' result artifact hasReader => cases hnot
    | finishStream done hasReader =>
        obtain ⟨d, -, hd⟩ := List.mem_map.mp hduty
        cases congrArg Prod.snd hd
    | _ => cases hduty
  · obtain ⟨d, -, hd⟩ := List.mem_map.mp hduplex
    cases congrArg Prod.snd hd

/-- While a device discards and its worker attends to the session, a job waits. -/
theorem waits_of_discard (h : s.Orderly)
    (hflag : (s.store.devices device).discardMonitorRead = true)
    (houtput : ¬ Lacks Instr.isOutput (s.workers device).todo) :
    ∃ job rest, s.queues device = job :: rest ∧ job.action.isStream = false := by
  obtain ⟨-, hexclusive⟩ := (h.attending.attends device).resolve_left houtput
  have hplace : (s.workers device).place ≠ .exited := by
    rw [h.attending.place device houtput]
    decide
  have hfits := h.balanced.fits device hplace
  obtain ⟨job, hjob, hstream⟩ := h.discards device hflag
  have hduty : job.duty = (job.id, none) := by simp [Job.duty, hstream]
  -- An exclusive action runs alone.
  have halone : (live s.store s.enqueued device).length = 1 := by
    have hoccupancy := hfits.occupancy
    generalize hactions : (live s.store s.enqueued device).map (·.action) = actions at hoccupancy
    have hmem : job.action ∈ actions := hactions ▸ List.mem_map_of_mem hjob
    rw [← List.length_map (f := (·.action)), hactions]
    cases hoccupancy with
    | idle => cases hmem
    | exclusive action => rfl
    | streams _ hne hlanes =>
        rw [Action.isStream_of_lane (hlanes job.action hmem)] at hstream
        cases hstream
  have hlength := hfits.perm.length_eq
  rw [List.length_map, halone] at hlength
  have hqueued : job.duty ∈ (s.queues device).map Job.duty := by
    have hmem := hfits.perm.mem_iff.mp (List.mem_map_of_mem (f := Job.duty) hjob)
    rcases List.mem_append.mp hmem with hqueue | hworker
    · exact hqueue
    · rw [hduty] at hworker
      exact absurd hworker (exclusive_notMem_duties hexclusive job.id)
  obtain ⟨job', hjob', hsame⟩ := List.mem_map.mp hqueued
  cases hqueue : s.queues device with
  | nil =>
      rw [hqueue] at hjob'
      cases hjob'
  | cons first rest =>
      have hrest : rest = [] := by
        rw [hqueue] at hlength
        simp only [List.map_cons, List.cons_append, List.length_cons, List.length_append,
          List.length_map] at hlength
        exact List.eq_nil_of_length_eq_zero (by omega)
      subst hrest
      rw [hqueue] at hjob'
      obtain rfl := List.mem_singleton.mp hjob'
      refine ⟨job', [], rfl, ?_⟩
      rw [hduty] at hsame
      have hnone : (if job'.action.isStream then some job'.action.lane else none) = none :=
        congrArg Prod.snd hsame
      by_contra hne
      rw [if_pos (by simpa using hne)] at hnone
      cases hnone

theorem accounted (h : s.Orderly) {step : Step} (hsafe : s.readInVain device step = false) :
    Accounted host device s step := by
  rintro i output rest rfl hknown htodo hshown
  have hnot : ¬ Lacks Instr.isOutput (s.workers device).todo := by
    intro hlacks
    have hfirst := hlacks (.output output) (htodo ▸ List.mem_cons_self)
    cases hfirst
  have hnext : s.next host (.work device i) = s.execute host device i (.output output) rest := by
    have hsome : (s.runtimes.lookup device).isNone = false := by
      simpa using mem_devices.mp hknown
    rw [System.next, work, hsome, htodo]
    rfl
  cases hflag : (s.store.devices device).discardMonitorRead with
  | false =>
      left
      have houtput := s.store.applicationOutput_of_shown host i.hostTime hflag
        (s.workers device).decoder output
      rw [hnext]
      unfold execute
      dsimp only [Worker.exec]
      rw [houtput, setWorker_self]
      exact ⟨rfl, rfl⟩
  | true =>
      right
      obtain ⟨hreader, -⟩ := (h.attending.attends device).resolve_left hnot
      have hplace := h.attending.place device hnot
      obtain ⟨stream, hstream⟩ := Option.isSome_iff_exists.mp hreader
      obtain ⟨job, jobs, hqueue, hexclusive⟩ := waits_of_discard h hflag hnot
      have hrunning := (isRunning_of_queue h.balanced (by rw [hplace]; decide) hqueue).1
      refine ⟨stream, job, hstream, hqueue ▸ List.mem_cons_self, hrunning, ?_⟩
      have hawaiting : Awaiting device stream job (s.next host (.work device i)) := by
        have hdevices := devices_next host h.consistent (.work device i) hknown
        obtain ⟨decoder, bootReopenAt, runtimes, -, hexecute⟩ :=
          s.execute_eq host device i (.output output) rest
        rw [hnext, hexecute] at hdevices ⊢
        refine ⟨hdevices, ⟨jobs, hqueue⟩, ?_, hexclusive, ?_, ?_⟩
        · dsimp only
          rw [setWorker_self]
          exact hstream
        · dsimp only
          rw [setWorker_self]
          simpa [readInVain, mem_devices.mp hknown, htodo, hshown, hflag, hqueue] using hsafe
        · dsimp only
          rw [setWorker_self]
          dsimp only
          rw [hplace]
          decide
      exact hawaiting.goesOnToClose (h.next _) host

/-- In every run in which no output has its turn while a monitor waits that will keep the stream,
each output is published, or an operation already admitted goes on to close the stream. -/
theorem outputs_accounted (host : Host) (epoch : String)
    (runtimes : List (DeviceId × DeviceDescriptor)) (steps : List Step) (device : DeviceId)
    (hsafe : eachSafe (next host) (fun s step => !s.readInVain device step)
      (System.init epoch runtimes) steps = true) :
    ∀ front step back, steps = front ++ step :: back →
      Accounted host device ((System.init epoch runtimes).run host front) step := by
  rintro front step back rfl
  have hstep := eachSafe_middle hsafe
  rw [Bool.not_eq_true'] at hstep
  exact accounted ((Orderly.init epoch runtimes).run host front) hstep

/-- Console output has its turn, nothing is published, and the stream outlives what waits. -/
theorem not_accounted (i : Inputs) (id : String) (n : ℕ)
    (hknown : (s.runtimes.lookup device).isSome = true)
    (hread : (s.workers device).todo.head?.any (fun | .output (.console _) => true | _ => false))
    (hsilent : ((s.next host (.work device i)).store.devices device).seq =
      (s.store.devices device).seq)
    (hid : ∀ job ∈ s.queues device, job.id = id)
    (hkeeps : ∀ k ≤ n, (((s.next host (.work device i)).run host
      (List.replicate k (.work device i))).workers device).reader = (s.workers device).reader)
    (hdone : ((s.next host (.work device i)).run host
      (List.replicate n (.work device i))).store.isRunning id = false) :
    ¬ Accounted host device s (.work device i) := by
  intro haccounted
  have htodo : ∃ bytes rest, (s.workers device).todo = .output (.console bytes) :: rest := by
    generalize (s.workers device).todo = todo at hread
    match todo, hread with
    | .output (.console bytes) :: rest, _ => exact ⟨bytes, rest, rfl⟩
  obtain ⟨bytes, rest, htodo⟩ := htodo
  rcases haccounted i (.console bytes) rest rfl (mem_devices.mpr hknown) htodo rfl with
      ⟨hpublished, -⟩ | ⟨stream, job, hstream, hjob, -, hcloses⟩
  · have hseq := DeviceState.seq_of_ring ((Store.announces_emitAll host.eventSize s.store device
      (Store.published host i.hostTime (s.workers device).decoder (.console bytes)).1).own)
    rw [← hpublished, DeviceState.seq_emitAll, hsilent] at hseq
    have hnone := Nat.left_eq_add.mp hseq
    cases hnone
  · rw [← hid job hjob] at hdone
    obtain ⟨front, back, hsplit, hclosed⟩ := hcloses _ hdone
    obtain ⟨hlength, hfront, -⟩ := List.append_eq_replicate_iff.mp hsplit.symm
    rw [hfront, hkeeps front.length (by omega)] at hclosed
    exact hclosed hstream

def consoleFrame : Frame where
  kind := console
  session := 1
  request := 0
  payload := ascii "hi"

/-- A monitor is opened and its application connected. The worker has just read a frame. -/
def readSteps : List Step :=
  openSteps ++ submitted 1 (.application none 1000) ++ turn Duplex.eager [] 6 ++
    turn Duplex.eager ackFrame.wire 5 ++ turn Duplex.eager consoleFrame.wire 3

def resettable : DeviceDescriptor := { monitored with capabilities := [.monitor, .reset] }

/-- A reset is admitted before the frame is published. Its worker will close the stream. -/
def resetSteps : List Step :=
  readSteps ++ .submit ⟨"dev-1", 115200, true⟩ .reset ⟨"key-2", "f2"⟩ ::
    List.replicate 8 (.advance 2 (.answer (.ok resettable)))

theorem reset_accounted :
    (((System.init "1-1" [("dev-1", monitored)]).run statusHost resetSteps).workers
      "dev-1").todo.isEmpty = false ∧
    (((System.init "1-1" [("dev-1", monitored)]).run statusHost resetSteps).store.devices
      "dev-1").discardMonitorRead = true ∧
    ∀ step ∈ turn Duplex.eager [] 1, Accounted statusHost "dev-1"
      ((System.init "1-1" [("dev-1", monitored)]).run statusHost resetSteps) step := by
  refine ⟨by decide +kernel, by decide +kernel, fun step hstep => ?_⟩
  obtain rfl := List.mem_singleton.mp hstep
  exact outputs_accounted statusHost "1-1" [("dev-1", monitored)]
    (resetSteps ++ turn Duplex.eager [] 8) "dev-1" (by decide +kernel) resetSteps _ _ rfl

/-- Another monitor is admitted before the frame is published. -/
def keptSteps : List Step := readSteps ++ submitted 2 .monitor

theorem monitor_drops_console :
    ¬ ∀ front step back, keptSteps ++ turn Duplex.eager [] 1 = front ++ step :: back →
      Accounted statusHost "dev-1"
        ((System.init "1-1" [("dev-1", monitored)]).run statusHost front) step := by
  intro haccounted
  exact not_accounted _ "1-1-dev-1-6" 4 (by decide +kernel) (by decide +kernel) (by decide +kernel)
    (by decide +kernel) (by decide +kernel) (by decide +kernel) (haccounted keptSteps _ [] rfl)

end System
end IdfRemote
