import IdfRemote.Monitoring
import IdfRemote.DuplexIntegrity
import IdfRemote.Runs
import IdfRemote.StoreSteps

/-!
# Frames that are abandoned halfway

When a transfer is given up while the driver has taken a part of its front frame,
whatever is written to the same stream next reaches the device inside that frame.
A worker that cannot write, or whose stream is gone, opens another stream first. One
that cannot read the session gives up its transfers too, but it keeps the stream.
-/
namespace IdfRemote
open Runs Mux

namespace Duplex

/-- The driver has taken a part of a frame. -/
def partly (d : Duplex) : Bool := d.tx.any fun t => 0 < t.offset

/-- The bytes that the driver takes in a `tick`. -/
def takes (d : Duplex) (now : Clock) (io : Driver) : List UInt8 :=
  if d.late now then []
  else
    match d.tx with
    | [] => []
    | front :: _ => front.taken io

end Duplex

/-- What the wire of a worker sees: bytes that a stream takes, and a partly written frame that
is given up when so many streams have been opened. -/
inductive Wire
  | wrote (stream : ℕ) (bytes : List UInt8)
  | abandoned (opened : ℕ)

/-- No stream that was open by then takes another byte. -/
def Wire.allows : Wire → Wire → Bool
  | .abandoned opened, .wrote stream bytes => opened ≤ stream || bytes.isEmpty
  | _, _ => true

namespace Worker

/-- An abort that finds this scheduler. -/
def discards (w : Worker) (d : Duplex) : List Wire := if d.partly then [.abandoned w.opened] else []

/-- The head of the loop. -/
def headWire (w : Worker) : List Wire :=
  if w.reader.isNone ∧ (w.duplex.session.isSome ∨ w.duplex.hasPending) then w.discards w.duplex
  else []

/-- A read of a pass whose scheduler stands so, up to the abort that may follow. -/
def readWire (host : Host) (w : Worker) (d : Duplex) (i : Inputs) : List Wire :=
  match i.read with
  | .ok (b :: bytes) =>
      if d.session.isSome then
        match d.feed host.serde (b :: bytes) i.feedClock with
        | (d, _, .error _) => w.discards d
        | _ => []
      else []
  | _ => []

/-- A pass without a job: a write, and then a read. -/
def idleWire (host : Host) (w : Worker) (i : Inputs) : List Wire :=
  match w.reader with
  | none => []
  | some stream =>
      .wrote stream (w.duplex.takes i.tickClock i.driver) ::
        match w.duplex.tick i.tickClock i.driver with
        | (d, .error _) => w.discards d
        | (d, .ok _) =>
            if w.bootReopenAt.any (· ≤ i.now) then [] else w.readWire host d i

end Worker

namespace System

/-- What the wire of a device sees of a step. -/
def wire (host : Host) (device : DeviceId) (s : System) : Step → List Wire
  | .work d i =>
      if d = device ∧ (s.runtimes.lookup device).isSome ∧ (s.workers device).todo = [] then
        match (s.workers device).place with
        | .head => (s.workers device).headWire
        | .receive =>
            if (s.queues device).isEmpty then (s.workers device).idleWire host i else []
        | _ => []
      else []
  | _ => []

end System

namespace Worker

/-- A read that the open session cannot accept. -/
def refuses (host : Host) (d : Duplex) (i : Inputs) : Bool :=
  d.session.isSome &&
    match i.read with
    | .ok (b :: bytes) => !(d.feed host.serde (b :: bytes) i.feedClock).2.2.isOk
    | _ => false

/-- Such a read follows a write that leaves a frame partly written. -/
def interrupts (host : Host) (w : Worker) (i : Inputs) : Bool :=
  w.reader.isSome && !w.bootReopenAt.any (· ≤ i.now) &&
    match w.duplex.tick i.tickClock i.driver with
    | (d, .ok _) => d.partly && refuses host d i
    | _ => false

/-- What a pass does to the stream: it keeps it, closes it, or opens another one. -/
def Moves (w w' : Worker) : Prop :=
  (w'.opened = w.opened ∧ (w'.reader = w.reader ∨ w'.reader = none)) ∨
    (w'.opened = w.opened + 1 ∧ w'.reader = some w.opened)

namespace Moves
variable {w w' : Worker}

theorem same (hopened : w'.opened = w.opened) (hreader : w'.reader = w.reader) : w.Moves w' :=
  .inl ⟨hopened, .inl hreader⟩

theorem closes (hopened : w'.opened = w.opened) (hreader : w'.reader = none) : w.Moves w' :=
  .inl ⟨hopened, .inr hreader⟩

theorem opens (hopened : w'.opened = w.opened + 1) (hreader : w'.reader = some w.opened) :
    w.Moves w' := .inr ⟨hopened, hreader⟩

theorem trans {w'' : Worker} (h : w.Moves w') (hopened : w'.opened = w.opened)
    (h' : w'.Moves w'') : w.Moves w'' := by
  rcases h' with ⟨hopened', hreader' | hreader'⟩ | ⟨hopened', hreader'⟩
  · rcases h with ⟨-, hreader | hreader⟩ | ⟨hopens, -⟩
    · exact .same (hopened'.trans hopened) (hreader'.trans hreader)
    · exact .closes (hopened'.trans hopened) (hreader'.trans hreader)
    · omega
  · exact .closes (hopened'.trans hopened) hreader'
  · rw [hopened] at hopened' hreader'
    exact .opens hopened' hreader'

theorem fresh (h : w.Moves w') (hfresh : ∀ stream, w.reader = some stream → stream < w.opened) :
    ∀ stream, w'.reader = some stream → stream < w'.opened := by
  intro stream hreader
  rcases h with ⟨hopened, hsame | hnone⟩ | ⟨hopened, hopens⟩
  · rw [hopened]
    exact hfresh stream (hsame ▸ hreader)
  · rw [hnone] at hreader
    cases hreader
  · rw [hopens] at hreader
    cases hreader
    omega

end Moves

theorem attach_moves (w : Worker) (job : Job) (i : Inputs) : w.Moves (w.attach job i).1 := by
  unfold attach
  dsimp only
  split_ifs
  · exact .same rfl rfl
  · exact .same rfl rfl
  · exact .same rfl rfl
  · split
    · exact .same rfl rfl
    · split
      · exact .closes rfl rfl
      · exact .opens rfl rfl
  · exact .same rfl rfl

theorem startStream_moves (serde : Serde) (w : Worker) (job : Job) (i : Inputs) :
    (w.startStream serde job i).1.reader = w.reader ∧
      (w.startStream serde job i).1.opened = w.opened := by
  unfold startStream
  split <;> exact ⟨rfl, rfl⟩

theorem stream_moves (serde : Serde) (w : Worker) (job : Job) (i : Inputs) :
    w.Moves (w.stream serde job i) := by
  have hattach := w.attach_moves job i
  unfold stream
  split
  · next attached found e hresult =>
    rw [hresult] at hattach
    exact hattach
  · next attached found hresult =>
    rw [hresult] at hattach
    obtain ⟨hreader, hopened⟩ := startStream_moves serde attached job i
    split
    · next started e hstart =>
      rw [hstart] at hreader hopened
      unfold Moves at hattach ⊢
      rwa [← hreader, ← hopened] at hattach
    · next started hstart =>
      rw [hstart] at hreader hopened
      unfold Moves at hattach ⊢
      rwa [← hreader, ← hopened] at hattach

theorem operate_moves (host : Host) (w : Worker) (job : Job) (i : Inputs) :
    w.Moves (w.operate host job i).1 := by
  unfold operate
  split
  · exact .same rfl rfl
  · split
    · exact .same rfl rfl
    · split_ifs
      · split
        · exact .same rfl rfl
        · exact .opens rfl rfl
      · exact .same rfl rfl

theorem hardware_moves (host : Host) (w : Worker) (job : Job) (i : Inputs) :
    w.Moves (w.hardware host job i).1 := by
  unfold hardware
  dsimp only
  split
  · exact .same rfl rfl
  · split_ifs
    · exact .same rfl rfl
    · exact .same rfl rfl
    · exact w.operate_moves host job i

theorem exclusive_moves (host : Host) (w : Worker) (job : Job) (i : Inputs) :
    w.Moves (w.exclusive host job i) := by
  have hhardware : ∀ v : Worker, w.Moves v → v.opened = w.opened →
      w.Moves (v.hardware host job i).1 :=
    fun v hv hopened => hv.trans hopened (v.hardware_moves host job i)
  unfold exclusive
  dsimp only
  apply hhardware
  · split_ifs
    · exact .same rfl rfl
    · exact .closes rfl rfl
  · split_ifs <;> rfl

theorem lose_moves (w : Worker) (text : String) (i : Inputs) (todo : List Instr) :
    w.Moves (w.lose text i todo) := by
  unfold lose
  split <;> exact .closes rfl rfl

theorem deliver_moves (host : Host) (w : Worker) (bytes : List UInt8) (reopens : Bool)
    (i : Inputs) (todo : List Instr) : (w.deliver host bytes reopens i todo).opened = w.opened ∧
      (w.deliver host bytes reopens i todo).reader = w.reader := by
  unfold deliver
  dsimp only
  split_ifs
  · split <;> exact ⟨rfl, rfl⟩
  · exact ⟨rfl, rfl⟩

theorem readStream_moves (host : Host) (w : Worker) (reopens : Bool) (i : Inputs)
    (todo : List Instr) : w.Moves (w.readStream host reopens i todo) := by
  unfold readStream
  split
  · exact w.lose_moves _ i todo
  · next bytes _ _ =>
    obtain ⟨hopened, hreader⟩ := w.deliver_moves host bytes reopens i todo
    exact .same hopened hreader
  · split_ifs
    · exact .same rfl rfl
    · exact lose_moves { w with bootReopenAt := none } _ i todo

theorem reopen_moves (w : Worker) (i : Inputs) : w.Moves (w.reopen i) := by
  unfold reopen
  split
  · exact .same rfl rfl
  · dsimp only
    split_ifs
    · split
      · exact .opens rfl rfl
      · exact .same rfl rfl
    · exact .same rfl rfl

theorem attend_moves (host : Host) (w : Worker) (reopens : Bool) (i : Inputs)
    (todo : List Instr) : w.Moves (w.attend host reopens i todo) := by
  unfold attend
  split_ifs
  · exact lose_moves { w with bootReopenAt := none } _ i todo
  · exact w.readStream_moves host reopens i todo
  · exact w.reopen_moves i

theorem idle_moves (host : Host) (w : Worker) (reopens : Bool) (i : Inputs) :
    w.Moves (w.idle host reopens i) := by
  unfold idle
  split_ifs
  · split
    · next duplex done _ =>
      exact attend_moves host { w with duplex := duplex } reopens i (finishInstr done true)
    · exact .closes rfl rfl
  · exact w.attend_moves host reopens i []

theorem serve_moves (host : Host) (w : Worker) (job : Job) (i : Inputs) :
    w.Moves (w.serve host job i) := by
  unfold serve
  split_ifs
  · exact w.stream_moves host.serde job i
  · exact w.exclusive_moves host job i

theorem mem_discards {w : Worker} {d : Duplex} {event : Wire} :
    event ∈ w.discards d ↔ d.partly = true ∧ event = .abandoned w.opened := by
  unfold discards
  split_ifs with hpartly <;> simp [hpartly]

theorem mem_headWire {w : Worker} {event : Wire} (h : event ∈ w.headWire) :
    event = .abandoned w.opened ∧ w.reader = none := by
  unfold headWire at h
  split_ifs at h with hgone
  · exact ⟨(mem_discards.mp h).2, Option.isNone_iff_eq_none.mp hgone.1⟩
  · cases h

theorem feed_tx_of_error {serde : Serde} {d d' : Duplex} {bytes : List UInt8} {now : Clock}
    {outputs : List Application.Output} {e : Error}
    (h : d.feed serde bytes now = (d', outputs, .error e)) : d'.tx = d.tx := by
  unfold Duplex.feed at h
  split at h
  · cases h
  · split at h
    · cases h
      rfl
    · cases h
    · split at h
      · cases h
      · cases h

theorem mem_readWire {host : Host} {w : Worker} {d : Duplex} {i : Inputs} {event : Wire} :
    event ∈ w.readWire host d i ↔
      (d.partly = true ∧ refuses host d i = true) ∧ event = .abandoned w.opened := by
  unfold readWire refuses
  cases hsession : d.session.isSome with
  | false => split <;> simp
  | true =>
      split
      · next b bytes hread =>
        rcases hfeed : d.feed host.serde (b :: bytes) i.feedClock with ⟨d', outputs, result⟩
        cases result with
        | ok done => simp [Except.isOk, Except.toBool]
        | error e =>
            have hpartly : d'.partly = d.partly := by
              rw [Duplex.partly, feed_tx_of_error hfeed, ← Duplex.partly]
            simp [Except.isOk, Except.toBool, mem_discards, hpartly]
      · next hread => simp

theorem readStream_refuses {host : Host} {w : Worker} {i : Inputs}
    (h : refuses host w.duplex i = true) (reopens : Bool) (todo : List Instr) :
    (w.readStream host reopens i todo).reader = w.reader := by
  unfold refuses at h
  unfold readStream
  split at h
  · next b bytes hread =>
    rw [hread]
    exact (w.deliver_moves host (b :: bytes) reopens i todo).2
  · simp at h

theorem idleWire_cases (host : Host) (w : Worker) (i : Inputs) :
    w.idleWire host i = [] ∨ ∃ stream bytes aborts, w.reader = some stream ∧
      w.idleWire host i = .wrote stream bytes :: aborts ∧
      (aborts = [] ∨ aborts = [.abandoned w.opened]) := by
  unfold idleWire
  split
  · exact .inl rfl
  · next stream hreader =>
    refine .inr ⟨stream, _, _, hreader, rfl, ?_⟩
    have hdiscards : ∀ d, w.discards d = [] ∨ w.discards d = [.abandoned w.opened] := by
      intro d
      unfold discards
      split_ifs
      · exact .inr rfl
      · exact .inl rfl
    split
    · exact hdiscards _
    · split_ifs
      · exact .inl rfl
      · unfold readWire
        split
        · split_ifs
          · split
            · exact hdiscards _
            · exact .inl rfl
          · exact .inl rfl
        · exact .inl rfl

/-- A pass gives up a partly written frame and yet keeps its stream when, and only when, a read
interrupts it. -/
theorem interrupts_iff (host : Host) (w : Worker) (reopens : Bool) (i : Inputs) :
    w.interrupts host i = true ↔
      .abandoned w.opened ∈ w.idleWire host i ∧ (w.idle host reopens i).reader ≠ none := by
  unfold interrupts idleWire idle
  cases hreader : w.reader with
  | none => simp
  | some stream =>
      rcases w.duplex.tick i.tickClock i.driver with ⟨d, result⟩
      cases result with
      | error e => simp [closeStream]
      | ok done =>
          dsimp only
          unfold attend
          cases hboot : w.bootReopenAt.any (· ≤ i.now) with
          | true => simp
          | false =>
              have hread := @readStream_refuses host { w with duplex := d } i
              simp only [Bool.not_false, Option.isSome_some, Bool.true_and, Bool.and_eq_true,
                Bool.false_eq_true, if_false, if_true, List.mem_cons, reduceCtorEq, false_or,
                mem_readWire]
              constructor
              · intro h
                refine ⟨⟨h, trivial⟩, ?_⟩
                rw [hreader] at hread
                rw [hread h.2 reopens (finishInstr done true)]
                simp
              · exact fun h => h.1.1

end Worker

namespace System
variable {host : Host} {s : System} {device : DeviceId}

/-- The worker of a device passes without a job, and a read interrupts it. -/
def interrupted (host : Host) (device : DeviceId) (s : System) : Step → Bool
  | .work d i =>
      d = device && (s.runtimes.lookup device).isSome && (s.workers device).todo.isEmpty &&
        (s.workers device).place = .receive && (s.queues device).isEmpty &&
        (s.workers device).interrupts host i
  | _ => false

theorem pass_moves (host : Host) (s : System) (device : DeviceId) (i : Inputs) :
    (s.workers device).Moves ((s.pass host device i).workers device) := by
  unfold pass
  dsimp only
  split
  · rw [setWorker_self]
    unfold Worker.abandon
    split_ifs <;> exact .same rfl rfl
  · split_ifs <;> rw [setWorker_self] <;> exact .same rfl rfl
  · split
    · next job jobs _ =>
      dsimp only
      rw [setWorker_self]
      exact (s.workers device).serve_moves host job i
    · rw [setWorker_self]
      exact (s.workers device).idle_moves host (s.reopensAfterBootEntry device) i
  · dsimp only
    rw [setWorker_self]
    exact .same rfl rfl
  · exact .same rfl rfl

/-- A worker changes in its own steps only: it carries out an instruction or goes on with its
pass. -/
theorem next_worker_cases (host : Host) (hknown : device ∈ s.devices) (step : Step) :
    (s.next host step).workers device = s.workers device ∨
    (∃ i instr rest decoder bootReopenAt, step = .work device i ∧
      (s.workers device).todo = instr :: rest ∧
      (s.next host step).workers device = { s.workers device with
        todo := rest, decoder := decoder, bootReopenAt := bootReopenAt }) ∨
    ∃ i, step = .work device i ∧ (s.workers device).todo = [] ∧
      s.next host step = s.pass host device i := by
  cases step with
  | advance n refresh =>
      rw [System.next, advance_workers]
      exact .inl rfl
  | work d i =>
      by_cases hd : device = d
      · subst hd
        rw [System.next]
        rcases s.work_cases host device i with hw | ⟨instr, rest, htodo, hw⟩ | ⟨htodo, hw⟩
        · rw [hw]
          exact .inl rfl
        · obtain ⟨decoder, bootReopenAt, runtimes, -, hexecute⟩ :=
            s.execute_eq host device i instr rest
          rw [hw, hexecute]
          dsimp only
          rw [setWorker_self]
          exact .inr (.inl ⟨i, instr, rest, decoder, bootReopenAt, rfl, htodo, rfl⟩)
        · exact .inr (.inr ⟨i, rfl, htodo, hw⟩)
      · rw [System.next, s.work_workers_of_ne host hd]
        exact .inl rfl
  | discover descriptor =>
      rw [System.next]
      rcases s.discover_cases descriptor with hold | ⟨hnew, hd⟩
      · rw [hold]
        exact .inl rfl
      · have hne : device ≠ descriptor.id := fun heq => hnew (heq ▸ hknown)
        rw [hd]
        exact .inl (Function.update_of_ne hne ..)
  | setAvailability d availability =>
      rw [System.next]
      split_ifs <;> exact .inl rfl
  | _ => exact .inl rfl

theorem next_moves (host : Host) (hknown : device ∈ s.devices) (step : Step) :
    (s.workers device).Moves ((s.next host step).workers device) := by
  rcases s.next_worker_cases host hknown step with
      hsame | ⟨i, instr, rest, decoder, bootReopenAt, -, -, hw⟩ | ⟨i, -, -, hpass⟩
  · rw [hsame]
    exact .same rfl rfl
  · rw [hw]
    exact .same rfl rfl
  · rw [hpass]
    exact s.pass_moves host device i

theorem next_worker_of_unknown (host : Host) (hunknown : device ∉ s.devices) (step : Step) :
    (s.next host step).workers device = s.workers device ∨
      (s.next host step).workers device = {} := by
  cases step with
  | advance n refresh =>
      rw [System.next, advance_workers]
      exact .inl rfl
  | work d i =>
      rw [System.next]
      by_cases hd : device = d
      · subst hd
        have hnone : (s.runtimes.lookup device).isNone = true := by
          by_contra hsome
          exact hunknown (mem_devices.mpr (by simpa using hsome))
        rw [work, if_pos hnone]
        exact .inl rfl
      · rw [s.work_workers_of_ne host hd]
        exact .inl rfl
  | discover descriptor =>
      rw [System.next]
      rcases s.discover_cases descriptor with hold | ⟨hnew, hd⟩
      · rw [hold]
        exact .inl rfl
      · rw [hd]
        by_cases heq : device = descriptor.id
        · subst heq
          exact .inr (Function.update_self ..)
        · exact .inl (Function.update_of_ne heq ..)
  | setAvailability d availability =>
      rw [System.next]
      split_ifs <;> exact .inl rfl
  | _ => exact .inl rfl

theorem wire_cases (host : Host) (s : System) (device : DeviceId) (step : Step) :
    s.wire host device step = [] ∨
    (∃ i, step = .work device i ∧ device ∈ s.devices ∧ (s.workers device).todo = []) ∧
      (((s.workers device).place = .head ∧
          s.wire host device step = (s.workers device).headWire) ∨
        ∃ i, step = .work device i ∧ (s.workers device).place = .receive ∧
          (s.queues device).isEmpty = true ∧
          s.wire host device step = (s.workers device).idleWire host i) := by
  cases step with
  | work d i =>
      by_cases hpass :
          d = device ∧ (s.runtimes.lookup device).isSome ∧ (s.workers device).todo = []
      · rw [wire, if_pos hpass]
        obtain ⟨rfl, hknown, htodo⟩ := hpass
        have hmem : d ∈ s.devices := mem_devices.mpr hknown
        split
        · next hplace => exact .inr ⟨⟨i, rfl, hmem, htodo⟩, .inl ⟨hplace, rfl⟩⟩
        · next hplace =>
          cases hempty : (s.queues d).isEmpty with
          | true => exact .inr ⟨⟨i, rfl, hmem, htodo⟩, .inr ⟨i, rfl, hplace, rfl, rfl⟩⟩
          | false => exact .inl rfl
        · exact .inl rfl
      · rw [wire, if_neg hpass]
        exact .inl rfl
  | _ => exact .inl rfl

/-- What the wire of a device has seen, and the stream that its worker has now. -/
structure Quiet (device : DeviceId) (trace : List Wire) (s : System) : Prop where
  known : trace ≠ [] → device ∈ s.devices
  fresh : ∀ stream, (s.workers device).reader = some stream → stream < (s.workers device).opened
  spoilt : ∀ opened, .abandoned opened ∈ trace → opened ≤ (s.workers device).opened ∧
    ∀ stream, (s.workers device).reader = some stream → opened ≤ stream
  ordered : trace.Pairwise fun a b => a.allows b = true

theorem work_pass (host : Host) {s : System} (hknown : device ∈ s.devices)
    (htodo : (s.workers device).todo = []) (i : Inputs) :
    s.work host device i = s.pass host device i := by
  have hsome : (s.runtimes.lookup device).isNone = false := by
    simpa using mem_devices.mp hknown
  rw [work, hsome, htodo]
  rfl

theorem devices_next (host : Host) (h : s.Consistent) (step : Step) :
    device ∈ s.devices → device ∈ (s.next host step).devices := by
  have hstep := s.next_storeStep host h step
  generalize (s.next host step).store = store, (s.next host step).enqueued = enqueued,
    (s.next host step).devices = devices, s.news host step = news at hstep ⊢
  cases hstep with
  | discovery descriptor hnew => exact List.mem_append_left _
  | _ => exact id

/-- A step that gives up a partly written frame drops the stream, unless a read interrupts it. -/
theorem reader_of_abandoned {step : Step} (hsafe : s.interrupted host device step = false)
    {opened : ℕ} (h : .abandoned opened ∈ s.wire host device step) :
    opened = (s.workers device).opened ∧ ((s.next host step).workers device).reader = none := by
  rcases s.wire_cases host device step with
      hnone | ⟨⟨i, rfl, hknown, htodo⟩, ⟨hplace, hwire⟩ | ⟨i', hi, hplace, hempty, hwire⟩⟩
  · rw [hnone] at h
    cases h
  · rw [hwire] at h
    obtain ⟨hopened, hreader⟩ := Worker.mem_headWire h
    refine ⟨Wire.abandoned.inj hopened, ?_⟩
    rw [System.next, work_pass host hknown htodo, pass, hplace]
    dsimp only
    rw [setWorker_self]
    unfold Worker.abandon
    split_ifs <;> exact hreader
  · cases hi
    rw [hwire] at h
    have hopened : opened = (s.workers device).opened := by
      rcases (s.workers device).idleWire_cases host i with
          hnone | ⟨stream, bytes, aborts, -, hidle, haborts⟩
      · rw [hnone] at h
        cases h
      · rw [hidle] at h
        rcases haborts with rfl | rfl
        · simp at h
        · simpa using h
    refine ⟨hopened, ?_⟩
    rw [hopened] at h
    have hqueue : s.queues device = [] := List.isEmpty_iff.mp hempty
    have hnot : (s.workers device).interrupts host i = false := by
      rw [interrupted, htodo, hplace, hqueue, mem_devices.mp hknown] at hsafe
      simpa using hsafe
    rw [System.next, work_pass host hknown htodo, pass, hplace]
    dsimp only
    rw [hqueue]
    dsimp only
    rw [setWorker_self]
    by_contra hreader
    have hinterrupts := ((s.workers device).interrupts_iff host
      (s.reopensAfterBootEntry device) i).mpr ⟨h, hreader⟩
    rw [hnot] at hinterrupts
    cases hinterrupts

theorem reader_of_wrote {step : Step} {stream : ℕ} {bytes : List UInt8}
    (h : .wrote stream bytes ∈ s.wire host device step) :
    (s.workers device).reader = some stream := by
  rcases s.wire_cases host device step with hnone | ⟨-, ⟨-, hwire⟩ | ⟨i, -, -, -, hwire⟩⟩
  · rw [hnone] at h
    cases h
  · rw [hwire] at h
    cases (Worker.mem_headWire h).1
  · rw [hwire] at h
    rcases (s.workers device).idleWire_cases host i with
        hnone | ⟨stream', bytes', aborts, hreader, hidle, haborts⟩
    · rw [hnone] at h
      cases h
    · rw [hidle] at h
      rcases haborts with rfl | rfl
      · obtain ⟨rfl, rfl⟩ : stream = stream' ∧ bytes = bytes' := by simpa using h
        exact hreader
      · obtain ⟨rfl, rfl⟩ : stream = stream' ∧ bytes = bytes' := by simpa using h
        exact hreader

theorem wire_ordered (host : Host) (s : System) (device : DeviceId) (step : Step) :
    (s.wire host device step).Pairwise fun a b => a.allows b = true := by
  rcases s.wire_cases host device step with hnone | ⟨-, ⟨-, hwire⟩ | ⟨i, -, -, -, hwire⟩⟩
  · rw [hnone]
    exact .nil
  · rw [hwire]
    unfold Worker.headWire Worker.discards
    split_ifs <;> simp
  · rw [hwire]
    rcases (s.workers device).idleWire_cases host i with
        hnone | ⟨stream, bytes, aborts, -, hidle, rfl | rfl⟩
    · rw [hnone]
      exact .nil
    · rw [hidle]
      simp
    · rw [hidle]
      simp [Wire.allows]

namespace Quiet
variable {trace : List Wire}

theorem init (device : DeviceId) (epoch : String) (runtimes : List (DeviceId × DeviceDescriptor)) :
    Quiet device [] (System.init epoch runtimes) where
  known h := absurd rfl h
  fresh _ h := by cases h
  spoilt _ h := by cases h
  ordered := .nil

/-- What has been given up so far does not concern the stream that takes the next bytes. -/
theorem ordered_append (h : Quiet device trace s) (host : Host) (step : Step) :
    (trace ++ s.wire host device step).Pairwise fun a b => a.allows b = true := by
  refine List.pairwise_append.mpr ⟨h.ordered, s.wire_ordered host device step, ?_⟩
  intro a ha b hb
  cases a with
  | wrote stream bytes => rfl
  | abandoned opened =>
      cases b with
      | abandoned opened' => rfl
      | wrote stream bytes =>
          have hle := (h.spoilt opened ha).2 stream (reader_of_wrote hb)
          simp [Wire.allows, hle]

theorem next_spoilt (h : Quiet device trace s) {w : Worker} (hmoves : (s.workers device).Moves w)
    {opened : ℕ} (hold : .abandoned opened ∈ trace) :
    opened ≤ w.opened ∧ ∀ stream, w.reader = some stream → opened ≤ stream := by
  obtain ⟨hle, hreader⟩ := h.spoilt opened hold
  rcases hmoves with ⟨hopened, hsame | hnone⟩ | ⟨hopened, hopens⟩
  · rw [hopened, hsame]
    exact ⟨hle, hreader⟩
  · rw [hopened, hnone]
    exact ⟨hle, fun _ h => by cases h⟩
  · rw [hopened, hopens]
    refine ⟨by omega, ?_⟩
    rintro stream ⟨⟩
    exact hle

theorem next (h : Quiet device trace s) (hconsistent : s.Consistent) {step : Step}
    (hsafe : s.interrupted host device step = false) :
    Quiet device (trace ++ s.wire host device step) (s.next host step) := by
  by_cases hknown : device ∈ s.devices
  · have hmoves := s.next_moves host hknown step
    constructor
    · exact fun _ => devices_next host hconsistent step hknown
    · exact hmoves.fresh h.fresh
    · intro opened hmem
      rcases List.mem_append.mp hmem with hold | hnew
      · exact h.next_spoilt hmoves hold
      · obtain ⟨rfl, hnone⟩ := reader_of_abandoned hsafe hnew
        constructor
        · rcases hmoves with ⟨hopened, -⟩ | ⟨hopened, -⟩ <;> omega
        · intro stream hreader
          rw [hnone] at hreader
          cases hreader
    · exact h.ordered_append host step
  · have htrace : trace = [] := by
      by_contra hne
      exact hknown (h.known hne)
    have hwire : s.wire host device step = [] := by
      rcases s.wire_cases host device step with hnone | ⟨⟨i, -, hmem, -⟩, -⟩
      · exact hnone
      · exact absurd hmem hknown
    rw [htrace, hwire]
    rcases s.next_worker_of_unknown host hknown step with hsame | hnew
    · constructor
      · exact fun hne => absurd rfl hne
      · rw [hsame]
        exact h.fresh
      · exact fun _ hmem => by cases hmem
      · exact .nil
    · constructor
      · exact fun hne => absurd rfl hne
      · rw [hnew]
        exact fun _ hreader => by cases hreader
      · exact fun _ hmem => by cases hmem
      · exact .nil

theorem run (h : Quiet device trace s) (hconsistent : s.Consistent) {steps : List Step}
    (hsafe : eachSafe (System.next host) (fun s step => !s.interrupted host device step) s steps =
      true) :
    Quiet device (trace ++ Runs.collect (System.next host) (wire host device) s steps)
      (s.run host steps) := by
  induction steps generalizing s trace with
  | nil =>
      rw [Runs.collect, List.append_nil]
      exact h
  | cons step steps ih =>
      rw [eachSafe, Bool.and_eq_true, Bool.not_eq_true'] at hsafe
      rw [Runs.collect, ← List.append_assoc]
      exact ih (h.next hconsistent hsafe.1) (hconsistent.next step) hsafe.2

end Quiet

/-- Each step that gives up a partly written frame drops the stream. -/
def DropsStreams (host : Host) (device : DeviceId) : System → List Step → Prop
  | _, [] => True
  | s, step :: steps =>
      (∀ opened, .abandoned opened ∈ s.wire host device step →
        ((s.next host step).workers device).reader = none) ∧
      DropsStreams host device (s.next host step) steps

theorem not_drops_of_interrupted {step : Step} (h : s.interrupted host device step = true) :
    ∃ opened, .abandoned opened ∈ s.wire host device step ∧
      ((s.next host step).workers device).reader ≠ none := by
  cases step with
  | work d i =>
      simp only [interrupted, Bool.and_eq_true, decide_eq_true_eq, List.isEmpty_iff] at h
      obtain ⟨⟨⟨⟨⟨rfl, hknown⟩, htodo⟩, hplace⟩, hqueue⟩, hinterrupts⟩ := h
      obtain ⟨hevent, hreader⟩ := ((s.workers d).interrupts_iff host
        (s.reopensAfterBootEntry d) i).mp hinterrupts
      refine ⟨(s.workers d).opened, ?_, ?_⟩
      · rw [wire, if_pos ⟨rfl, hknown, htodo⟩, hplace]
        dsimp only
        rw [hqueue]
        exact hevent
      · rw [System.next, work_pass host (mem_devices.mpr hknown) htodo, pass, hplace]
        dsimp only
        rw [hqueue]
        dsimp only
        rwa [setWorker_self]
  | _ => cases h

theorem dropsStreams_iff (steps : List Step) : DropsStreams host device s steps ↔
    eachSafe (next host) (fun s step => !s.interrupted host device step) s steps = true := by
  induction steps generalizing s with
  | nil => simp [DropsStreams, eachSafe]
  | cons step steps ih =>
      rw [DropsStreams, eachSafe, Bool.and_eq_true, Bool.not_eq_true', ih]
      refine and_congr_left fun _ => ?_
      constructor
      · intro hdrops
        by_contra hinterrupted
        obtain ⟨opened, hevent, hreader⟩ :=
          not_drops_of_interrupted (Bool.eq_true_of_not_eq_false hinterrupted)
        exact hreader (hdrops opened hevent)
      · exact fun hsafe opened hevent => (reader_of_abandoned hsafe hevent).2

/-- In every run in which no read interrupts a partly written frame, no stream that was open when
such a frame was given up takes another byte; and these are the runs in which the stream is
dropped whenever this happens. -/
theorem abandoned_frame_ends_stream (host : Host) (epoch : String)
    (runtimes : List (DeviceId × DeviceDescriptor)) (steps : List Step) (device : DeviceId) :
    (eachSafe (next host) (fun s step => !s.interrupted host device step)
        (System.init epoch runtimes) steps = true →
      (Runs.collect (next host) (wire host device) (System.init epoch runtimes) steps).Pairwise
        fun a b => a.allows b = true) ∧
    (DropsStreams host device (System.init epoch runtimes) steps ↔
      eachSafe (next host) (fun s step => !s.interrupted host device step)
        (System.init epoch runtimes) steps = true) := by
  constructor
  · intro hsafe
    exact ((Quiet.init device epoch runtimes).run (.init epoch runtimes) hsafe).ordered
  · exact dropsStreams_iff steps

/-- Three bytes at a time. -/
def slow : Driver where
  write bytes := .ok (min bytes.length 3)
  write_le h := by
    cases h
    exact Nat.min_le_left ..

def broken : Driver where
  write _ := .error ⟨.other, "Input/output error"⟩
  write_le h := by cases h

/-- A host that reads the reply to a negotiation. -/
def statusHost : Host := { bareHost with serde := statusSerde }

/-- Steps of the worker with this driver, and these bytes to read. -/
def turn (driver : Driver) (bytes : List UInt8) (n : ℕ) : List Step :=
  List.replicate n (.work "dev-1" { stalled (fun _ => 0) with
    driver := driver
    read := if bytes.isEmpty then .error ⟨.wouldBlock, "would block"⟩ else .ok bytes })

def submitted (n : ℕ) (action : Action) : List Step :=
  .submit ⟨"dev-1", 115200, true⟩ action ⟨toString n, "f"⟩ ::
    List.replicate 8 (.advance n (.answer (.ok monitored)))

def ackFrame : Frame where
  kind := helloAck
  session := 1
  request := 0
  payload := ascii "\x7b\"protocol\":1\x7d"

/-- A monitor is opened and its application connected, and input is queued. -/
def queuedSteps : List Step :=
  openSteps ++ submitted 1 (.application none 1000) ++ turn Duplex.eager [] 6 ++
    turn Duplex.eager ackFrame.wire 5 ++
    submitted 2 (.serialWrite [104, 105] "" 115200 1000) ++ turn slow [] 3

/-- The driver fails inside the frame, and the next input goes to another stream. -/
def brokenSteps : List Step :=
  queuedSteps ++ turn slow [] 3 ++ turn broken [] 5 ++
    submitted 3 (.serialWrite [104, 105] "" 115200 1000) ++ turn Duplex.eager [] 10

theorem broken_write_drops :
    (Runs.collect (next statusHost) (wire statusHost "dev-1")
      (System.init "1-1" [("dev-1", monitored)]) brokenSteps).Pairwise
        fun a b => a.allows b = true :=
  (abandoned_frame_ends_stream statusHost "1-1" [("dev-1", monitored)] brokenSteps "dev-1").1
    (by decide +kernel)

/-- The device restarts and prints a line when three bytes of the frame are written. The next
input follows them. -/
def restartSteps : List Step :=
  queuedSteps ++ turn slow [0x0a] 6 ++
    submitted 3 (.serialWrite [104, 105] "" 115200 1000) ++ turn Duplex.eager [] 7

theorem restart_writes_on :
    ¬ (Runs.collect (next statusHost) (wire statusHost "dev-1")
      (System.init "1-1" [("dev-1", monitored)]) restartSteps).Pairwise
        fun a b => a.allows b = true := by
  decide +kernel

end System
end IdfRemote
