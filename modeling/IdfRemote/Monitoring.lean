import IdfRemote.Exclusivity

/-!
# A device that shows a monitor has one

The worker drops its stream in several places and the store learns of it by what
the worker records. We follow the activity a device will show once the worker's
instructions are carried out: without a stream it is never that of a monitor, as
long as a pass that gives up its stream has a completion to record.
-/
namespace IdfRemote

def DeviceState.isMonitoring (state : DeviceState) : Bool := state.status.activity = .monitoring

/-- Whether a device may show a monitor after an instruction. -/
def Instr.shows (shown : Bool) : Instr → Bool
  | .finishStream done hasReader => if done.isEmpty then shown else hasReader
  | .finishExclusive _ _ _ hasReader => hasReader
  | .beginMonitorReconnect .. => false
  | .finishMonitorReconnect .. => true
  | _ => shown

def todoShows (shown : Bool) (todo : List Instr) : Bool := todo.foldl Instr.shows shown

@[simp] theorem todoShows_nil (shown : Bool) : todoShows shown [] = shown := rfl

@[simp] theorem todoShows_cons (shown : Bool) (instr : Instr) (todo : List Instr) :
    todoShows shown (instr :: todo) = todoShows (instr.shows shown) todo := rfl

@[simp] theorem todoShows_append (shown : Bool) (todo todo' : List Instr) :
    todoShows shown (todo ++ todo') = todoShows (todoShows shown todo) todo' :=
  List.foldl_append

theorem Instr.shows_false {shown : Bool} (instr : Instr) (h : instr.shows shown = false) :
    instr.shows false = false := by
  cases instr with
  | finishStream done hasReader =>
      simp only [shows] at h ⊢
      split_ifs at h ⊢
      · rfl
      · exact h
  | finishExclusive id result artifact hasReader => exact h
  | finishMonitorReconnect baud attempts => exact h
  | _ => rfl

theorem todoShows_false {shown : Bool} {todo : List Instr} (h : todoShows shown todo = false) :
    todoShows false todo = false := by
  induction todo generalizing shown with
  | nil => rfl
  | cons instr todo ih =>
      rw [todoShows_cons] at h ⊢
      cases hfirst : instr.shows shown with
      | true =>
          cases hnext : instr.shows false with
          | true =>
              rw [hfirst] at h
              exact h
          | false => exact ih h
      | false =>
          rw [instr.shows_false hfirst]
          exact ih h

theorem todoShows_mono {shown shown' : Bool} (hle : shown' = true → shown = true)
    {todo : List Instr} (h : todoShows shown todo = false) : todoShows shown' todo = false := by
  cases shown' with
  | true =>
      rw [hle rfl] at h
      exact h
  | false => exact todoShows_false h

theorem todoShows_ensureAvailable (i : Inputs) (shown : Bool) :
    todoShows shown i.ensureAvailable.1 = shown := by
  unfold Inputs.ensureAvailable
  split <;> rfl

theorem todoShows_ite {c : Prop} [Decidable c] {kind : String} {data : Value} (shown : Bool) :
    todoShows shown (if c then [.emit kind data] else []) = shown := by
  split_ifs <;> rfl

theorem todoShows_finishInstr (done : List Completion) (hasReader shown : Bool) :
    todoShows shown (finishInstr done hasReader) = if done.isEmpty then shown else hasReader := by
  unfold finishInstr
  split_ifs with hdone
  · rfl
  · simp [Instr.shows, hdone]

/-- A `tick` fails when a transfer is late or the driver fails on the front one. -/
def Duplex.fails (d : Duplex) (now : Clock) (io : Driver) : Bool :=
  d.late now || d.tx.head?.any fun front => !(front.send io).isOk

theorem Duplex.fails_iff {d : Duplex} {now : Clock} {io : Driver} :
    d.fails now io = true ↔ ∃ e, d.tick now io = (d, .error e) := by
  unfold tick fails
  by_cases hlate : d.late now = true
  · rw [if_pos hlate, hlate, Bool.true_or]
    exact ⟨fun _ => ⟨_, rfl⟩, fun _ => rfl⟩
  · rw [if_neg hlate, Bool.eq_false_of_not_eq_true hlate, Bool.false_or]
    cases htx : d.tx with
    | nil => simp
    | cons front rest =>
        rw [List.head?_cons, Option.any_some]
        cases hsend : front.send io with
        | error e => simp [Except.isOk, Except.toBool, hsend]
        | ok sent => cases sent <;> simp [Except.isOk, Except.toBool, hsend]

/-- Without a stream, a worker's device will show no monitor. -/
structure Worker.Truthful (w : Worker) (shown : Bool) : Prop where
  baud : w.reader.isSome = w.readerBaud.isSome
  shows : w.reader = none → todoShows shown w.todo = false

namespace Worker.Truthful
variable {w : Worker} {shown : Bool}

theorem mono (h : w.Truthful shown) {shown' : Bool} (hle : shown' = true → shown = true) :
    w.Truthful shown' :=
  ⟨h.baud, fun hreader => todoShows_mono hle (h.shows hreader)⟩

theorem of_reader {w : Worker} (hreader : w.reader.isSome = true)
    (hbaud : w.readerBaud.isSome = true) (shown : Bool) : w.Truthful shown :=
  ⟨hreader.trans hbaud.symm, fun hnone => by rw [hnone] at hreader; cases hreader⟩

theorem abandon (h : w.Truthful shown) (htodo : w.todo = []) : w.abandon.Truthful shown := by
  unfold Worker.abandon
  split
  · next hlost =>
    refine ⟨h.baud, fun hreader => ?_⟩
    have hshown := h.shows hreader
    rw [htodo, todoShows_nil] at hshown
    dsimp only
    rw [todoShows_append, todoShows_ite, todoShows_finishInstr, hshown, ite_self]
  · exact h

theorem attach (h : w.Truthful shown) (job : Job) (i : Inputs) :
    (w.attach job i).1.reader.isSome = (w.attach job i).1.readerBaud.isSome ∧
      ((w.attach job i).2.2 = .ok () → (w.attach job i).1.reader.isSome = true) := by
  unfold Worker.attach
  dsimp only
  split_ifs with hpending hsession hlost happ
  · exact ⟨h.baud, fun hok => by cases hok⟩
  · exact ⟨h.baud, fun hok => by cases hok⟩
  · exact ⟨h.baud, fun hok => by cases hok⟩
  · split
    · exact ⟨h.baud, fun hok => by cases hok⟩
    · split
      · exact ⟨rfl, fun hok => by cases hok⟩
      · exact ⟨rfl, fun _ => rfl⟩
  · rw [not_or] at hlost
    exact ⟨h.baud, fun _ => by simpa [Option.isSome_iff_ne_none] using hlost.1⟩

theorem refuse (hbaud : w.reader.isSome = w.readerBaud.isSome) (job : Job) (found : List Instr)
    (e : Error) (shown : Bool) : (w.refuse job found e).Truthful shown := by
  refine ⟨hbaud, fun hreader => ?_⟩
  have hnone : w.reader = none := hreader
  simp [Worker.refuse, Instr.shows, hnone]

theorem startStream_keeps (serde : Serde) (w : Worker) (job : Job) (i : Inputs) :
    (w.startStream serde job i).1.reader = w.reader ∧
      (w.startStream serde job i).1.readerBaud = w.readerBaud := by
  unfold Worker.startStream
  split <;> exact ⟨rfl, rfl⟩

theorem stream (h : w.Truthful shown) (serde : Serde) (job : Job) (i : Inputs) :
    (w.stream serde job i).Truthful shown := by
  obtain ⟨hbaud, hopen⟩ := h.attach job i
  unfold Worker.stream
  split
  · next attached found e hattach =>
    rw [hattach] at hbaud
    exact refuse hbaud job found e shown
  · next attached found hattach =>
    rw [hattach] at hbaud hopen
    obtain ⟨hreader, hreaderBaud⟩ := startStream_keeps serde attached job i
    have hsome : attached.reader.isSome = true := hopen rfl
    split
    · next started e hstart =>
      rw [hstart] at hreader hreaderBaud
      refine refuse ?_ job found e shown
      rw [show started.reader = attached.reader from hreader,
        show started.readerBaud = attached.readerBaud from hreaderBaud]
      exact hbaud
    · next started hstart =>
      rw [hstart] at hreader hreaderBaud
      refine of_reader ?_ ?_ shown
      · rw [show started.reader = attached.reader from hreader]
        exact hsome
      · rw [show started.readerBaud = attached.readerBaud from hreaderBaud]
        exact hbaud ▸ hsome

theorem operate_baud (host : Host) (hbaud : w.reader.isSome = w.readerBaud.isSome) (job : Job)
    (i : Inputs) : (w.operate host job i).1.reader.isSome =
      (w.operate host job i).1.readerBaud.isSome := by
  unfold Worker.operate
  split
  · exact hbaud
  · split
    · exact hbaud
    · split_ifs
      · split
        · exact hbaud
        · rfl
      · exact hbaud

theorem hardware_baud (host : Host) (hbaud : w.reader.isSome = w.readerBaud.isSome) (job : Job)
    (i : Inputs) : (w.hardware host job i).1.reader.isSome =
      (w.hardware host job i).1.readerBaud.isSome := by
  unfold Worker.hardware
  dsimp only
  split
  · exact hbaud
  · split_ifs
    · exact hbaud
    · exact hbaud
    · exact operate_baud host hbaud job i

/-- An exclusive action ends with what its device then has. -/
theorem exclusive (h : w.Truthful shown) (host : Host) (job : Job) (i : Inputs) :
    (w.exclusive host job i).Truthful shown := by
  unfold Worker.exclusive
  dsimp only
  constructor
  · dsimp only
    refine hardware_baud host ?_ job i
    split_ifs
    · exact h.baud
    · rfl
  · intro hreader
    dsimp only at hreader ⊢
    rw [todoShows_append, hreader]
    rfl

theorem lose (hbaud : w.reader.isSome = w.readerBaud.isSome) (text : String) (i : Inputs)
    {todo : List Instr} (htodo : w.reader = none → todoShows shown todo = false) :
    (w.lose text i todo).Truthful shown := by
  unfold Worker.lose
  split
  · next hnone =>
    refine ⟨by rw [hnone], fun _ => htodo ?_⟩
    rw [hnone] at hbaud
    simpa using hbaud
  · refine ⟨rfl, fun _ => ?_⟩
    dsimp only
    rw [todoShows_append]
    rfl

theorem deliver_keeps (host : Host) (w : Worker) (bytes : List UInt8) (reopens : Bool)
    (i : Inputs) (todo : List Instr) :
    (w.deliver host bytes reopens i todo).reader = w.reader ∧
      (w.deliver host bytes reopens i todo).readerBaud = w.readerBaud := by
  unfold Worker.deliver
  dsimp only
  split_ifs
  · split <;> exact ⟨rfl, rfl⟩
  · exact ⟨rfl, rfl⟩

theorem readStream (hbaud : w.reader.isSome = w.readerBaud.isSome)
    (hreader : w.reader.isSome = true) (host : Host) (reopens : Bool) (i : Inputs)
    (todo : List Instr) : (w.readStream host reopens i todo).Truthful shown := by
  have hnone : ∀ {p : Prop}, w.reader = none → p := fun hnone => by
    rw [hnone] at hreader
    cases hreader
  unfold Worker.readStream
  split
  · exact lose hbaud _ i hnone
  · next bytes _ _ =>
    obtain ⟨hr, hb⟩ := deliver_keeps host w bytes reopens i todo
    refine of_reader (by rw [hr]; exact hreader) ?_ shown
    rw [hb, ← hbaud]
    exact hreader
  · split_ifs
    · exact ⟨hbaud, hnone⟩
    · exact lose (w := { w with bootReopenAt := none }) hbaud _ i hnone

theorem reopen (h : w.Truthful shown) (htodo : w.todo = []) (i : Inputs) :
    (w.reopen i).Truthful shown := by
  have hfound := todoShows_ensureAvailable i shown
  unfold Worker.reopen
  split
  · exact h
  · split_ifs
    · dsimp only
      split
      · exact of_reader rfl rfl shown
      · refine ⟨h.baud, fun hreader => ?_⟩
        have hshown := h.shows hreader
        rw [htodo] at hshown
        dsimp only
        rw [hfound]
        exact hshown
    · exact h

theorem attend (h : w.Truthful shown) (htodo : w.todo = []) (host : Host) (reopens : Bool)
    (i : Inputs) {todo : List Instr} (hnone : w.reader = none → todo = []) :
    (w.attend host reopens i todo).Truthful shown := by
  unfold Worker.attend
  split_ifs with hboot hreader
  · apply lose (w := { w with bootReopenAt := none }) h.baud _ i
    intro hr
    have hshown := h.shows hr
    rw [htodo] at hshown
    rw [hnone hr]
    exact hshown
  · exact readStream h.baud hreader host reopens i todo
  · exact h.reopen htodo i

theorem idle (h : w.Truthful shown) (htodo : w.todo = []) (host : Host) (reopens : Bool)
    (i : Inputs) (hfail : shown = true → w.reader.isSome = true →
      w.duplex.fails i.tickClock i.driver = true → w.duplex.duties ≠ []) :
    (w.idle host reopens i).Truthful shown := by
  have htick := Duplex.tick_conserves w.duplex i.tickClock i.driver
  unfold Worker.idle
  split_ifs with hreader
  · split
    · next duplex done hcall =>
      have hnone : w.reader = none → finishInstr done true = [] := by
        intro hnone
        rw [hnone] at hreader
        cases hreader
      exact attend (w := { w with duplex := duplex }) ⟨h.baud, h.shows⟩ htodo host reopens i hnone
    · next duplex e hcall =>
      rw [hcall] at htick
      rcases htick with ⟨-, -, hsame⟩ | ⟨done, hdone, -⟩
      · refine ⟨rfl, fun _ => ?_⟩
        obtain rfl : duplex = w.duplex := hsame
        dsimp only
        rw [todoShows_append, todoShows_ite, todoShows_finishInstr]
        split_ifs with hempty
        · cases shown with
          | true =>
              have hduties := hfail rfl hreader (Duplex.fails_iff.mpr ⟨e, hcall⟩)
              rw [← (Duplex.abort_conserves w.duplex e.displayChain).1,
                List.isEmpty_iff.mp hempty] at hduties
              exact absurd rfl hduties
          | false => rfl
        · rfl
      · cases hdone
  · exact h.attend htodo host reopens i fun _ => rfl

theorem serve (h : w.Truthful shown) (host : Host) (job : Job) (i : Inputs) :
    (w.serve host job i).Truthful shown := by
  unfold Worker.serve
  split_ifs
  · exact h.stream host.serde job i
  · exact h.exclusive host job i

end Worker.Truthful

/-- One device changes, and shows a monitor only if `shown` says so. -/
structure Store.Shows (s s' : Store) (device : DeviceId) (shown : Bool) : Prop where
  own : (s'.devices device).isMonitoring = true → shown = true
  other : ∀ d, d ≠ device → s'.devices d = s.devices d

namespace Store
variable {s s' s'' : Store} {device : DeviceId} {shown : Bool}

theorem Shows.refl (s : Store) (device : DeviceId) :
    s.Shows s device (s.devices device).isMonitoring := ⟨id, fun _ _ => rfl⟩

theorem Shows.trans (h : s.Shows s' device shown)
    (h' : s'.Shows s'' device (s'.devices device).isMonitoring) : s.Shows s'' device shown :=
  ⟨fun hown => h.own (h'.own hown), fun d hd => (h'.other d hd).trans (h.other d hd)⟩

theorem shows_modifyDevice (s : Store) (device : DeviceId) {f : DeviceState → DeviceState}
    (hf : (f (s.devices device)).isMonitoring = true → shown = true) :
    s.Shows (s.modifyDevice device f) device shown := by
  constructor
  · rw [modifyDevice_self]
    exact hf
  · exact fun d hd => modifyDevice_of_ne _ _ _ hd

theorem shows_emit (size : Event → ℕ) (s : Store) (device : DeviceId) (kind : String)
    (data : Value) :
    s.Shows (s.emit size device kind data) device (s.devices device).isMonitoring :=
  s.shows_modifyDevice device id

theorem shows_emitAll (size : Event → ℕ) (s : Store) (device : DeviceId) (news : List News) :
    s.Shows (s.emitAll size device news) device (s.devices device).isMonitoring :=
  related_emitAll (R := fun s s' => s.Shows s' device (s.devices device).isMonitoring)
    (fun s => .refl s device) (fun h h' => h.trans h') (fun s => s.shows_emit size device) s news

end Store

theorem DeviceState.completeStream_shows (state : DeviceState) (lane : Lane) (hasReader : Bool)
    (h : (state.completeStream lane hasReader).isMonitoring = true) : hasReader = true := by
  cases hasReader with
  | true => rfl
  | false =>
      cases lane <;>
        simp only [isMonitoring, completeStream, setActivity, decide_eq_true_eq] at h <;>
        split_ifs at h <;> contradiction

theorem DeviceState.completeExclusive_shows (state : DeviceState) (succeeded hasReader : Bool)
    (h : (state.completeExclusive succeeded hasReader).isMonitoring = true) :
    hasReader = true := by
  cases hasReader with
  | true => rfl
  | false => cases succeeded <;> cases h

theorem DeviceState.release_shows (state : DeviceState) (action : Action) :
    (state.release action).isMonitoring = false := by
  simp only [isMonitoring, release, setActivity]
  split_ifs <;> rfl

namespace Fits
variable {s : Store} {enqueued : List Enqueued} {device : DeviceId} {duties : List Duty}
  {devices : List DeviceId}

/-- The completion of a duty reaches its operation, so the device shows what it says. -/
theorem conclude_shows (host : Host) {id : String} {lane : Option Lane} {shown : Bool}
    (finish : Operation → Operation) {complete : DeviceState → DeviceState}
    (h : Fits s enqueued device ((id, lane) :: duties))
    (hcomplete : ∀ state, (complete state).isMonitoring = true → shown = true) :
    s.Shows (s.conclude host device id finish complete) device shown := by
  obtain ⟨e, -, -, hrunning, hduty⟩ := h.entry List.mem_cons_self
  obtain rfl : e.job.id = id := congrArg Prod.fst hduty
  obtain ⟨kind, data, hstate, hother⟩ := devices_conclude host device finish complete hrunning
  constructor
  · rw [hstate]
    exact hcomplete _
  · exact hother

theorem finishStream_shows (host : Host) (hretained : Retained s devices enqueued)
    (done : List Completion) (hasReader : Bool)
    (h : Fits s enqueued device ((Completion.discharges done).map streamDuty ++ duties)) :
    s.Shows (s.finishStream host device done hasReader) device
      (if done.isEmpty then (s.devices device).isMonitoring else hasReader) := by
  induction done generalizing s with
  | nil => exact .refl s device
  | cons c done ih =>
      have hshow := conclude_shows host (·.finish c.result) h
        fun state => state.completeStream_shows c.lane hasReader
      have hfirst := finishCompletion host hretained c hasReader h
      have hrest := ih (hretained.evolve (s.evolves_finishCompletion host device hasReader c))
        hfirst.own
      constructor
      · intro hown
        have hlast := hrest.own hown
        split_ifs at hlast
        · exact hshow.own hlast
        · exact hlast
      · exact fun d hd => (hrest.other d hd).trans (hshow.other d hd)

theorem exec_shows (host : Host) (hretained : Retained s devices enqueued) (i : Inputs)
    (w : Worker) (instr : Instr) (h : Fits s enqueued device (instr.duties ++ duties)) :
    s.Shows (Worker.exec host device i s w instr).1 device
      (instr.shows (s.devices device).isMonitoring) := by
  cases instr with
  | finishStream done hasReader => exact finishStream_shows host hretained done hasReader h
  | finishExclusive id result artifact hasReader =>
      have hkeep := s.settled_keepArtifact id result artifact
      have hshow := conclude_shows host (Store.finished result artifact) (h.settle hkeep)
        fun state => state.completeExclusive_shows result.isOk hasReader
      refine ⟨hshow.own, fun d hd => (hshow.other d hd).trans ?_⟩
      rw [s.devices_keepArtifact]
  | emit kind data => exact s.shows_emit _ _ _ _
  | describe descriptor => exact .refl s device
  | setAvailability availability =>
      exact s.shows_modifyDevice (f := (·.setAvailability availability)) device id
  | beginMonitorReconnect baud text =>
      refine Store.Shows.trans ?_ (Store.shows_emit _ _ _ _ _)
      exact s.shows_modifyDevice device fun h => by cases h
  | finishMonitorReconnect baud attempts =>
      refine Store.Shows.trans ?_ (Store.shows_emit _ _ _ _ _)
      exact s.shows_modifyDevice device fun _ => rfl
  | output output =>
      rw [Worker.exec_output]
      exact s.shows_emitAll _ device _
  | raw bytes reopens deadline =>
      rw [Worker.exec_raw]
      exact s.shows_emitAll _ device _

end Fits

namespace System

/-- The next pass gives up its stream after a failed write, and has nothing to complete. -/
def drops (s : System) (device : DeviceId) (i : Inputs) : Bool :=
  let w := s.workers device
  w.place = .receive && (s.queues device).isEmpty && w.reader.isSome &&
    w.duplex.fails i.tickClock i.driver && w.duplex.duties.isEmpty

/-- No pass drops the stream of a device that shows a monitor without a completion to
record, and no device enters with a monitor shown. -/
def careful (s : System) : Step → Bool
  | .work device i => !(s.drops device i && (s.store.devices device).isMonitoring)
  | .discover descriptor => descriptor.status.activity ≠ .monitoring
  | _ => true

/-- Every step of a run is careful where it is taken. -/
def carefulRun (host : Host) : System → List Step → Bool
  | _, [] => true
  | s, step :: steps => s.careful step && carefulRun host (s.next host step) steps

/-- Without a stream, the device of a worker will show no monitor. -/
def Truthful (s : System) : Prop :=
  ∀ device, (s.workers device).Truthful (s.store.devices device).isMonitoring

namespace Truthful
variable {s : System}

theorem of_mono {s' : System} (h : s.Truthful) (hworkers : s'.workers = s.workers)
    (hle : ∀ d, (s'.store.devices d).isMonitoring = true →
      (s.store.devices d).isMonitoring = true) : s'.Truthful := by
  intro device
  rw [hworkers]
  exact (h device).mono (hle device)

theorem update (h : s.Truthful) {device : DeviceId} {w : Worker} {store : Store} {shown : Bool}
    (hstore : s.store.Shows store device shown) (hw : w.Truthful shown) :
    Truthful { s.setWorker device w with store := store } := by
  intro d
  dsimp only [System.setWorker]
  by_cases hd : d = device
  · subst hd
    rw [Function.update_self]
    exact hw.mono hstore.own
  · rw [Function.update_of_ne hd, hstore.other d hd]
    exact h d

theorem setWorker (h : s.Truthful) {device : DeviceId} {w : Worker}
    (hw : w.Truthful (s.store.devices device).isMonitoring) : (s.setWorker device w).Truthful :=
  h.update (.refl s.store device) hw

theorem init (epoch : String) {runtimes : List (DeviceId × DeviceDescriptor)}
    (hruntimes : ∀ r ∈ runtimes, r.2.status.activity ≠ .monitoring) :
    (System.init epoch runtimes).Truthful := by
  intro device
  refine ⟨rfl, fun _ => ?_⟩
  have hidle : (((runtimes.lookup device).map fun d => d.status).getD
      DeviceStatus.availableIdle).activity ≠ .monitoring := by
    cases hlookup : runtimes.lookup device with
    | none => decide
    | some descriptor =>
        obtain ⟨front, back, hsplit, -⟩ := List.lookup_eq_some_iff.mp hlookup
        exact hruntimes (device, descriptor) (by simp [hsplit])
  exact decide_eq_false hidle

theorem setAvailability (h : s.Truthful) (device : DeviceId) (availability : DeviceAvailability) :
    (s.setAvailability device availability).Truthful := by
  refine h.of_mono rfl fun d hd => ?_
  have hshow := s.store.shows_modifyDevice (f := (·.setAvailability availability)) device id
  by_cases heq : d = device
  · subst heq
    exact hshow.own hd
  · rw [← hshow.other d heq]
    exact hd

theorem tryStart (h : s.Truthful) (hretained : Retained s.store s.devices s.enqueued)
    (host : Host) (sub : Submission) : (s.tryStart host sub).1.Truthful := by
  rcases s.tryStart_cases host sub with ⟨result, hr⟩ | ⟨accepted, op, -, haccept, ⟨-, hr⟩ | ⟨-, hr⟩⟩
  · rw [hr]
    exact h
  · rw [hr]
    refine h.of_mono rfl fun d hd => ?_
    by_cases heq : d = sub.request.deviceId
    · subst heq
      obtain ⟨kind, data, hstate⟩ := Fits.devices_accept_self hretained haccept
      dsimp only at hd
      rw [hstate] at hd
      cases hd
    · dsimp only at hd
      rwa [Fits.devices_accept_of_ne hretained haccept heq] at hd
  · rw [hr]
    refine h.of_mono rfl fun d hd => ?_
    dsimp only [Store.withdraw] at hd
    by_cases heq : d = sub.request.deviceId
    · subst heq
      rw [Store.modifyDevice_self, DeviceState.release_shows] at hd
      cases hd
    · rw [Store.modifyDevice_of_ne _ _ _ heq] at hd
      rwa [Fits.devices_accept_of_ne hretained haccept heq] at hd

theorem proceed (host : Host) (h : s.Truthful)
    (hretained : Retained s.store s.devices s.enqueued) (sub : Submission) (refresh : Refresh) :
    (s.proceed host sub refresh).1.Truthful := by
  rcases s.proceed_cases host sub refresh with
      ⟨-, hp | ⟨descriptor, hp⟩ | ⟨availability, hp⟩⟩ | ⟨descriptor, -, -, hp⟩
  · rwa [hp]
  · rw [hp]
    exact h
  · rw [hp]
    exact h.setAvailability _ _
  · rw [hp]
    exact h.tryStart hretained host sub

theorem advance (h : s.Truthful) (host : Host)
    (hretained : Retained s.store s.devices s.enqueued) (n : ℕ) (refresh : Refresh) :
    (s.advance host n refresh).Truthful := by
  rcases advance_cases host s n refresh with hsame | ⟨sub, -, hadvance⟩
  · rw [hsame]
    exact h
  · rw [hadvance]
    exact h.proceed host hretained sub refresh

theorem discover (h : s.Truthful) {descriptor : DeviceDescriptor}
    (hidle : descriptor.status.activity ≠ .monitoring) : (s.discover descriptor).Truthful := by
  rcases s.discover_cases descriptor with hold | ⟨-, hd⟩
  · rwa [hold]
  · rw [hd]
    have hfresh : ({} : Worker).Truthful (decide (descriptor.status.activity = .monitoring)) :=
      ⟨rfl, fun _ => decide_eq_false hidle⟩
    exact h.update (s.store.shows_modifyDevice descriptor.id
      (f := fun _ => { status := descriptor.status }) id) hfresh

theorem execute (h : s.Truthful) (hconsistent : s.Consistent) (hbalanced : s.Balanced)
    (host : Host) {device : DeviceId} (i : Inputs) {instr : Instr} {rest : List Instr}
    (htodo : (s.workers device).todo = instr :: rest) :
    (s.execute host device i instr rest).Truthful := by
  have hshows := (hbalanced.fits_todo htodo).2.exec_shows host hconsistent.retained i
    { s.workers device with todo := rest } instr
  obtain ⟨decoder, bootReopenAt, runtimes, -, hexecute⟩ := s.execute_eq host device i instr rest
  have hrest : ({ s.workers device with
      todo := rest, decoder := decoder, bootReopenAt := bootReopenAt } : Worker).Truthful
      (instr.shows (s.store.devices device).isMonitoring) := by
    refine ⟨(h device).baud, fun hnone => ?_⟩
    have hshown := (h device).shows hnone
    rwa [htodo, todoShows_cons] at hshown
  rw [hexecute]
  exact h.update hshows hrest

theorem pass (h : s.Truthful) (host : Host) (device : DeviceId) (i : Inputs)
    (htodo : (s.workers device).todo = []) (hcareful : s.careful (.work device i) = true) :
    (s.pass host device i).Truthful := by
  have hw := h device
  unfold System.pass
  dsimp only
  split
  · have habandon := hw.abandon htodo
    exact h.setWorker ⟨habandon.baud, habandon.shows⟩
  · split_ifs <;> exact h.setWorker ⟨hw.baud, hw.shows⟩
  · next hplace =>
    split
    · next job jobs _ =>
      have hserve := hw.serve host job i
      exact h.setWorker (w := { (s.workers device).serve host job i with place := .head })
        ⟨hserve.baud, hserve.shows⟩
    · next hqueue =>
      have hidle := hw.idle htodo host (s.reopensAfterBootEntry device) i ?_
      · exact h.setWorker ⟨hidle.baud, hidle.shows⟩
      · intro hshown hreader hfails hduties
        have hdrops : s.drops device i = true := by
          simp [drops, hplace, hqueue, hreader, hfails, hduties]
        rw [careful, hdrops, hshown] at hcareful
        cases hcareful
  · exact h.setWorker (w := { s.workers device with place := .exited }) ⟨hw.baud, hw.shows⟩
  · exact h

theorem next (h : s.Truthful) (hconsistent : s.Consistent) (hbalanced : s.Balanced) (host : Host)
    {step : Step} (hcareful : s.careful step = true) : (s.next host step).Truthful := by
  cases step with
  | submit request action identity => exact h
  | advance n refresh => exact h.advance host hconsistent.retained n refresh
  | work device inputs =>
      rw [System.next]
      rcases work_cases host s device inputs with hw | ⟨instr, rest, htodo, hw⟩ | ⟨htodo, hw⟩
      · rwa [hw]
      · rw [hw]
        exact h.execute hconsistent hbalanced host inputs htodo
      · rw [hw]
        exact h.pass host device inputs htodo hcareful
  | shutdown => exact h
  | discover descriptor => exact h.discover (of_decide_eq_true hcareful)
  | describe device descriptor => exact h
  | setAvailability device availability =>
      simp only [System.next]
      split_ifs
      · exact h.setAvailability device availability
      · exact h

theorem run (h : s.Truthful) (hconsistent : s.Consistent) (hbalanced : s.Balanced) (host : Host)
    {steps : List Step} (hcareful : s.carefulRun host steps = true) :
    (s.run host steps).Truthful := by
  induction steps generalizing s with
  | nil => exact h
  | cons step steps ih =>
      rw [carefulRun, Bool.and_eq_true] at hcareful
      obtain ⟨hstep, hrest⟩ := hcareful
      exact ih (h.next hconsistent hbalanced host hstep) (hconsistent.next step)
        (hbalanced.next hconsistent.retained step) hrest

end Truthful

/-- Between two passes of its worker, a device without work that shows a monitor has one. -/
def MonitoringTruthful (s : System) (device : DeviceId) : Prop :=
  (s.workers device).place = .head → (s.workers device).todo = [] →
    (s.store.devices device).busy = false → s.queues device = [] →
    (s.store.devices device).status.activity = .monitoring →
    (s.workers device).reader.isSome = true
deriving Decidable

/-- In a run whose steps are careful, where no device enters with a monitor shown. -/
theorem monitoring_truthful (host : Host) (epoch : String)
    (runtimes : List (DeviceId × DeviceDescriptor)) (steps : List Step)
    (hruntimes : ∀ r ∈ runtimes, r.2.status.activity ≠ .monitoring)
    (hcareful : (System.init epoch runtimes).carefulRun host steps = true) (device : DeviceId) :
    MonitoringTruthful ((System.init epoch runtimes).run host steps) device := by
  intro _ htodo _ _ hactivity
  have htruthful := (Truthful.init epoch hruntimes).run (.init epoch runtimes)
    (.init epoch runtimes) host hcareful device
  cases hreader : (((System.init epoch runtimes).run host steps).workers device).reader with
  | some n => rfl
  | none =>
      have hshown := htruthful.shows hreader
      rw [htodo, todoShows_nil, DeviceState.isMonitoring, hactivity] at hshown
      cases hshown

theorem busy_of_no_duties {s : System} (hbalanced : s.Balanced) {device : DeviceId}
    (hplace : (s.workers device).place ≠ .exited) (hqueue : s.queues device = [])
    (hduties : (s.workers device).duties = []) : (s.store.devices device).busy = false := by
  have hfits := hbalanced.fits device hplace
  rw [hqueue, hduties] at hfits
  have hlive : live s.store s.enqueued device = [] :=
    List.map_eq_nil_iff.mp hfits.perm.eq_nil
  have hoccupancy := hfits.occupancy
  rw [hlive] at hoccupancy
  generalize hactions : ([] : List Job).map (·.action) = actions at hoccupancy
  cases hoccupancy with
  | idle hbusy => exact hbusy
  | exclusive => cases hactions
  | streams _ hne => exact absurd hactions.symm hne

/-- The condition is exact: a pass that is not careful loses the monitor and only reports it. -/
theorem monitor_lost {host : Host} {s : System} (hbalanced : s.Balanced) {device : DeviceId}
    {i : Inputs} (hknown : (s.runtimes.lookup device).isSome = true)
    (htodo : (s.workers device).todo = []) (hcareless : s.careful (.work device i) = false) :
    ((s.work host device i).workers device).place = .head ∧
    ((s.work host device i).workers device).reader = none ∧
    (∀ instr ∈ ((s.work host device i).workers device).todo, ∃ kind data,
      instr = .emit kind data) ∧
    (s.work host device i).queues device = [] ∧
    ((s.work host device i).store.devices device).busy = false ∧
    ((s.work host device i).store.devices device).isMonitoring = true := by
  simp only [careful, drops, Bool.not_eq_false', Bool.and_eq_true, decide_eq_true_eq,
    List.isEmpty_iff] at hcareless
  obtain ⟨⟨⟨⟨⟨hplace, hqueue⟩, hreader⟩, hfails⟩, hduties⟩, hshown⟩ := hcareless
  obtain ⟨e, htick⟩ := Duplex.fails_iff.mp hfails
  have hbusy : (s.store.devices device).busy = false := by
    apply busy_of_no_duties hbalanced _ hqueue
    · rw [Worker.duties, Worker.duplexDuties, htodo, hduties]
      rfl
    · rw [hplace]
      decide
  have hdone : ((s.workers device).duplex.abort e.displayChain).2 = [] := by
    have hdischarges := (Duplex.abort_conserves (s.workers device).duplex e.displayChain).1
    rw [hduties] at hdischarges
    exact List.map_eq_nil_iff.mp hdischarges
  have hwork : s.work host device i = s.setWorker device
      { (s.workers device).idle host (s.reopensAfterBootEntry device) i with place := .head } := by
    simp [work, pass, htodo, hplace, hqueue, Option.isSome_iff_ne_none.mp hknown]
  rw [hwork]
  simp only [setWorker, Function.update_self, Worker.idle, if_pos hreader, htick, hdone]
  refine ⟨trivial, rfl, fun instr hinstr => ?_, hqueue, hbusy, hshown⟩
  rw [finishInstr, List.isEmpty_nil, if_pos rfl, List.nil_append] at hinstr
  split_ifs at hinstr
  · exact ⟨_, _, List.mem_singleton.mp hinstr⟩
  · cases hinstr

/-- A backend that opens the device, and a stream that neither takes nor delivers a byte. -/
def stalled (tickClock : Clock) : Inputs where
  refresh := .ok monitored
  openDevice := .ok ()
  intoMonitor := .ok ()
  board := .ok .null
  progress := []
  createArtifact := .ok ()
  inspectArtifact := .error (.msg "no artifact")
  read := .error ⟨.wouldBlock, "would block"⟩
  driver := { write := fun _ => .error ⟨.wouldBlock, "would block"⟩, write_le := by simp }
  nonce := 1
  startClock _ := 0
  tickClock := tickClock
  feedClock _ := 0
  now := 0
  later := 0
  hostTime _ := 0

/-- The worker carries the monitor out and returns to the head of its loop. -/
def openSteps : List Step :=
  monitorSteps ++ List.replicate 6 (.work "dev-1" (stalled fun _ => 0))

theorem monitoring_truthful_monitor :
    (((System.init "1-1" [("dev-1", monitored)]).run bareHost openSteps).workers
      "dev-1").reader.isSome = true :=
  monitoring_truthful bareHost "1-1" _ openSteps (by decide) (by decide +kernel) "dev-1"
    (by decide +kernel) (by decide +kernel) (by decide +kernel) (by decide +kernel)
    (by decide +kernel)

/-- A negotiation whose request expires after 100 ms, while its frame is still unwritten. In
the next pass the frame is late as well. -/
def lostSteps : List Step :=
  .submit ⟨"dev-1", 115200, true⟩ (.application none 100) ⟨"key-1", "f1"⟩ ::
    List.replicate 8 (.advance 0 (.answer (.ok monitored))) ++
    List.replicate 7 (.work "dev-1" (stalled fun _ => 0)) ++
    [.work "dev-1" (stalled fun n => if n = 0 then 99 else 100)] ++
    List.replicate 4 (.work "dev-1" (stalled fun _ => 150))

theorem lost_stream_shows_monitor :
    ¬ MonitoringTruthful
      ((System.init "1-1" [("dev-1", monitored)]).run bareHost lostSteps) "dev-1" := by
  decide +kernel

end System
end IdfRemote
