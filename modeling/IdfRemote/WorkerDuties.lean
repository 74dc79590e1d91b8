import IdfRemote.Worker
import IdfRemote.DuplexCompletion

/-!
# What a worker still has to complete

A job that a worker takes becomes a duty: the completion it will record, on a lane
for a stream action and without one for any other. A pass moves its duties between
the scheduler and the instructions and loses none.
-/
namespace IdfRemote
open Duplex

/-- The identifier of an operation, and its lane if it is one of a stream action. -/
abbrev Duty := String × Option Lane

def streamDuty (d : String × Lane) : Duty := (d.1, some d.2)

def Job.duty (job : Job) : Duty :=
  (job.id, if job.action.isStream then some job.action.lane else none)

def Instr.duties : Instr → List Duty
  | .finishStream done _ => (Completion.discharges done).map streamDuty
  | .finishExclusive id .. => [(id, none)]
  | _ => []

def todoDuties (todo : List Instr) : List Duty := todo.flatMap Instr.duties

@[simp] theorem todoDuties_nil : todoDuties [] = [] := rfl

@[simp] theorem todoDuties_cons (instr : Instr) (todo : List Instr) :
    todoDuties (instr :: todo) = instr.duties ++ todoDuties todo := List.flatMap_cons

@[simp] theorem todoDuties_append (todo todo' : List Instr) :
    todoDuties (todo ++ todo') = todoDuties todo ++ todoDuties todo' := List.flatMap_append

@[simp] theorem todoDuties_finishInstr (done : List Completion) (hasReader : Bool) :
    todoDuties (finishInstr done hasReader) = (Completion.discharges done).map streamDuty := by
  unfold finishInstr
  split_ifs with hdone
  · rw [List.isEmpty_iff.mp hdone]
    rfl
  · simp [Instr.duties]

theorem todoDuties_map {α : Type} {f : α → Instr} (hf : ∀ x, (f x).duties = []) (xs : List α) :
    todoDuties (xs.map f) = [] := by
  induction xs with
  | nil => rfl
  | cons x xs ih => rw [List.map_cons, todoDuties_cons, hf, ih, List.append_nil]

theorem todoDuties_ite {c : Prop} [Decidable c] {kind : String} {data : Value} :
    todoDuties (if c then [.emit kind data] else []) = [] := by
  split_ifs <;> rfl

theorem ensureAvailable_duties (i : Inputs) : todoDuties i.ensureAvailable.1 = [] := by
  unfold Inputs.ensureAvailable
  split <;> rfl

namespace Worker

def duplexDuties (d : Duplex) : List Duty := d.duties.map streamDuty

def duties (w : Worker) : List Duty := todoDuties w.todo ++ duplexDuties w.duplex

theorem duplexDuties_abort (d : Duplex) (text : String) :
    (Completion.discharges (d.abort text).2).map streamDuty = duplexDuties d ∧
      duplexDuties (d.abort text).1 = [] := by
  obtain ⟨hdone, hheld⟩ := abort_conserves d text
  constructor
  · rw [hdone]
    rfl
  · rw [duplexDuties, hheld]
    rfl

theorem abandon_duties {w : Worker} (htodo : w.todo = []) : w.abandon.duties = w.duties := by
  unfold abandon
  split
  · obtain ⟨hdone, hheld⟩ :=
      duplexDuties_abort w.duplex "transport closed; outcome unknown (not retried)"
    simp only [duties, todoDuties_append, todoDuties_finishInstr, todoDuties_ite, htodo, hdone,
      hheld, todoDuties_nil, List.append_nil, List.nil_append]
  · rfl

theorem lose_duties (w : Worker) (text : String) (i : Inputs) (todo : List Instr) :
    (w.lose text i todo).duties = todoDuties todo ++ duplexDuties w.duplex := by
  unfold lose
  split
  · rfl
  · simp [duties, Instr.duties]

theorem deliver_duties (host : Host) (w : Worker) (bytes : List UInt8) (reopens : Bool)
    (i : Inputs) (todo : List Instr) :
    (w.deliver host bytes reopens i todo).duties = todoDuties todo ++ duplexDuties w.duplex := by
  have houtput : ∀ outputs : List Application.Output,
      todoDuties (outputs.map Instr.output) = [] := todoDuties_map fun _ => rfl
  have hfeed := feed_conserves host.serde w.duplex bytes i.feedClock
  unfold deliver
  dsimp only
  split_ifs
  · split
    · next duplex outputs done hcall =>
      rw [hcall] at hfeed
      rcases hfeed with ⟨e, he, -⟩ | ⟨done', hdone, hduties⟩
      · cases he
      · cases hdone
        simp only [duties, todoDuties_append, houtput, todoDuties_finishInstr, duplexDuties,
          hduties, List.map_append, List.append_assoc]
        split <;> simp [todoDuties_ite]
    · next duplex outputs e hcall =>
      rw [hcall] at hfeed
      rcases hfeed with ⟨e', -, hduties⟩ | ⟨done, hdone, -⟩
      · obtain ⟨hdone, hheld⟩ := duplexDuties_abort duplex e.displayChain
        simp only [duties, todoDuties_append, houtput, todoDuties_finishInstr, hdone, hheld]
        simp [Instr.duties, duplexDuties, hduties]
      · cases hdone
  · simp [duties, Instr.duties]

theorem readStream_duties (host : Host) (w : Worker) (reopens : Bool) (i : Inputs)
    (todo : List Instr) :
    (w.readStream host reopens i todo).duties = todoDuties todo ++ duplexDuties w.duplex := by
  unfold readStream
  split
  · exact lose_duties ..
  · exact deliver_duties ..
  · split_ifs
    · rfl
    · exact lose_duties ..

theorem reopen_duties {w : Worker} (i : Inputs) (htodo : w.todo = []) :
    (w.reopen i).duties = duplexDuties w.duplex := by
  have hfound := ensureAvailable_duties i
  unfold reopen
  split
  · simp [duties, htodo]
  · split_ifs
    · dsimp only
      split
      · simp [duties, hfound, Instr.duties, openStream]
      · simp [duties, hfound]
    · simp [duties, htodo]

theorem attend_duties (host : Host) {w : Worker} (reopens : Bool) (i : Inputs)
    (todo : List Instr) (hw : w.todo = []) (htodo : w.reader.isNone → todo = []) :
    (w.attend host reopens i todo).duties = todoDuties todo ++ duplexDuties w.duplex := by
  unfold attend
  split_ifs with hboot hreader
  · exact lose_duties ..
  · exact readStream_duties ..
  · rw [htodo (by simpa using hreader), reopen_duties i hw]
    rfl

theorem idle_duties (host : Host) {w : Worker} (reopens : Bool) (i : Inputs)
    (htodo : w.todo = []) : (w.idle host reopens i).duties.Perm w.duties := by
  have hduties : w.duties = duplexDuties w.duplex := by
    rw [duties, htodo]
    rfl
  have htick := tick_conserves w.duplex i.tickClock i.driver
  rw [hduties]
  unfold idle
  split_ifs with hreader
  · split
    · next duplex done hcall =>
      rw [hcall] at htick
      rcases htick with ⟨e, he, -⟩ | ⟨done', hdone, hperm⟩
      · cases he
      · cases hdone
        have hattend := attend_duties host (w := { w with duplex := duplex }) reopens i
          (finishInstr done true) htodo fun hnone => by
            rw [Option.isNone_iff_eq_none.mp hnone] at hreader
            cases hreader
        rw [hattend]
        have hmap := hperm.map streamDuty
        rw [List.map_append] at hmap
        simpa [duplexDuties] using hmap.symm
    · next duplex e hcall =>
      rw [hcall] at htick
      rcases htick with ⟨e', -, hsame⟩ | ⟨done, hdone, -⟩
      · obtain ⟨hdone, hheld⟩ := duplexDuties_abort duplex e.displayChain
        apply List.Perm.of_eq
        simp only [duties, todoDuties_append, todoDuties_finishInstr, hdone, hheld,
          todoDuties_ite, List.append_nil]
        rw [show duplex = w.duplex from hsame]
      · cases hdone
  · rw [attend_duties host reopens i [] htodo fun _ => rfl]
    rfl

theorem attach_keeps (w : Worker) (job : Job) (i : Inputs) :
    (w.attach job i).1.duplex = w.duplex ∧ (w.attach job i).1.todo = w.todo ∧
      todoDuties (w.attach job i).2.1 = [] := by
  have hfound := ensureAvailable_duties i
  unfold attach
  dsimp only
  split_ifs
  · exact ⟨rfl, rfl, rfl⟩
  · exact ⟨rfl, rfl, rfl⟩
  · exact ⟨rfl, rfl, rfl⟩
  · split
    · exact ⟨rfl, rfl, hfound⟩
    · split <;> exact ⟨rfl, rfl, hfound⟩
  · exact ⟨rfl, rfl, rfl⟩

theorem refuse_duties (w : Worker) {job : Job} (hstream : job.action.isStream = true)
    {found : List Instr} (hfound : todoDuties found = []) (e : Error) :
    (w.refuse job found e).duties = job.duty :: duplexDuties w.duplex := by
  simp [refuse, duties, hfound, Instr.duties, Job.duty, hstream, streamDuty]

theorem duplexDuties_start (serde : Serde) (d : Duplex) (call : Call)
    (hcall : d.completions serde call = []) :
    (duplexDuties (d.after serde call)).Perm
      ((d.started serde call).map streamDuty ++ duplexDuties d) := by
  have hperm := (call_conserves serde d call).map streamDuty
  rw [hcall, List.map_append] at hperm
  exact hperm.symm.trans List.perm_append_comm

theorem startStream_duties (serde : Serde) (w : Worker) {job : Job}
    (hstream : job.action.isStream = true) (i : Inputs) :
    (∃ e, (w.startStream serde job i).2 = .error e ∧
      (duplexDuties (w.startStream serde job i).1.duplex).Perm (duplexDuties w.duplex)) ∨
    (w.startStream serde job i).2 = .ok () ∧
      (duplexDuties (w.startStream serde job i).1.duplex).Perm
        (job.duty :: duplexDuties w.duplex) := by
  have hduty : job.duty = streamDuty (job.id, job.action.lane) := by
    rw [Job.duty, if_pos hstream]
    rfl
  rw [hduty]
  cases haction : job.action with
  | application command timeoutMs =>
      have hcall := duplexDuties_start serde w.duplex
        (.startApplication job.id command timeoutMs i.nonce i.startClock) rfl
      simp only [startStream, haction, started, Duplex.after] at hcall ⊢
      cases hresult : (w.duplex.startApplication serde job.id command timeoutMs i.startClock
          i.nonce).2 with
      | error e =>
          rw [hresult] at hcall
          exact .inl ⟨e, rfl, hcall⟩
      | ok u =>
          rw [hresult] at hcall
          exact .inr ⟨rfl, hcall⟩
  | serialWrite data sha256 baud timeoutMs =>
      have hcall := duplexDuties_start serde w.duplex
        (.startInput job.id data timeoutMs (.object [("written", natValue data.length),
          ("sha256", .string sha256), ("baud", natValue baud)]) i.startClock) rfl
      simp only [startStream, haction, started, Duplex.after] at hcall ⊢
      cases hresult : (w.duplex.startInput job.id data timeoutMs (.object
          [("written", natValue data.length), ("sha256", .string sha256), ("baud", natValue baud)])
          i.startClock).2 with
      | error e =>
          rw [hresult] at hcall
          exact .inl ⟨e, rfl, hcall⟩
      | ok u =>
          rw [hresult] at hcall
          exact .inr ⟨rfl, hcall⟩
  | _ =>
      rw [haction] at hstream
      cases hstream

theorem stream_duties (serde : Serde) (w : Worker) {job : Job}
    (hstream : job.action.isStream = true) (i : Inputs) :
    (w.stream serde job i).duties.Perm (job.duty :: duplexDuties w.duplex) := by
  obtain ⟨hduplex, -, hfound⟩ := attach_keeps w job i
  unfold stream
  split
  · next attached found e hattach =>
    rw [hattach] at hduplex hfound
    rw [refuse_duties attached hstream hfound, show attached.duplex = w.duplex from hduplex]
  · next attached found hattach =>
    rw [hattach] at hduplex hfound
    have hstart := startStream_duties serde attached hstream i
    rw [show attached.duplex = w.duplex from hduplex] at hstart
    split
    · next started e hresult =>
      rw [hresult] at hstart
      rcases hstart with ⟨e', -, hperm⟩ | ⟨hok, -⟩
      · rw [refuse_duties started hstream hfound]
        exact hperm.cons _
      · cases hok
    · next started hresult =>
      rw [hresult] at hstart
      rcases hstart with ⟨e', he, -⟩ | ⟨-, hperm⟩
      · cases he
      · simpa [duties, show todoDuties found = [] from hfound] using hperm

theorem perform_duties (host : Host) (job : Job) (i : Inputs) :
    todoDuties (perform host job i).1 = [] := by
  have hemit : ∀ (kind : String) (values : List Value),
      todoDuties (values.map (Instr.emit kind)) = [] := fun _ => todoDuties_map fun _ => rfl
  unfold perform
  split
  · rfl
  · rw [todoDuties_append, hemit, hemit, List.append_nil]
  · rfl
  · exact hemit _ _
  all_goals rfl

theorem operate_keeps (host : Host) (w : Worker) (job : Job) (i : Inputs) :
    (w.operate host job i).1.duplex = w.duplex ∧
      todoDuties (w.operate host job i).2.1 = [] := by
  have hevents := perform_duties host job i
  unfold operate
  split
  · exact ⟨rfl, rfl⟩
  · split
    · next events e hperform =>
      rw [hperform] at hevents
      exact ⟨rfl, hevents⟩
    · next events outcome hperform =>
      rw [hperform] at hevents
      split_ifs
      · split <;> exact ⟨rfl, hevents⟩
      · exact ⟨rfl, hevents⟩

theorem hardware_keeps (host : Host) (w : Worker) (job : Job) (i : Inputs) :
    (w.hardware host job i).1.duplex = w.duplex ∧
      todoDuties (w.hardware host job i).2.1 = [] := by
  obtain ⟨hduplex, hevents⟩ := operate_keeps host w job i
  have hready : ∀ attached, todoDuties (w.ready attached job i).1 = [] := by
    intro attached
    unfold ready
    split_ifs
    · rfl
    · exact ensureAvailable_duties i
  unfold hardware
  dsimp only
  split
  · next found e hcall =>
    exact ⟨rfl, by rw [← hready, hcall]⟩
  · next found hcall =>
    have hfound : todoDuties found = [] := by rw [← hready, hcall]
    split_ifs
    · exact ⟨rfl, hfound⟩
    · exact ⟨rfl, hfound⟩
    · exact ⟨hduplex, by rw [todoDuties_append, hfound, hevents, List.append_nil]⟩

theorem exclusive_duties (host : Host) (w : Worker) {job : Job}
    (hstream : job.action.isStream = false) (i : Inputs) :
    (w.exclusive host job i).duties = job.duty :: duplexDuties w.duplex := by
  have hduty : job.duty = (job.id, none) := by simp [Job.duty, hstream]
  unfold exclusive
  dsimp only
  simp only [duties, todoDuties_append, todoDuties_ite, (hardware_keeps host _ job i).1,
    (hardware_keeps host _ job i).2, hduty]
  split_ifs <;> rfl

theorem serve_duties (host : Host) (w : Worker) (job : Job) (i : Inputs) :
    (w.serve host job i).duties.Perm (job.duty :: duplexDuties w.duplex) := by
  unfold serve
  split_ifs with hstream
  · exact stream_duties host.serde w hstream i
  · exact .of_eq (exclusive_duties host w (by simpa using hstream) i)

end Worker
end IdfRemote
