import IdfRemote.Worker

/-!
# The instructions that a worker leaves

What a pass leaves for the sections behind it comes from a job, from a read of the stream,
or from its loss. A property that holds of all instructions from one of these sources
holds of every instruction of a pass that has met no other source.
-/
namespace IdfRemote

/-- The kinds of events that a worker emits. -/
def workerKinds : List String :=
  ["progress", "flash_verified", "flash_erased", "application_connected",
    "application_disconnected"]

/-- `P` holds of completed stream actions, of events and of what a refresh has found. -/
structure LeftByWorkers (P : Instr → Prop) : Prop where
  finishStream : ∀ done hasReader, P (.finishStream done hasReader)
  emit : ∀ kind ∈ workerKinds, ∀ data, P (.emit kind data)
  describe : ∀ descriptor, P (.describe descriptor)
  setAvailability : ∀ availability, P (.setAvailability availability)

structure LeftByJobs (P : Instr → Prop) : Prop extends LeftByWorkers P where
  finishExclusive : ∀ id result artifact hasReader,
    P (.finishExclusive id result artifact hasReader)

structure LeftByLosses (P : Instr → Prop) : Prop extends LeftByWorkers P where
  beginMonitorReconnect : ∀ baud text, P (.beginMonitorReconnect baud text)
  finishMonitorReconnect : ∀ baud attempts, P (.finishMonitorReconnect baud attempts)

structure LeftByReads (P : Instr → Prop) : Prop extends LeftByLosses P where
  output : ∀ output, P (.output output)
  raw : ∀ bytes reopens deadline, P (.raw bytes reopens deadline)

section
variable {P : Instr → Prop}

theorem forall_mem_ite {c : Prop} [Decidable c] {todo : List Instr}
    (h : ∀ instr ∈ todo, P instr) : ∀ instr ∈ if c then todo else [], P instr := by
  split_ifs
  · exact h
  · exact List.forall_mem_nil _

namespace LeftByWorkers
variable (hP : LeftByWorkers P)
include hP

theorem finishInstr (done : List Completion) (hasReader : Bool) :
    ∀ instr ∈ IdfRemote.finishInstr done hasReader, P instr :=
  forall_mem_finishInstr (hP.finishStream done hasReader)

theorem ensureAvailable (i : Inputs) : ∀ instr ∈ i.ensureAvailable.1, P instr :=
  i.forall_mem_ensureAvailable hP.describe hP.setAvailability

theorem disconnected (data : Value) :
    ∀ instr ∈ [Instr.emit "application_disconnected" data], P instr :=
  List.forall_mem_singleton.mpr (hP.emit _ (by simp [workerKinds]) data)

theorem abandon {w : Worker} (htodo : w.todo = []) : ∀ instr ∈ w.abandon.todo, P instr := by
  unfold Worker.abandon
  split
  · exact List.forall_mem_append.mpr
      ⟨hP.finishInstr _ _, forall_mem_ite (hP.disconnected _)⟩
  · rw [htodo]
    exact List.forall_mem_nil _

theorem attach (w : Worker) (job : Job) (i : Inputs) : ∀ instr ∈ (w.attach job i).2.1, P instr := by
  have hfound := hP.ensureAvailable i
  unfold Worker.attach
  dsimp only
  split_ifs
  · exact List.forall_mem_nil _
  · exact List.forall_mem_nil _
  · exact List.forall_mem_nil _
  · split
    · exact hfound
    · split <;> exact hfound
  · exact List.forall_mem_nil _

theorem stream (serde : Serde) (w : Worker) (job : Job) (i : Inputs) :
    ∀ instr ∈ (w.stream serde job i).todo, P instr := by
  have hfound := hP.attach w job i
  unfold Worker.stream
  split
  · next attached found e hattach =>
    rw [hattach] at hfound
    exact List.forall_mem_append.mpr
      ⟨hfound, List.forall_mem_singleton.mpr (hP.finishStream _ _)⟩
  · next attached found hattach =>
    rw [hattach] at hfound
    split
    · exact List.forall_mem_append.mpr
        ⟨hfound, List.forall_mem_singleton.mpr (hP.finishStream _ _)⟩
    · exact hfound

theorem perform (host : Host) (job : Job) (i : Inputs) :
    ∀ instr ∈ (Worker.perform host job i).1, P instr := by
  unfold Worker.perform
  split
  · exact List.forall_mem_nil _
  · refine List.forall_mem_append.mpr ⟨List.forall_mem_map.mpr fun _ _ => ?_,
      List.forall_mem_map.mpr fun _ _ => ?_⟩
    · exact hP.emit _ (by simp [workerKinds]) _
    · exact hP.emit _ (by simp [workerKinds]) _
  · exact List.forall_mem_nil _
  · exact List.forall_mem_map.mpr fun _ _ => hP.emit _ (by simp [workerKinds]) _
  all_goals exact List.forall_mem_nil _

theorem operate (host : Host) (w : Worker) (job : Job) (i : Inputs) :
    ∀ instr ∈ (w.operate host job i).2.1, P instr := by
  have hevents := hP.perform host job i
  unfold Worker.operate
  split
  · exact List.forall_mem_nil _
  · split
    · next events e hperform =>
      rw [hperform] at hevents
      exact hevents
    · next events outcome hperform =>
      rw [hperform] at hevents
      split_ifs
      · split <;> exact hevents
      · exact hevents

theorem hardware (host : Host) (w : Worker) (job : Job) (i : Inputs) :
    ∀ instr ∈ (w.hardware host job i).2.1, P instr := by
  have hready : ∀ attached, ∀ instr ∈ (w.ready attached job i).1, P instr := by
    intro attached
    unfold Worker.ready
    split_ifs
    · exact List.forall_mem_nil _
    · exact hP.ensureAvailable i
  unfold Worker.hardware
  dsimp only
  split
  · next found e hcall =>
    have hfound := hready (job.action.isMonitor && w.duplex.session.isSome)
    rwa [hcall] at hfound
  · next found hcall =>
    have hfound := hready (job.action.isMonitor && w.duplex.session.isSome)
    rw [hcall] at hfound
    split_ifs
    · exact hfound
    · exact hfound
    · exact List.forall_mem_append.mpr ⟨hfound, hP.operate host w job i⟩

end LeftByWorkers

theorem LeftByJobs.serve (hP : LeftByJobs P) (host : Host) (w : Worker) (job : Job) (i : Inputs) :
    ∀ instr ∈ (w.serve host job i).todo, P instr := by
  unfold Worker.serve
  split_ifs
  · exact hP.stream host.serde w job i
  · unfold Worker.exclusive
    dsimp only
    refine List.forall_mem_append.mpr ⟨List.forall_mem_append.mpr
      ⟨forall_mem_ite (hP.disconnected _), hP.hardware host _ job i⟩, ?_⟩
    exact List.forall_mem_singleton.mpr (hP.finishExclusive ..)

theorem LeftByLosses.lose (hP : LeftByLosses P) (w : Worker) (text : String) (i : Inputs)
    {todo : List Instr} (h : ∀ instr ∈ todo, P instr) :
    ∀ instr ∈ (w.lose text i todo).todo, P instr := by
  unfold Worker.lose
  split
  · exact h
  · exact List.forall_mem_append.mpr
      ⟨h, List.forall_mem_singleton.mpr (hP.beginMonitorReconnect _ _)⟩

theorem LeftByLosses.reopen (hP : LeftByLosses P) {w : Worker} (i : Inputs)
    (htodo : w.todo = []) : ∀ instr ∈ (w.reopen i).todo, P instr := by
  have hfound := hP.ensureAvailable i
  have hempty : ∀ instr ∈ w.todo, P instr := htodo ▸ List.forall_mem_nil _
  unfold Worker.reopen
  split
  · exact hempty
  · split_ifs
    · dsimp only
      split
      · exact List.forall_mem_append.mpr
          ⟨hfound, List.forall_mem_singleton.mpr (hP.finishMonitorReconnect _ _)⟩
      · exact hfound
    · exact hempty

namespace LeftByReads
variable (hP : LeftByReads P)
include hP

theorem deliver (host : Host) (w : Worker) (bytes : List UInt8) (reopens : Bool) (i : Inputs)
    {todo : List Instr} (h : ∀ instr ∈ todo, P instr) :
    ∀ instr ∈ (w.deliver host bytes reopens i todo).todo, P instr := by
  have houtputs : ∀ outputs : List Application.Output,
      ∀ instr ∈ todo ++ outputs.map Instr.output, P instr := fun outputs =>
    List.forall_mem_append.mpr ⟨h, List.forall_mem_map.mpr fun _ _ => hP.output _⟩
  unfold Worker.deliver
  dsimp only
  split_ifs
  · split
    · refine List.forall_mem_append.mpr ⟨List.forall_mem_append.mpr ⟨houtputs _, ?_⟩,
        hP.finishInstr _ _⟩
      split
      · exact forall_mem_ite (List.forall_mem_singleton.mpr
          (hP.emit _ (by simp [workerKinds]) _))
      · exact List.forall_mem_nil _
    · exact List.forall_mem_append.mpr ⟨List.forall_mem_append.mpr
        ⟨houtputs _, hP.finishInstr _ _⟩, hP.disconnected _⟩
  · exact List.forall_mem_append.mpr ⟨h, List.forall_mem_singleton.mpr (hP.raw _ _ _)⟩

theorem readStream (host : Host) (w : Worker) (reopens : Bool) (i : Inputs) {todo : List Instr}
    (h : ∀ instr ∈ todo, P instr) :
    ∀ instr ∈ (w.readStream host reopens i todo).todo, P instr := by
  unfold Worker.readStream
  split
  · exact hP.lose w _ i h
  · exact hP.deliver host w _ reopens i h
  · split_ifs
    · exact h
    · exact hP.lose _ _ i h

theorem attend (host : Host) {w : Worker} (reopens : Bool) (i : Inputs) {todo : List Instr}
    (hw : w.todo = []) (h : ∀ instr ∈ todo, P instr) :
    ∀ instr ∈ (w.attend host reopens i todo).todo, P instr := by
  unfold Worker.attend
  split_ifs
  · exact hP.lose _ _ i h
  · exact hP.readStream host w reopens i h
  · exact hP.reopen i hw

theorem idle (host : Host) {w : Worker} (reopens : Bool) (i : Inputs) (htodo : w.todo = []) :
    ∀ instr ∈ (w.idle host reopens i).todo, P instr := by
  unfold Worker.idle
  split_ifs
  · split
    · exact hP.attend host reopens i htodo (hP.finishInstr _ _)
    · exact List.forall_mem_append.mpr
        ⟨hP.finishInstr _ _, forall_mem_ite (hP.disconnected _)⟩
  · exact hP.attend host reopens i htodo (List.forall_mem_nil _)

end LeftByReads
end
end IdfRemote
