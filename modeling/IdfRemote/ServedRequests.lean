import IdfRemote.FirmwareSessions
import IdfRemote.TruncatedFrames

/-!
# From the receiver to the handler

A request goes from the receiver through its queue to the command task, which drops it
when its session is over and hands it to the handler otherwise. So what is served is, in
order, a part of what was received.
-/
namespace IdfRemote.Firmware
open Interleaving MuxAgreement MuxCodec StreamMachine
open Mux (Decoder Frame framesOf framesOf_append)

/-- What the receiver reads in a turn. -/
def RxTask.reads (i : Inputs) (t : RxTask) : List UInt8 :=
  match t.place, t.bytes with
  | .feed, [] => i.read.take 256
  | _, _ => []

/-- The request that the command task serves in a turn. -/
def CommandTask.serves (i : Inputs) : CommandTask → List (MuxFrame × Inputs)
  | .serve frame => [(frame, i)]
  | _ => []

def reads (i : Inputs) : (task : Task) → task.Own → List UInt8
  | .rx => RxTask.reads i
  | _ => fun _ => []

def serves (i : Inputs) : (task : Task) → task.Own → List (MuxFrame × Inputs)
  | .command => CommandTask.serves i
  | _ => fun _ => []

/-- A frame that the receiver has decoded and not passed on yet. -/
def RxTask.held (t : RxTask) : List MuxFrame :=
  match t.place with
  | .current | .request => [t.frame]
  | _ => []

def CommandTask.held : CommandTask → List MuxFrame
  | .check frame | .serve frame => [frame]
  | _ => []

/-- The receiver has decoded these bytes, and these frames have got past it. -/
structure RxTask.Hears (t : RxTask) (consumed read : List UInt8) (passed : List MuxFrame) :
    Prop where
  read : read = consumed ++ t.bytes
  decoder : Matches (Decoder.machine.run {} consumed).1 t.decoder
  frames : ((passed ++ t.held).map hostFrame).Sublist
    (framesOf (Decoder.machine.run {} consumed).2)
  request : t.place = .request → t.frame.kind = muxRequest

theorem framesOf_eventsOf (decoded : ℤ) (b : UInt8) (f : MuxFrame) :
    framesOf (eventsOf decoded b f) = if decoded = 1 then [hostFrame f] else [] := by
  unfold eventsOf
  split_ifs <;> rfl

theorem RxTask.Hears.feed {t : RxTask} {consumed read : List UInt8} {passed : List MuxFrame}
    (h : t.Hears consumed read passed) (hplace : t.place = .feed) {b : UInt8} {bytes : List UInt8}
    (hbytes : t.bytes = b :: bytes) :
    ∃ decoded decoder frame, muxFeed t.decoder b t.frame = some (decoded, decoder, frame) ∧
      RxTask.Hears
        { decoder := decoder, frame := frame, bytes := bytes, place := placeOf decoded b frame }
        (consumed ++ [b]) read passed := by
  have hwf := Decoder.wellFormed_run consumed Decoder.wellFormed_default
  obtain ⟨⟨c, f⟩, hstep, hmatch, -⟩ :=
    firmware_refines.step (s := (Decoder.machine.run {} consumed).1) (t := (t.decoder, t.frame)) b
      ⟨h.decoder, hwf⟩
  obtain ⟨⟨decoded, decoder, frame⟩, hfeed, hsame⟩ := Option.map_eq_some_iff.mp hstep
  obtain ⟨hstate, hevents⟩ := Prod.mk.inj hsame
  obtain ⟨rfl, rfl⟩ := Prod.mk.inj hstate
  have hframes := h.frames
  rw [show t.held = [] by rw [held, hplace], List.append_nil] at hframes
  refine ⟨decoded, decoder, frame, hfeed, ?_, ?_, ?_, ?_⟩
  · rw [h.read, hbytes, List.append_assoc]
    rfl
  · rw [Machine.run_append]
    simpa using hmatch
  · rw [Machine.run_append, framesOf_append, Machine.run_singleton, ← hevents,
      framesOf_eventsOf, List.map_append]
    refine hframes.append ?_
    unfold held placeOf
    dsimp only
    split_ifs <;> simp_all
  · intro hrequest
    unfold placeOf at hrequest
    dsimp only at hrequest
    split_ifs at hrequest

theorem RxTask.Hears.of_held {t u : RxTask} {consumed read : List UInt8} {passed : List MuxFrame}
    (h : t.Hears consumed read passed) (hbytes : u.bytes = t.bytes)
    (hdecoder : u.decoder = t.decoder) (hheld : u.held = []) : u.Hears consumed read passed where
  read := hbytes ▸ h.read
  decoder := hdecoder ▸ h.decoder
  frames := by
    rw [hheld, List.append_nil]
    exact List.Sublist.trans ((List.sublist_append_left ..).map _) h.frames
  request hrequest := by
    rw [held, hrequest] at hheld
    cases hheld

@[simp] theorem countDrop_requestQueue (s : Shared) (control : Bool) :
    (countDrop s control).requestQueue = s.requestQueue := by
  cases control <;> rfl

@[simp] theorem Enqueue.turn_requestQueue (s : Shared) (call : Enqueue) :
    (call.turn s).1.requestQueue = s.requestQueue := by
  cases call with
  | send frame =>
      unfold turn
      dsimp only
      split <;> rfl
  | drop => exact countDrop_requestQueue s true
  | give => rfl

/-- What a turn of the receiver does to the requests. -/
theorem RxTask.turn_hears (config : Config) (i : Inputs) (s : Shared) {t : RxTask}
    {consumed read : List UInt8} {passed : List MuxFrame} (h : t.Hears consumed read passed) :
    ∃ consumed' more, (turn config i s t).shared.requestQueue = s.requestQueue ++ more ∧
      (∀ f ∈ more, f.kind = muxRequest) ∧
      (turn config i s t).own.Hears consumed' (read ++ t.reads i) (passed ++ more) := by
  -- Most turns read nothing, decode nothing and end with nothing at hand.
  have hquiet : ∀ (queue : List MuxFrame) (own : RxTask), queue = s.requestQueue →
      own.bytes = t.bytes → own.decoder = t.decoder → own.held = [] →
      ∃ consumed' more, queue = s.requestQueue ++ more ∧ (∀ f ∈ more, f.kind = muxRequest) ∧
        own.Hears consumed' (read ++ []) (passed ++ more) := by
    intro queue own hqueue hbytes hdecoder hheld
    refine ⟨consumed, [], by rw [hqueue, List.append_nil], by simp, ?_⟩
    rw [List.append_nil, List.append_nil]
    exact h.of_held hbytes hdecoder hheld
  obtain ⟨decoder, frame, bytes, place⟩ := t
  cases place with
  | feed =>
      cases bytes with
      | nil =>
          have hread := h.read
          rw [List.append_nil] at hread
          refine ⟨consumed, [], (List.append_nil _).symm, by simp, ?_, h.decoder, ?_,
            fun hrequest => by cases hrequest⟩
          · rw [hread]
            rfl
          · rw [List.append_nil passed]
            exact h.frames
      | cons b bytes =>
          obtain ⟨decoded, decoder', frame', hfeed, hnext⟩ := h.feed rfl rfl
          refine ⟨consumed ++ [b], [], (List.append_nil _).symm, by simp, ?_⟩
          unfold turn
          dsimp only at hfeed ⊢
          rw [hfeed, List.append_nil, show reads i _ = [] from rfl, List.append_nil]
          exact hnext
  | unframed b =>
      unfold turn
      dsimp only
      split_ifs <;> exact hquiet _ _ rfl rfl rfl rfl
  | reset =>
      unfold turn
      dsimp only
      split <;> exact hquiet _ _ rfl rfl rfl rfl
  | current =>
      unfold turn dispatch
      dsimp only
      split_ifs with hsession hinput hrequest
      · exact hquiet _ _ rfl rfl rfl rfl
      · refine ⟨consumed, [], (List.append_nil _).symm, by simp, ?_⟩
        rw [List.append_nil, show reads i _ = [] from rfl, List.append_nil]
        exact ⟨h.read, h.decoder, h.frames, fun _ => hrequest.1⟩
      · exact hquiet _ _ rfl rfl rfl rfl
      · exact hquiet _ _ rfl rfl rfl rfl
  | input payload =>
      cases payload with
      | nil => exact hquiet _ _ rfl rfl rfl rfl
      | cons b payload =>
          unfold turn
          dsimp only
          split <;> exact hquiet _ _ rfl rfl rfl rfl
  | request =>
      unfold turn
      dsimp only
      cases hsend : queueSend requestCapacity s.requestQueue frame with
      | some queue =>
          have hqueue : queue = s.requestQueue ++ [frame] := by
            unfold queueSend at hsend
            split_ifs at hsend
            exact (Option.some.inj hsend).symm
          refine ⟨consumed, [frame], hqueue, by simpa using h.request rfl, ?_⟩
          rw [show reads i _ = [] from rfl, List.append_nil]
          refine ⟨h.read, h.decoder, ?_, fun hrequest => by cases hrequest⟩
          rw [show held _ = [] from rfl, List.append_nil]
          exact h.frames
      | none =>
          dsimp only
          split <;> exact hquiet _ _ rfl rfl rfl rfl
  | enqueue call =>
      unfold turn
      dsimp only
      split <;> exact hquiet _ _ (Enqueue.turn_requestQueue s call) rfl rfl rfl
  | _ => exact hquiet _ _ rfl rfl rfl rfl

/-- The command task takes the next request, drops it or serves it. -/
theorem CommandTask.turn_passes (i : Inputs) (s : Shared) (t : CommandTask) :
    ((t.serves i).map Prod.fst ++ (turn i s t).own.held ++
      (turn i s t).shared.requestQueue).Sublist (t.held ++ s.requestQueue) := by
  cases t with
  | receive =>
      unfold turn
      dsimp only
      split <;> simp [serves, held, *]
  | check frame =>
      unfold turn
      dsimp only
      split_ifs <;> simp [serves, held]
  | serve frame =>
      unfold turn
      dsimp only
      split <;> simp [serves, held]
  | enqueue call =>
      unfold turn
      dsimp only
      rw [Enqueue.turn_requestQueue]
      split <;> simp [serves, held]
  | lost => exact List.Sublist.refl _

theorem turn_requestQueue (config : Config) {task : Task} (hrx : task ≠ .rx)
    (hcommand : task ≠ .command) (i : Inputs) (s : Shared) (t : task.Own) :
    (turn config task i s t).shared.requestQueue = s.requestQueue := by
  cases task with
  | rx => exact absurd rfl hrx
  | command => exact absurd rfl hcommand
  | tx =>
      obtain ⟨frame, wire, place⟩ := t
      dsimp only [turn]
      unfold TxTask.turn TxTask.encode
      cases place with
      | receive =>
          dsimp only
          split <;> rfl
      | console =>
          dsimp only
          split <;> rfl
      | wait =>
          dsimp only
          split_ifs <;> rfl
      | send session =>
          dsimp only
          split_ifs
          · rfl
          · split <;> rfl
          · rfl
          · split <;> rfl
      | transmit bytes control sent =>
          dsimp only
          split_ifs <;> rfl
      | drop control => exact countDrop_requestQueue s control
      | _ => rfl
  | publisher n =>
      dsimp only [turn]
      cases t with
      | enqueue call => exact Enqueue.turn_requestQueue s call
      | _ => rfl
  | writer n =>
      obtain ⟨bytes, chunk, place⟩ := t
      dsimp only [turn]
      cases place with
      | send =>
          unfold Writer.turn
          dsimp only
          split <;> rfl
      | _ => rfl
  | reader n =>
      dsimp only [turn]
      unfold Reader.turn
      cases t with
      | idle returned => rfl
      | first size =>
          dsimp only
          split <;> rfl
      | more size bytes =>
          dsimp only
          split_ifs
          · split <;> rfl
          · rfl

abbrev Board := World Shared Label Task.Own

/-- What has been served, is at hand or waits was received in this order. -/
structure Pipeline (read : List UInt8) (served : List (MuxFrame × Inputs)) (w : Board) : Prop where
  heard : ∃ consumed, RxTask.Hears (w.own .rx) consumed read
    (served.map Prod.fst ++ CommandTask.held (w.own .command) ++ w.scene.shared.requestQueue)
  kind : ∀ f ∈ served.map Prod.fst ++ CommandTask.held (w.own .command) ++
    w.scene.shared.requestQueue, f.kind = muxRequest

theorem RxTask.Hears.sublist {t : RxTask} {consumed read : List UInt8}
    {passed passed' : List MuxFrame} (h : t.Hears consumed read passed)
    (hsub : passed'.Sublist passed) : t.Hears consumed read passed' :=
  { h with frames := ((hsub.append_right _).map _).trans h.frames }

theorem Pipeline.next {read : List UInt8} {served : List (MuxFrame × Inputs)} {w : Board}
    (h : Pipeline read served w) (config : Config) (task : Task) (i : Inputs) :
    Pipeline (read ++ reads i task (w.own task)) (served ++ serves i task (w.own task))
      (w.next (turn config) (task, i)) := by
  obtain ⟨consumed, hheard⟩ := h.heard
  by_cases hrx : task = .rx
  · subst hrx
    obtain ⟨consumed', more, hqueue, hmore, hnext⟩ :=
      RxTask.turn_hears config i w.scene.shared hheard
    have hcommand : (w.next (turn config) (.rx, i)).own .command = w.own .command :=
      World.own_next_of_ne _ w (by decide : Task.command ≠ Task.rx)
    have hpassed : (served ++ serves i .rx (w.own .rx)).map Prod.fst ++
        CommandTask.held ((w.next (turn config) (.rx, i)).own .command) ++
        (w.next (turn config) (.rx, i)).scene.shared.requestQueue =
          served.map Prod.fst ++ CommandTask.held (w.own .command) ++
            w.scene.shared.requestQueue ++ more := by
      rw [hcommand, show serves i .rx (w.own .rx) = [] from rfl, List.append_nil]
      rw [List.append_assoc _ _ more, ← hqueue]
      rfl
    constructor
    · rw [hpassed]
      refine ⟨consumed', ?_⟩
      rw [World.own_next_self]
      exact hnext
    · rw [hpassed]
      exact List.forall_mem_append.mpr ⟨h.kind, hmore⟩
  · have hsame : (w.next (turn config) (task, i)).own .rx = w.own .rx :=
      World.own_next_of_ne _ w (Ne.symm hrx)
    have hreads : reads i task (w.own task) = [] := by
      cases task with
      | rx => exact absurd rfl hrx
      | _ => rfl
    have hsub : ((served ++ serves i task (w.own task)).map Prod.fst ++
        CommandTask.held ((w.next (turn config) (task, i)).own .command) ++
        (w.next (turn config) (task, i)).scene.shared.requestQueue).Sublist
          (served.map Prod.fst ++ CommandTask.held (w.own .command) ++
            w.scene.shared.requestQueue) := by
      rw [List.map_append, List.append_assoc, List.append_assoc, List.append_assoc]
      refine List.Sublist.append_left ?_ _
      by_cases hcommand : task = .command
      · subst hcommand
        rw [World.own_next_self, ← List.append_assoc]
        exact CommandTask.turn_passes i w.scene.shared (w.own .command)
      · rw [World.own_next_of_ne _ w (Ne.symm hcommand)]
        have hqueue := turn_requestQueue config hrx hcommand i w.scene.shared (w.own task)
        have hserves : serves i task (w.own task) = [] := by
          cases task with
          | command => exact absurd rfl hcommand
          | _ => rfl
        rw [hserves, World.next, Scene.after]
        dsimp only
        rw [hqueue]
        exact List.Sublist.refl _
    rw [hreads, List.append_nil]
    constructor
    · rw [hsame]
      exact ⟨consumed, hheard.sublist hsub⟩
    · exact fun f hf => h.kind f (hsub.subset hf)

end IdfRemote.Firmware
