import IdfRemote.ServedRequests

/-!
# From the handler to the wire

A response is composed by the command task only. Every response in the control queue, in
a task or on record is the reply that a served request was given, and its payload is the
printed result of the handler.
-/
namespace IdfRemote.Firmware
open Interleaving MuxAgreement MuxCodec
open Mux (Frame)

theorem sendJson_ok {kind : UInt8} {session : UInt64} {request : UInt32}
    {text : Option (List UInt8)} {f : MuxFrame}
    (h : sendJson kind session request text = some (.ok f)) :
    ∃ bytes, text = some bytes ∧
      hostFrame f = { kind := kind, session := session, request := request, payload := bytes } := by
  unfold sendJson at h
  cases text with
  | none => cases h
  | some bytes =>
      dsimp only at h
      split_ifs at h with hsize
      · obtain ⟨data, hdata, hf⟩ := Option.map_eq_some_iff.mp h
        obtain ⟨data', hcopy, hholds⟩ := (CArray.holds_nil (.replicate muxMaxPayload 0)).storeLoop
          (fun i => bytes[i]?) (fun i => bytes.getD i 0) bytes.length
          (fun i hi => by rw [List.getD, List.getElem?_eq_getElem hi, Option.getD_some])
          (by simpa using hsize)
        obtain rfl : data' = data := Option.some.inj (hcopy.symm.trans hdata)
        have hbytes : (List.range bytes.length).map (fun i => bytes.getD i 0) = bytes := by
          have hall := CArray.map_range_getElem bytes 0 bytes.length (fun i => bytes.getD i 0)
            (fun i hi _ => by simp [List.getD, List.getElem?_eq_getElem (by omega : i < _)])
            (by omega)
          simpa using hall
        rw [List.nil_append, hbytes] at hholds
        cases hf
        refine ⟨bytes, rfl, ?_⟩
        rw [hostFrame, hholds.take]
      · cases h

theorem protocolError_kind {print : Value → Option (List UInt8)} {session : UInt64}
    {request : UInt32} {message : String} {f : MuxFrame}
    (h : protocolError print session request message = some (.ok f)) : f.kind = muxError := by
  obtain ⟨bytes, -, hframe⟩ := sendJson_ok h
  exact congrArg Frame.kind hframe

/-- The payload is a request, and the text is what its handler has returned. -/
def Handled (i : Inputs) (payload text : List UInt8) : Prop :=
  ∃ request method result, i.parse (payload.takeWhile (· ≠ 0)) = some request ∧
    request.get "method" = some (.string method) ∧
    i.handler method (request.get "params") = .ok result ∧
    i.print (result.getD .null) = some text

theorem reply_response {i : Inputs} {frame f : MuxFrame} {request : Option Value}
    (h : CommandTask.reply i frame request = some (.ok f)) (hkind : f.kind = muxResponse) :
    ∃ value method result text, request = some value ∧
      value.get "method" = some (.string method) ∧
      i.handler method (value.get "params") = .ok result ∧
      i.print (result.getD .null) = some text ∧
      hostFrame f = { kind := muxResponse, session := frame.session, request := frame.request
                      payload := text } := by
  have herror : ∀ {message}, protocolError i.print frame.session frame.request message =
      some (.ok f) → False := by
    intro message herror
    rw [protocolError_kind herror] at hkind
    exact absurd hkind (by decide)
  unfold CommandTask.reply at h
  split at h
  · next value method hmethod =>
    split_ifs at h with hnumbers
    · split at h
      · exact (herror h).elim
      · next result hhandler =>
        split at h
        · exact (herror h).elim
        · obtain ⟨text, htext, hframe⟩ := sendJson_ok h
          exact ⟨value, method, result, text, rfl, hmethod, hhandler, htext, hframe⟩
    · exact (herror h).elim
  · exact (herror h).elim

/-- The C string that the parser is given ends in front of the first NUL of the payload. -/
theorem cString_payload {i : Inputs} {frame : MuxFrame}
    {text text' : Vector UInt8 (muxMaxPayload + 1)} (hsize : frame.size ≤ muxMaxPayload)
    (hcopy : CArray.copy i.text 0 frame.data 0 frame.size = some text)
    (hstore : CArray.store text frame.size 0 = some text') :
    CommandTask.cString text' = (hostFrame frame).payload.takeWhile (· ≠ 0) := by
  have hlen : (frame.data.toList.take frame.size).length = frame.size := by
    rw [List.length_take, Vector.length_toList]
    exact Nat.min_eq_left hsize
  obtain ⟨copied, hcopied, hholds⟩ := (CArray.holds_nil i.text).copy
    (show CArray.Holds frame.data frame.data.toList from List.prefix_rfl) 0 frame.size
    (by simpa using hsize) (Nat.le_succ_of_le (by simpa using hsize))
  obtain rfl : copied = text := Option.some.inj (hcopied.symm.trans hcopy)
  rw [List.nil_append, List.drop_zero] at hholds
  obtain ⟨stored, hstored, hends⟩ := hholds.store (by rw [hlen]; exact Nat.lt_succ_of_le hsize) 0
  rw [hlen] at hstored
  obtain rfl : stored = text' := Option.some.inj (hstored.symm.trans hstore)
  obtain ⟨rest, hrest⟩ := hends
  rw [CommandTask.cString, ← hrest, hostFrame, List.append_assoc, List.takeWhile_append]
  split_ifs with hall
  · rw [List.singleton_append, List.takeWhile_cons_of_neg (by simp), List.append_nil]
    exact ((List.takeWhile_prefix _).eq_of_length hall).symm
  · rfl

theorem serveFrame_response {i : Inputs} {frame f : MuxFrame} (hsize : frame.size ≤ muxMaxPayload)
    (h : CommandTask.serveFrame i frame = some (.ok f)) (hkind : f.kind = muxResponse) :
    ∃ text, Handled i (hostFrame frame).payload text ∧
      hostFrame f = { kind := muxResponse, session := frame.session, request := frame.request
                      payload := text } := by
  unfold CommandTask.serveFrame at h
  split_ifs at h
  · obtain ⟨copied, hcopy, h⟩ := Option.bind_eq_some_iff.mp h
    obtain ⟨stored, hstore, h⟩ := Option.bind_eq_some_iff.mp h
    obtain ⟨value, method, result, text, hparse, hmethod, hhandler, hprint, hframe⟩ :=
      reply_response h hkind
    rw [cString_payload hsize hcopy hstore] at hparse
    exact ⟨text, ⟨value, method, result, hparse, hmethod, hhandler, hprint⟩, hframe⟩
  · rw [protocolError_kind h] at hkind
    exact absurd hkind (by decide)

/-- A response is the reply that a served request was given. -/
def Answered (served : List (MuxFrame × Inputs)) (f : MuxFrame) : Prop :=
  f.kind = muxResponse → ∃ p ∈ served, CommandTask.serveFrame p.2 p.1 = some (.ok f)

theorem Answered.mono {served : List (MuxFrame × Inputs)} {f : MuxFrame} (h : Answered served f)
    (more : List (MuxFrame × Inputs)) : Answered (served ++ more) f := by
  intro hkind
  obtain ⟨p, hp, hserve⟩ := h hkind
  exact ⟨p, List.mem_append_left more hp, hserve⟩

theorem Answered.of_kind {served : List (MuxFrame × Inputs)} {f : MuxFrame} {kind : UInt8}
    (hf : f.kind = kind) (hne : kind ≠ muxResponse) : Answered served f :=
  fun hkind => absurd (hf.symm.trans hkind) hne

def Enqueue.Answered (served : List (MuxFrame × Inputs)) : Enqueue → Prop
  | .send frame => Firmware.Answered served frame
  | _ => True

/-- What a task is about to send. -/
def Task.Answered (served : List (MuxFrame × Inputs)) : (task : Task) → task.Own → Prop
  | .tx => fun t =>
      match t.place with
      | .stamp | .send _ => Firmware.Answered served t.frame
      | _ => True
  | .rx => fun t => ∀ call, t.place = .enqueue call → call.Answered served
  | .command => fun t => ∀ call, t = .enqueue call → call.Answered served
  | .publisher _ => fun t => ∀ call, t = .enqueue call → call.Answered served
  | _ => fun _ => True

structure Replies (served : List (MuxFrame × Inputs)) (w : Board) : Prop where
  queue : ∀ f ∈ w.scene.shared.controlQueue, Answered served f
  own : ∀ task : Task, task.Answered served (w.own task)
  record : ∀ f bytes, .framed f bytes ∈ w.scene.record → Answered served f

/-- What is left behind by a turn: in the queue, in the task and on record. -/
structure Leaves (served : List (MuxFrame × Inputs)) {τ : Type} (own : τ → Prop)
    (r : Turn Shared Label τ) : Prop where
  queue : ∀ f ∈ r.shared.controlQueue, Answered served f
  own : own r.own
  record : ∀ f bytes, .framed f bytes ∈ r.record → Answered served f

section
variable {served : List (MuxFrame × Inputs)} {s : Shared}

theorem countDrop_controlQueue (s : Shared) (control : Bool) :
    (countDrop s control).controlQueue = s.controlQueue := by
  cases control <;> rfl

theorem Enqueue.turn_answered (hqueue : ∀ f ∈ s.controlQueue, Firmware.Answered served f)
    {call : Enqueue} (hcall : call.Answered served) :
    (∀ f ∈ (call.turn s).1.controlQueue, Firmware.Answered served f) ∧
      ∀ rest, (call.turn s).2 = .inl rest → rest.Answered served := by
  cases call with
  | send frame =>
      unfold Enqueue.turn
      dsimp only
      cases hsend : queueSend controlCapacity s.controlQueue frame with
      | some queue =>
          refine ⟨queueSend_forall hsend hqueue hcall, ?_⟩
          rintro rest ⟨⟩
          trivial
      | none =>
          refine ⟨hqueue, ?_⟩
          rintro rest ⟨⟩
          trivial
  | drop => exact ⟨countDrop_controlQueue s true ▸ hqueue, fun rest hrest => by cases hrest⟩
  | give => exact ⟨hqueue, fun rest hrest => by cases hrest⟩

theorem TxTask.encode_leaves (i : Inputs) (hqueue : ∀ f ∈ s.controlQueue, Answered served f)
    {t : TxTask} (ht : Answered served t.frame) :
    Leaves served (Task.Answered served .tx) (encode i s t) := by
  unfold encode
  split
  · exact ⟨hqueue, trivial, fun f bytes hf => by cases hf⟩
  · refine ⟨hqueue, trivial, fun f bytes hf => ?_⟩
    cases List.mem_singleton.mp hf
    exact ht

theorem TxTask.turn_leaves (i : Inputs) (hqueue : ∀ f ∈ s.controlQueue, Answered served f)
    {t : TxTask} (ht : Task.Answered served .tx t) :
    Leaves served (Task.Answered served .tx) (turn i s t) := by
  obtain ⟨frame, wire, place⟩ := t
  have hsilent : ∀ f bytes, Label.framed f bytes ∈ ([] : List Label) → Answered served f :=
    fun f bytes hf => by cases hf
  cases place with
  | receive =>
      unfold turn
      dsimp only
      cases hcontrol : s.controlQueue with
      | nil =>
          refine ⟨?_, trivial, hsilent⟩
          rw [hcontrol]
          exact fun f hf => by cases hf
      | cons f queue =>
          rw [hcontrol] at hqueue
          exact ⟨fun g hg => hqueue g (List.mem_cons_of_mem f hg), hqueue f List.mem_cons_self,
            hsilent⟩
  | console =>
      unfold turn
      dsimp only
      split
      · exact ⟨hqueue, trivial, hsilent⟩
      · split
        · exact ⟨hqueue, trivial, hsilent⟩
        · exact ⟨hqueue, Answered.of_kind (show _ = muxConsole from rfl) (by decide), hsilent⟩
  | wait =>
      unfold turn
      dsimp only
      split_ifs <;> exact ⟨hqueue, trivial, hsilent⟩
  | stamp => exact ⟨hqueue, ht, fun f bytes hf => by cases List.mem_singleton.mp hf⟩
  | send session =>
      unfold turn
      dsimp only
      split_ifs with hkind
      · exact ⟨hqueue, trivial, fun f bytes hf => by cases List.mem_singleton.mp hf⟩
      · exact encode_leaves i hqueue (Answered.of_kind hkind (by decide))
      · exact ⟨hqueue, trivial, hsilent⟩
      · exact encode_leaves i hqueue ht
  | transmit bytes control sent =>
      unfold turn
      dsimp only
      split_ifs
      · exact ⟨hqueue, trivial, fun f bytes hf => by cases List.mem_singleton.mp hf⟩
      · exact ⟨hqueue, trivial, hsilent⟩
      · exact ⟨hqueue, trivial, hsilent⟩
  | drop control => exact ⟨countDrop_controlQueue s control ▸ hqueue, trivial, hsilent⟩
  | lost => exact ⟨hqueue, trivial, hsilent⟩

theorem RxTask.turn_leaves (config : Config) (i : Inputs)
    (hqueue : ∀ f ∈ s.controlQueue, Answered served f) {t : RxTask}
    (ht : Task.Answered served .rx t) :
    Leaves served (Task.Answered served .rx) (turn config i s t) := by
  obtain ⟨decoder, frame, bytes, place⟩ := t
  -- Most turns send nothing.
  have hquiet : ∀ (shared : Shared) (own : RxTask) (record : List Label),
      shared.controlQueue = s.controlQueue → (∀ call, own.place ≠ .enqueue call) →
      (∀ f bytes, .framed f bytes ∉ record) →
      Leaves served (Task.Answered served .rx) { shared := shared, own := own, record := record } :=
    fun shared own record hshared hown hrecord =>
      ⟨hshared ▸ hqueue, fun call hcall => absurd hcall (hown call),
        fun f bytes hf => absurd hf (hrecord f bytes)⟩
  cases place with
  | feed =>
      unfold turn
      dsimp only
      split
      · exact hquiet _ _ _ rfl (by simp) (by simp)
      · refine hquiet _ _ _ rfl ?_ (by simp)
        intro call
        split
        · exact RxPlace.noConfusion
        · unfold placeOf
          dsimp only
          split_ifs <;> exact RxPlace.noConfusion
  | unframed b =>
      refine hquiet _ _ _ rfl ?_ (by simp)
      intro call
      dsimp only
      split_ifs <;> exact RxPlace.noConfusion
  | hello => exact hquiet _ _ _ rfl (by simp) (by simp)
  | reset =>
      refine ⟨hqueue, ?_, fun f bytes hf => by cases hf⟩
      unfold turn
      dsimp only
      split
      · exact fun call hcall => by cases hcall
      · intro call hcall
        cases hcall
        exact Answered.of_kind (show _ = muxHelloAck from rfl) (by decide)
  | current =>
      refine hquiet _ _ _ rfl ?_ (by simp)
      intro call
      unfold dispatch
      dsimp only
      split_ifs <;> exact RxPlace.noConfusion
  | input payload =>
      cases payload with
      | nil => exact hquiet _ _ _ rfl (by simp) (by simp)
      | cons b payload =>
          unfold turn
          dsimp only
          split <;> exact hquiet _ _ _ rfl (by simp) (by simp)
  | drop payload => exact hquiet _ _ _ (countDrop_controlQueue s true) (by simp) (by simp)
  | request =>
      unfold turn
      dsimp only
      split
      · exact hquiet _ _ _ rfl (by simp) (by simp)
      · refine ⟨hqueue, ?_, fun f bytes hf => by cases hf⟩
        intro call hcall
        dsimp only at hcall
        split at hcall
        · cases hcall
        · cases hcall
        · next herror =>
          cases hcall
          exact Answered.of_kind (protocolError_kind herror) (by decide)
  | enqueue call =>
      obtain ⟨hshared, hrest⟩ := Enqueue.turn_answered hqueue (ht call rfl)
      refine ⟨hshared, ?_, fun f bytes hf => by cases hf⟩
      intro rest hplace
      unfold turn at hplace
      dsimp only at hplace
      split at hplace
      · next hturn =>
        cases hplace
        exact hrest _ hturn
      · cases hplace
  | _ => exact hquiet _ _ _ rfl (by simp) (by simp)

theorem CommandTask.turn_leaves (i : Inputs) (hqueue : ∀ f ∈ s.controlQueue, Answered served f)
    {t : CommandTask} (ht : Task.Answered served .command t) :
    Leaves (served ++ t.serves i) (Task.Answered (served ++ t.serves i) .command) (turn i s t) := by
  have hmore : ∀ f ∈ s.controlQueue, Answered (served ++ t.serves i) f :=
    fun f hf => (hqueue f hf).mono _
  cases t with
  | receive =>
      unfold turn
      dsimp only
      split
      · exact ⟨hmore, (fun call hcall => by cases hcall), (fun f bytes hf => by cases hf)⟩
      · exact ⟨hmore, (fun call hcall => by cases hcall), (fun f bytes hf => by cases hf)⟩
  | check frame =>
      unfold turn
      refine ⟨hmore, fun call hcall => ?_, fun f bytes hf => by cases hf⟩
      dsimp only at hcall
      split_ifs at hcall
  | serve frame =>
      unfold turn
      refine ⟨hmore, fun call hcall => ?_, fun f bytes hf => by cases hf⟩
      dsimp only at hcall
      split at hcall
      · cases hcall
      · cases hcall
      · next reply hserve =>
        cases hcall
        exact fun _ => ⟨(frame, i), List.mem_append_right _ List.mem_cons_self, hserve⟩
  | enqueue call =>
      rw [show served ++ serves i (.enqueue call) = served from List.append_nil served]
      obtain ⟨hshared, hrest⟩ := Enqueue.turn_answered hqueue (ht call rfl)
      refine ⟨hshared, fun rest hplace => ?_, fun f bytes hf => by cases hf⟩
      unfold turn at hplace
      dsimp only at hplace
      split at hplace
      · next hturn =>
        cases hplace
        exact hrest _ hturn
      · cases hplace
  | lost => exact ⟨hmore, (fun call hcall => by cases hcall), (fun f bytes hf => by cases hf)⟩

theorem Publisher.turn_leaves (n : ℕ) (i : Inputs)
    (hqueue : ∀ f ∈ s.controlQueue, Answered served f) {t : Publisher}
    (ht : Task.Answered served (.publisher n) t) :
    Leaves served (Task.Answered served (.publisher n)) (turn i s t) := by
  cases t with
  | idle returned =>
      exact ⟨hqueue, (fun call hcall => by cases hcall), (fun f bytes hf => by cases hf)⟩
  | publish event =>
      refine ⟨hqueue, fun call hcall => ?_, fun f bytes hf => by cases hf⟩
      unfold turn at hcall
      dsimp only at hcall
      split_ifs at hcall
      split at hcall
      · cases hcall
      · cases hcall
      · next hsend =>
        cases hcall
        obtain ⟨bytes, -, hframe⟩ := sendJson_ok hsend
        exact Answered.of_kind (show _ = muxEvent from congrArg Frame.kind hframe) (by decide)
  | enqueue call =>
      obtain ⟨hshared, hrest⟩ := Enqueue.turn_answered hqueue (ht call rfl)
      refine ⟨hshared, fun rest hplace => ?_, fun f bytes hf => by cases hf⟩
      unfold turn at hplace
      dsimp only at hplace
      split at hplace
      · next hturn =>
        cases hplace
        exact hrest _ hturn
      · cases hplace
  | lost => exact ⟨hqueue, (fun call hcall => by cases hcall), (fun f bytes hf => by cases hf)⟩

theorem turn_leaves (config : Config) (task : Task) (i : Inputs)
    (hqueue : ∀ f ∈ s.controlQueue, Answered served f) {t : task.Own}
    (ht : task.Answered served t) :
    Leaves (served ++ serves i task t) (task.Answered (served ++ serves i task t))
      (turn config task i s t) := by
  have hnone : ∀ more, more = ([] : List (MuxFrame × Inputs)) → served ++ more = served := by
    rintro more rfl
    exact List.append_nil served
  cases task with
  | tx =>
      rw [hnone _ (show serves i .tx t = [] from rfl)]
      exact TxTask.turn_leaves i hqueue ht
  | rx =>
      rw [hnone _ (show serves i .rx t = [] from rfl)]
      exact RxTask.turn_leaves config i hqueue ht
  | command => exact CommandTask.turn_leaves i hqueue ht
  | publisher n =>
      rw [hnone _ (show serves i (.publisher n) t = [] from rfl)]
      exact Publisher.turn_leaves n i hqueue ht
  | writer n =>
      rw [hnone _ (show serves i (.writer n) t = [] from rfl)]
      obtain ⟨bytes, chunk, place⟩ := t
      dsimp only [turn]
      cases place with
      | send =>
          unfold Writer.turn
          dsimp only
          split <;> exact ⟨hqueue, trivial, fun f bytes hf => by cases hf⟩
      | drop =>
          exact ⟨countDrop_controlQueue s false ▸ hqueue, trivial, fun f bytes hf => by cases hf⟩
      | _ => exact ⟨hqueue, trivial, fun f bytes hf => by cases hf⟩
  | reader n =>
      rw [hnone _ (show serves i (.reader n) t = [] from rfl)]
      dsimp only [turn]
      unfold Reader.turn
      cases t with
      | idle returned => exact ⟨hqueue, trivial, fun f bytes hf => by cases hf⟩
      | first size =>
          dsimp only
          split <;> exact ⟨hqueue, trivial, fun f bytes hf => by cases hf⟩
      | more size bytes =>
          dsimp only
          split_ifs
          · split <;> exact ⟨hqueue, trivial, fun f bytes hf => by cases hf⟩
          · exact ⟨hqueue, trivial, fun f bytes hf => by cases hf⟩

end

theorem Task.Answered.mono {served : List (MuxFrame × Inputs)} {task : Task} {t : task.Own}
    (h : task.Answered served t) (more : List (MuxFrame × Inputs)) :
    task.Answered (served ++ more) t := by
  have hcall : ∀ call : Enqueue, call.Answered served → call.Answered (served ++ more) := by
    intro call hcall
    cases call with
    | send frame => exact Firmware.Answered.mono hcall more
    | _ => trivial
  cases task with
  | tx =>
      obtain ⟨frame, wire, place⟩ := t
      cases place with
      | stamp => exact Firmware.Answered.mono h more
      | send session => exact Firmware.Answered.mono h more
      | _ => trivial
  | rx => exact fun call hplace => hcall call (h call hplace)
  | command => exact fun call hplace => hcall call (h call hplace)
  | publisher n => exact fun call hplace => hcall call (h call hplace)
  | _ => trivial

theorem Replies.next {served : List (MuxFrame × Inputs)} {w : Board} (h : Replies served w)
    (config : Config) (task : Task) (i : Inputs) :
    Replies (served ++ serves i task (w.own task)) (w.next (turn config) (task, i)) := by
  have hleaves := turn_leaves config task i h.queue (h.own task)
  constructor
  · exact hleaves.queue
  · intro other
    by_cases hother : other = task
    · subst hother
      rw [World.own_next_self]
      exact hleaves.own
    · rw [World.own_next_of_ne _ w hother]
      exact (h.own other).mono _
  · intro f bytes hf
    rcases List.mem_append.mp hf with hf | hf
    · exact (h.record f bytes hf).mono _
    · exact hleaves.record f bytes hf

end IdfRemote.Firmware
