import IdfRemote.Service

/-!
# What occupies a device

The actions that run on a device are one exclusive action, or a command and a write
at most. Its flags say which: an action that may join sets them, and a completion
clears its own.
-/
namespace IdfRemote

/-- What the flags of a device say about the actions that occupy it. -/
inductive Occupancy (state : DeviceState) : List Action → Prop
  | idle (hbusy : state.busy = false) (happ : state.applicationPending = false)
      (hinput : state.inputPending = false) : Occupancy state []
  | exclusive (action : Action) (hcommand : action.appLane = false)
      (hwrite : action.inputLane = false) (hbusy : state.busy = true)
      (happ : state.applicationPending = false) (hinput : state.inputPending = false) :
      Occupancy state [action]
  | streams (actions : List Action) (hne : actions ≠ [])
      (hlanes : ∀ a ∈ actions, a.appLane = true ∨ a.inputLane = true)
      (hcommand : actions.countP Action.appLane ≤ 1)
      (hwrite : actions.countP Action.inputLane ≤ 1) (hbusy : state.busy = true)
      (happ : state.applicationPending = actions.any Action.appLane)
      (hinput : state.inputPending = actions.any Action.inputLane) : Occupancy state actions

theorem Action.lanes_exclusive (a : Action) : (a.appLane && a.inputLane) = false := by
  cases a with
  | application command timeoutMs => cases command <;> rfl
  | _ => rfl

theorem Action.inputLane_of_appLane {a : Action} (h : a.appLane = true) :
    a.inputLane = false := by
  simpa [h] using a.lanes_exclusive

theorem Action.appLane_of_inputLane {a : Action} (h : a.inputLane = true) :
    a.appLane = false := by
  simpa [h] using a.lanes_exclusive

theorem Action.isStream_of_lane {a : Action} (h : a.appLane = true ∨ a.inputLane = true) :
    a.isStream = true := by
  cases a <;> simp_all [appLane, inputLane, isStream]

theorem Action.lane_of_appLane {a : Action} (h : a.appLane = true) : a.lane = .application := by
  cases a <;> simp_all [appLane, lane]

theorem Action.lane_of_inputLane {a : Action} (h : a.inputLane = true) : a.lane = .input := by
  cases a <;> simp_all [inputLane, lane]

namespace Occupancy
variable {state state' : DeviceState} {actions : List Action}

theorem congr (h : Occupancy state actions) (hbusy : state'.busy = state.busy)
    (happ : state'.applicationPending = state.applicationPending)
    (hinput : state'.inputPending = state.inputPending) : Occupancy state' actions := by
  cases h with
  | idle b a i => exact .idle (hbusy.trans b) (happ.trans a) (hinput.trans i)
  | exclusive action c w b a i =>
      exact .exclusive action c w (hbusy.trans b) (happ.trans a) (hinput.trans i)
  | streams _ hne hl c w b a i =>
      exact .streams actions hne hl c w (hbusy.trans b) (happ.trans a) (hinput.trans i)

/-- Without a command there are only writes, and the other way round. -/
theorem countP_of_lanes {p q : Action → Bool} (hlanes : ∀ a ∈ actions, p a = true ∨ q a = true)
    (hp : actions.any p = false) : actions.countP q = actions.length := by
  apply List.countP_eq_length.mpr
  intro a ha
  have hpa := List.any_eq_false.mp hp a ha
  exact (hlanes a ha).resolve_left hpa

theorem length_le (h : Occupancy state actions) : actions.length ≤ 2 := by
  cases h with
  | idle => simp
  | exclusive => simp
  | streams _ hne hlanes hcommand hwrite =>
      have hsplit := List.length_eq_countP_add_countP Action.appLane (l := actions)
      have hle : actions.countP (fun a => !a.appLane) ≤ actions.countP Action.inputLane := by
        apply List.countP_mono_left
        intro a ha hnot
        exact (hlanes a ha).resolve_left (by simpa using hnot)
      have hcongr : actions.countP (fun a => decide ¬a.appLane = true) =
          actions.countP (fun a => !a.appLane) := by
        congr 1
        funext a
        simp
      omega

/-- An action that may join leaves room for its job and fits the flags it sets. -/
theorem join (h : Occupancy state actions) {a : Action}
    (hjoin : (state.busy && !state.compatible a) = false) :
    Occupancy (state.occupy a) (actions ++ [a]) ∧ actions.length ≤ 1 := by
  cases h with
  | idle hbusy happ hinput =>
      refine ⟨?_, by simp⟩
      by_cases hlane : a.appLane = true ∨ a.inputLane = true
      · refine .streams [a] (by simp) (by simpa using hlane) ?_ ?_ rfl ?_ ?_
        · exact List.countP_le_length
        · exact List.countP_le_length
        · simp [DeviceState.occupy, happ]
        · simp [DeviceState.occupy, hinput]
      · rw [not_or, Bool.not_eq_true, Bool.not_eq_true] at hlane
        refine .exclusive a hlane.1 hlane.2 rfl ?_ ?_
        · simp [DeviceState.occupy, happ, hlane.1]
        · simp [DeviceState.occupy, hinput, hlane.2]
  | exclusive action hcommand hwrite hbusy happ hinput =>
      simp [DeviceState.compatible, hbusy, happ, hinput] at hjoin
  | streams _ hne hlanes hcommand hwrite hbusy happ hinput =>
      have hcompatible : state.compatible a = true := by simpa [hbusy] using hjoin
      simp only [DeviceState.compatible, Bool.or_eq_true, Bool.and_eq_true,
        Bool.not_eq_true'] at hcompatible
      have hjoined : a.appLane = true ∨ a.inputLane = true →
          ∀ b ∈ actions ++ [a], b.appLane = true ∨ b.inputLane = true := by
        intro ha b hb
        rcases List.mem_append.mp hb with hb | hb
        · exact hlanes b hb
        · rwa [List.mem_singleton.mp hb]
      rcases hcompatible with ⟨⟨ha, hi⟩, hfree⟩ | ⟨⟨ha, hi⟩, hfree⟩
      · have hnone : actions.any Action.appLane = false := happ ▸ hfree
        have hcount : actions.countP Action.appLane = 0 := by
          rw [List.countP_eq_zero]
          exact List.any_eq_false.mp hnone
        refine ⟨.streams _ (by simp) (hjoined (.inl ha)) ?_ ?_ rfl ?_ ?_, ?_⟩
        · simp [hcount, ha]
        · simpa [Action.inputLane_of_appLane ha] using hwrite
        · simp [DeviceState.occupy, ha]
        · simp [DeviceState.occupy, hinput, Action.inputLane_of_appLane ha]
        · rw [← countP_of_lanes hlanes hnone]
          exact hwrite
      · have hnone : actions.any Action.inputLane = false := hinput ▸ hfree
        have hcount : actions.countP Action.inputLane = 0 := by
          rw [List.countP_eq_zero]
          exact List.any_eq_false.mp hnone
        refine ⟨.streams _ (by simp) (hjoined (.inr ha)) ?_ ?_ rfl ?_ ?_, ?_⟩
        · simpa [Action.appLane_of_inputLane ha] using hcommand
        · simp [hcount, ha]
        · simp [DeviceState.occupy, happ, Action.appLane_of_inputLane ha]
        · simp [DeviceState.occupy, ha]
        · rw [← countP_of_lanes (fun b hb => (hlanes b hb).symm) hnone]
          exact hcommand

theorem of_lanes (hlanes : ∀ a ∈ actions, a.appLane = true ∨ a.inputLane = true)
    (hcommand : actions.countP Action.appLane ≤ 1) (hwrite : actions.countP Action.inputLane ≤ 1)
    (happ : state.applicationPending = actions.any Action.appLane)
    (hinput : state.inputPending = actions.any Action.inputLane)
    (hbusy : state.busy = (state.applicationPending || state.inputPending)) :
    Occupancy state actions := by
  cases hactions : actions with
  | nil =>
      rw [hactions] at happ hinput
      rw [happ, hinput] at hbusy
      exact .idle hbusy happ hinput
  | cons a rest =>
      rw [← hactions]
      refine .streams actions (by simp [hactions]) hlanes hcommand hwrite ?_ happ hinput
      have ha := hlanes a (by simp [hactions])
      rw [hbusy, happ, hinput, hactions, List.any_cons, List.any_cons]
      rcases ha with ha | ha <;> simp [ha]

theorem complete {front back : List Action} {a : Action}
    (h : Occupancy state (front ++ a :: back)) (hasReader : Bool) :
    Occupancy (state.completeStream a.lane hasReader) (front ++ back) := by
  generalize hactions : front ++ a :: back = actions at h
  cases h with
  | idle => simp at hactions
  | exclusive action hcommand hwrite hbusy happ hinput =>
      obtain ⟨rfl, rfl, rfl⟩ : front = [] ∧ a = action ∧ back = [] := by
        simpa [List.append_eq_singleton_iff] using hactions
      cases a.lane <;>
        exact .idle (by simp [DeviceState.completeStream, DeviceState.setActivity, happ, hinput])
          (by simp [DeviceState.completeStream, DeviceState.setActivity, happ])
          (by simp [DeviceState.completeStream, DeviceState.setActivity, hinput])
  | streams _ hne hlanes hcommand hwrite hbusy happ hinput =>
      subst hactions
      have hrest : ∀ b ∈ front ++ back, b.appLane = true ∨ b.inputLane = true := by
        intro b hb
        apply hlanes b
        simp only [List.mem_append, List.mem_cons] at hb ⊢
        tauto
      simp only [List.countP_append, List.countP_cons] at hcommand hwrite
      rcases hlanes a (by simp) with ha | ha
      · have hi := Action.inputLane_of_appLane ha
        rw [Action.lane_of_appLane ha]
        simp only [ha, hi, if_true] at hcommand hwrite
        have hnone : (front ++ back).any Action.appLane = false := by
          rw [List.any_eq_false, ← List.countP_eq_zero, List.countP_append]
          omega
        have hleft : state.inputPending = (front ++ back).any Action.inputLane := by
          simpa [hi] using hinput
        exact of_lanes hrest (by rw [List.countP_append]; omega)
          (by rw [List.countP_append]; simpa using hwrite) hnone.symm hleft rfl
      · have hp := Action.appLane_of_inputLane ha
        rw [Action.lane_of_inputLane ha]
        simp only [ha, hp, if_true] at hcommand hwrite
        have hnone : (front ++ back).any Action.inputLane = false := by
          rw [List.any_eq_false, ← List.countP_eq_zero, List.countP_append]
          omega
        have hleft : state.applicationPending = (front ++ back).any Action.appLane := by
          simpa [hp] using happ
        exact of_lanes hrest (by rw [List.countP_append]; simpa using hcommand)
          (by rw [List.countP_append]; omega) hleft hnone.symm rfl

theorem completeExclusive {front back : List Action} {a : Action}
    (h : Occupancy state (front ++ a :: back)) (hstream : a.isStream = false)
    (succeeded hasReader : Bool) :
    Occupancy (state.completeExclusive succeeded hasReader) (front ++ back) := by
  generalize hactions : front ++ a :: back = actions at h
  cases h with
  | idle => simp at hactions
  | exclusive action hcommand hwrite hbusy happ hinput =>
      obtain ⟨rfl, rfl, rfl⟩ : front = [] ∧ a = action ∧ back = [] := by
        simpa [List.append_eq_singleton_iff] using hactions
      exact .idle rfl happ hinput
  | streams _ hne hlanes =>
      have ha := Action.isStream_of_lane (hlanes a (by simp [← hactions]))
      rw [hstream] at ha
      cases ha

end Occupancy

end IdfRemote
