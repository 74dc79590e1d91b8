import IdfRemote.Interleaving
import IdfRemote.Leasing

/-!
# Leases on the native handle

The Android application opens one native handle for an attached device. Every call takes
a lease and runs its action with the handle, either itself or on a pool with one thread.
The lifecycle owner closes the session once: from then on no lease is given out, and the
handle is closed when all leases are back. The leases are counted by an integer: a process
has fewer threads than an `Int` can count. What a call does under the lock is one step,
and no step of its own while `close` has the lock. The pool is not part of the repository:
it runs a task that it has accepted, may reject one when its thread is busy, and rejects
every task after its shutdown.
-/
namespace IdfRemote
open Interleaving Leasing

structure GatewaySession where
  closing : Bool := false
  calls : ℤ := 0
  /-- The lock is held by `close`. -/
  locked : Bool := false
  /-- `close` waits on the condition `idle` and has not been signalled. -/
  waiting : Bool := false
  shutdown : Bool := false

namespace GatewaySession

def acquire (s : GatewaySession) : Option GatewaySession :=
  if s.closing then none else some { s with calls := s.calls + 1 }

def release (s : GatewaySession) : GatewaySession :=
  if s.calls - 1 = 0 then { s with calls := s.calls - 1, waiting := false }
  else { s with calls := s.calls - 1 }

inductive Kind
  | use
  | application
deriving DecidableEq, Repr

/-- How a call with a lease ends: its action returns or throws, or the pool rejects it. -/
inductive Outcome
  | returned
  | threw
  | rejected
deriving DecidableEq, Repr

inductive Caller
  | entered (kind : Kind)
  | refused
  | leased (kind : Kind)
  | accepted
  | running (kind : Kind)
  | leaving (outcome : Outcome)
  | left (outcome : Outcome)
deriving DecidableEq, Repr

inductive Closer
  | opened
  | entered
  | checking
  | awaiting
  | idle
  | native
  | closed
deriving DecidableEq, Repr

inductive Event (ι : Type)
  | acquired (i : ι)
  | started (i : ι)
  | finished (i : ι)
  | released (i : ι)
  | nativeClosing
  | nativeClosed
deriving DecidableEq, Repr

inductive Party (ι : Type)
  | call (i : ι)
  | close
deriving DecidableEq, Repr

def Party.State {ι : Type} : Party ι → Type
  | .call _ => Caller
  | .close => Closer

/-- What a turn meets: whether the pool has a thread for the task, whether the action throws,
and whether a wait ends without a signal. -/
structure Chance where
  accepts : Bool
  throws : Bool
  wakes : Bool

variable {ι : Type}

def callTurn (i : ι) (c : Chance) (s : GatewaySession) :
    Caller → Turn GatewaySession (Event ι) Caller
  | .entered kind =>
      if s.locked then { shared := s, own := .entered kind }
      else
        match s.acquire with
        | none => { shared := s, own := .refused }
        | some s => { shared := s, own := .leased kind, record := [.acquired i] }
  | .leased .use => { shared := s, own := .running .use, record := [.started i] }
  | .leased .application =>
      if c.accepts && !s.shutdown then { shared := s, own := .accepted }
      else { shared := s, own := .leaving .rejected }
  | .accepted => { shared := s, own := .running .application, record := [.started i] }
  | .running _ =>
      { shared := s, own := .leaving (if c.throws then .threw else .returned)
        record := [.finished i] }
  | .leaving outcome =>
      if s.locked then { shared := s, own := .leaving outcome }
      else { shared := s.release, own := .left outcome, record := [.released i] }
  | .left outcome => { shared := s, own := .left outcome }
  | .refused => { shared := s, own := .refused }

def closeTurn (c : Chance) (s : GatewaySession) : Closer → Turn GatewaySession (Event ι) Closer
  | .opened => { shared := { s with locked := true, closing := true }, own := .entered }
  | .entered => { shared := { s with shutdown := true }, own := .checking }
  | .checking =>
      if s.calls ≠ 0 then
        { shared := { s with locked := false, waiting := true }, own := .awaiting }
      else { shared := { s with locked := false }, own := .idle }
  | .awaiting =>
      -- Out of the queue of the condition, it takes the lock again.
      if s.waiting && !c.wakes then { shared := s, own := .awaiting }
      else { shared := { s with locked := true, waiting := false }, own := .checking }
  | .idle => { shared := s, own := .native, record := [.nativeClosing] }
  | .native => { shared := s, own := .closed, record := [.nativeClosed] }
  | .closed => { shared := s, own := .closed }

def turn : ∀ p : Party ι, Chance → GatewaySession → p.State → Turn GatewaySession (Event ι) p.State
  | .call i => callTurn i
  | .close => closeTurn

/-- Any number of calls, each of its kind, and one `close`. -/
def init (kind : ι → Kind) : World GatewaySession (Event ι) (Party.State (ι := ι)) where
  scene := { shared := {} }
  own
    | .call i => .entered (kind i)
    | .close => .opened

/-- What has become of the lease of a call. -/
inductive Lease
  | none
  | out
  | back
deriving DecidableEq, Repr

def Caller.lease : Caller → Lease
  | .entered _ | .refused => .none
  | .leased _ | .accepted | .running _ | .leaving _ => .out
  | .left _ => .back

def Lease.taken : Lease → ℕ
  | .none => 0
  | .out | .back => 1

def Lease.returned : Lease → ℕ
  | .none | .out => 0
  | .back => 1

def Event.acquires : Event ι → Option ι
  | .acquired i => some i
  | _ => none

def Event.releases : Event ι → Option ι
  | .released i => some i
  | _ => none

/-- The calls that have taken a lease, and those that have given one back. -/
def taken (record : List (Event ι)) : Multiset ι := record.filterMap Event.acquires

def returned (record : List (Event ι)) : Multiset ι := record.filterMap Event.releases

theorem taken_append (record more : List (Event ι)) :
    taken (record ++ more) = taken record + taken more := by
  simp [taken]

theorem returned_append (record more : List (Event ι)) :
    returned (record ++ more) = returned record + returned more := by
  simp [returned]

theorem taken_acquired (i : ι) : taken [.acquired i] = {i} := rfl

theorem taken_released (i : ι) : taken [.released i] = 0 := rfl

theorem returned_acquired (i : ι) : returned [.acquired i] = 0 := rfl

theorem returned_released (i : ι) : returned [.released i] = {i} := rfl

/-- What a call does in one turn. -/
inductive Moves (i : ι) (s : GatewaySession) (own : Caller) :
    Turn GatewaySession (Event ι) Caller → Prop
  | stays {own' : Caller} : own'.lease = own.lease → Moves i s own { shared := s, own := own' }
  | acquires {own' : Caller} : s.closing = false → own.lease = .none → own'.lease = .out →
      Moves i s own
        { shared := { s with calls := s.calls + 1 }, own := own', record := [.acquired i] }
  | works {own' : Caller} {e : Event ι} : own.lease = .out → own'.lease = .out →
      e = .started i ∨ e = .finished i → Moves i s own { shared := s, own := own', record := [e] }
  | releases {own' : Caller} : own.lease = .out → own'.lease = .back →
      Moves i s own { shared := s.release, own := own', record := [.released i] }

theorem callTurn_moves (i : ι) (c : Chance) (s : GatewaySession) (own : Caller) :
    Moves i s own (callTurn i c s own) := by
  cases own with
  | entered kind =>
      rw [callTurn]
      split_ifs
      · exact .stays rfl
      · unfold acquire
        by_cases hclosing : s.closing = true
        · rw [if_pos hclosing]
          exact .stays rfl
        · rw [if_neg hclosing]
          exact .acquires (by simpa using hclosing) rfl rfl
  | refused => exact .stays rfl
  | leased kind =>
      cases kind with
      | use => exact .works rfl rfl (.inl rfl)
      | application =>
          rw [callTurn]
          split_ifs
          · exact .stays rfl
          · exact .stays rfl
  | accepted => exact .works rfl rfl (.inl rfl)
  | running kind => exact .works rfl rfl (.inr rfl)
  | leaving outcome =>
      rw [callTurn]
      split_ifs
      · exact .stays rfl
      · exact .releases rfl rfl
  | left outcome => exact .stays rfl

/-- The counter counts the leases that are out, and once the handle is being closed there are
none and nothing else happens. -/
structure Books (scene : Scene GatewaySession (Event ι)) : Prop where
  counted : Counted (taken scene.record) (returned scene.record) scene.shared.calls
  native : .nativeClosing ∈ scene.record → scene.shared.closing = true ∧ scene.shared.calls = 0
  last : scene.record.Pairwise fun a b => a = .nativeClosing → b = .nativeClosed

theorem Books.extend {scene : Scene GatewaySession (Event ι)} (h : Books scene)
    {s : GatewaySession} {e : Event ι} (hnative : .nativeClosing ∉ scene.record)
    (he : e ≠ .nativeClosing)
    (hcounted : Counted (taken scene.record + taken [e]) (returned scene.record + returned [e])
      s.calls) : Books { shared := s, record := scene.record ++ [e] } where
  counted := by
    rw [taken_append, returned_append]
    exact hcounted
  native hmem := by
    rcases List.mem_append.mp hmem with hmem | hmem
    · exact absurd hmem hnative
    · exact absurd (List.mem_singleton.mp hmem).symm he
  last := List.pairwise_append.mpr ⟨h.last, List.pairwise_singleton _ _,
    fun a ha _ _ heq => absurd (heq ▸ ha) hnative⟩

theorem release_calls (s : GatewaySession) : s.release.calls = s.calls - 1 := by
  unfold release
  split_ifs <;> rfl

theorem release_closing (s : GatewaySession) : s.release.closing = s.closing := by
  unfold release
  split_ifs <;> rfl

theorem release_waiting (s : GatewaySession) (h : s.release.waiting = true) :
    s.release.calls ≠ 0 := by
  unfold release at h ⊢
  split_ifs at h ⊢ with hzero
  exact hzero

/-- What `close` relies on in its phases. -/
def Closer.Relies (scene : Scene GatewaySession (Event ι)) : Closer → Prop
  | .opened => .nativeClosing ∉ scene.record
  | .entered | .checking => scene.shared.closing = true ∧ .nativeClosing ∉ scene.record
  | .awaiting => scene.shared.closing = true ∧ .nativeClosing ∉ scene.record ∧
      (scene.shared.waiting = true → scene.shared.calls ≠ 0)
  | .idle => scene.shared.closing = true ∧ .nativeClosing ∉ scene.record ∧ scene.shared.calls = 0
  | .native | .closed => .nativeClosing ∈ scene.record

theorem Books.counted_append {scene : Scene GatewaySession (Event ι)} (h : Books scene)
    {more : List (Event ι)} (htaken : taken more = 0) (hreturned : returned more = 0) :
    Counted (taken (scene.record ++ more)) (returned (scene.record ++ more))
      scene.shared.calls := by
  rw [taken_append, returned_append, htaken, hreturned, Multiset.add_zero, Multiset.add_zero]
  exact h.counted

theorem Books.control {scene : Scene GatewaySession (Event ι)} (h : Books scene)
    {s : GatewaySession} (hcalls : s.calls = scene.shared.calls)
    (hclosing : scene.shared.closing = true → s.closing = true) :
    Books { shared := s, record := scene.record } where
  counted := by
    rw [hcalls]
    exact h.counted
  native hmem := ⟨hclosing (h.native hmem).1, hcalls.trans (h.native hmem).2⟩
  last := h.last

/-- A turn of `close`. It comes to close the handle only after it has seen no lease. -/
theorem Books.after_close {scene : Scene GatewaySession (Event ι)} {closer : Closer}
    (h : Books scene) (hcloser : closer.Relies scene) (c : Chance)
    {t : Turn GatewaySession (Event ι) Closer} (ht : closeTurn c scene.shared closer = t) :
    Books (scene.after t) ∧ t.own.Relies (scene.after t) ∧
      taken t.record = 0 ∧ returned t.record = 0 := by
  subst ht
  cases closer with
  | opened =>
      simp only [closeTurn, Scene.after, List.append_nil]
      exact ⟨h.control rfl fun _ => rfl, ⟨rfl, hcloser⟩, rfl, rfl⟩
  | entered =>
      simp only [closeTurn, Scene.after, List.append_nil]
      exact ⟨h.control rfl id, hcloser, rfl, rfl⟩
  | checking =>
      rw [closeTurn]
      split_ifs with hcalls <;> simp only [Scene.after, List.append_nil]
      · exact ⟨h.control rfl id, ⟨hcloser.1, hcloser.2, fun _ => hcalls⟩, rfl, rfl⟩
      · exact ⟨h.control rfl id, ⟨hcloser.1, hcloser.2, not_not.mp hcalls⟩, rfl, rfl⟩
  | awaiting =>
      rw [closeTurn]
      split_ifs <;> simp only [Scene.after, List.append_nil]
      · exact ⟨h, hcloser, rfl, rfl⟩
      · exact ⟨h.control rfl id, ⟨hcloser.1, hcloser.2.1⟩, rfl, rfl⟩
  | idle =>
      obtain ⟨hclosing, hnative, hcalls⟩ := hcloser
      refine ⟨⟨h.counted_append rfl rfl, fun _ => ⟨hclosing, hcalls⟩, ?_⟩, ?_, rfl, rfl⟩
      · exact List.pairwise_append.mpr ⟨h.last, List.pairwise_singleton _ _,
          fun a ha _ _ heq => absurd (heq ▸ ha) hnative⟩
      · exact List.mem_append_right _ List.mem_cons_self
  | native =>
      refine ⟨⟨h.counted_append rfl rfl, fun _ => h.native hcloser, ?_⟩,
        List.mem_append_left _ hcloser, rfl, rfl⟩
      exact List.pairwise_append.mpr ⟨h.last, List.pairwise_singleton _ _,
        fun _ _ b hb _ => List.mem_singleton.mp hb⟩
  | closed =>
      simp only [closeTurn, Scene.after, List.append_nil]
      exact ⟨h, hcloser, rfl, rfl⟩

section
variable [DecidableEq ι]

/-- The record has the lease of a call. -/
structure OnRecord (record : List (Event ι)) (i : ι) (lease : Lease) : Prop where
  taken : (taken record).count i = lease.taken
  returned : (returned record).count i = lease.returned

def Relies : ∀ p : Party ι, Scene GatewaySession (Event ι) → p.State → Prop
  | .call i => fun scene own => OnRecord scene.record i own.lease
  | .close => fun scene own => Closer.Relies scene own

theorem OnRecord.out {record : List (Event ι)} {i : ι} {lease : Lease}
    (h : OnRecord record i lease) (hout : lease = .out) :
    (GatewaySession.returned record).count i < (GatewaySession.taken record).count i := by
  rw [h.taken, h.returned, hout]
  exact Nat.zero_lt_one

/-- While a lease is out, the handle is not being closed. -/
theorem Books.not_native {scene : Scene GatewaySession (Event ι)} {i : ι} {lease : Lease}
    (h : Books scene) (hi : OnRecord scene.record i lease) (hout : lease = .out) :
    .nativeClosing ∉ scene.record := by
  intro hnative
  have hpos := h.counted.pos (hi.out hout)
  exact absurd (h.native hnative).2 hpos.ne'

theorem OnRecord.append {record more : List (Event ι)} {i : ι} {lease : Lease}
    (h : OnRecord record i lease) (htaken : (GatewaySession.taken more).count i = 0)
    (hreturned : (GatewaySession.returned more).count i = 0) :
    OnRecord (record ++ more) i lease := by
  constructor
  · rw [taken_append, Multiset.count_add, h.taken, htaken, Nat.add_zero]
  · rw [returned_append, Multiset.count_add, h.returned, hreturned, Nat.add_zero]

/-- A turn of a call keeps the books and its own entries. -/
theorem Books.after_call {scene : Scene GatewaySession (Event ι)} {i : ι} {own : Caller}
    (h : Books scene) (hi : OnRecord scene.record i own.lease) (c : Chance) :
    Books (scene.after (callTurn i c scene.shared own)) ∧
      OnRecord (scene.after (callTurn i c scene.shared own)).record i
        (callTurn i c scene.shared own).own.lease := by
  have hmoves := callTurn_moves i c scene.shared own
  generalize callTurn i c scene.shared own = t at hmoves
  cases hmoves with
  | stays hsame =>
      simp only [Scene.after, List.append_nil, hsame]
      exact ⟨h, hi⟩
  | acquires hclosing hnone hout =>
      have hnative : .nativeClosing ∉ scene.record := by
        intro hmem
        rw [(h.native hmem).1] at hclosing
        cases hclosing
      rw [hnone] at hi
      constructor
      · refine h.extend hnative (by simp) ?_
        rw [taken_acquired, returned_acquired, Multiset.add_zero]
        exact h.counted.take i
      · simp only [Scene.after, hout]
        constructor
        · rw [taken_append, taken_acquired, Multiset.count_add, hi.taken,
            Multiset.count_singleton_self]
          rfl
        · rw [returned_append, returned_acquired, Multiset.add_zero, hi.returned]
          rfl
  | @works own' e hout hout' he =>
      have hquiet : taken [e] = 0 ∧ returned [e] = 0 := by
        rcases he with rfl | rfl <;> exact ⟨rfl, rfl⟩
      constructor
      · refine h.extend (h.not_native hi hout) (by rcases he with rfl | rfl <;> simp) ?_
        rw [hquiet.1, hquiet.2, Multiset.add_zero, Multiset.add_zero]
        exact h.counted
      · simp only [Scene.after, hout', ← hout]
        exact hi.append (by rw [hquiet.1]; rfl) (by rw [hquiet.2]; rfl)
  | releases hout hback =>
      constructor
      · refine h.extend (h.not_native hi hout) (by simp) ?_
        rw [taken_released, returned_released, Multiset.add_zero, release_calls]
        exact h.counted.giveBack (hi.out hout)
      · simp only [Scene.after, hback]
        rw [hout] at hi
        constructor
        · rw [taken_append, taken_released, Multiset.add_zero, hi.taken]
          rfl
        · rw [returned_append, returned_released, Multiset.count_add, hi.returned,
            Multiset.count_singleton_self]
          rfl

theorem OnRecord.after_call {scene : Scene GatewaySession (Event ι)} {i j : ι} {lease : Lease}
    (hj : OnRecord scene.record j lease) (hne : i ≠ j) (c : Chance) (own : Caller) :
    OnRecord (scene.after (callTurn i c scene.shared own)).record j lease := by
  have hmoves := callTurn_moves i c scene.shared own
  generalize callTurn i c scene.shared own = t at hmoves
  have hother : Multiset.count j {i} = 0 := Multiset.count_eq_zero.mpr (by simpa using hne.symm)
  apply hj.append
  · cases hmoves with
    | works _ _ he => rcases he with rfl | rfl <;> rfl
    | acquires => exact hother
    | _ => rfl
  · cases hmoves with
    | works _ _ he => rcases he with rfl | rfl <;> rfl
    | releases => exact hother
    | _ => rfl

/-- It leaves alone what `close` relies on. A release that leaves no lease signals. -/
theorem Closer.Relies.after_call {scene : Scene GatewaySession (Event ι)} {i : ι} {own : Caller}
    {closer : Closer} (h : Books scene) (hi : OnRecord scene.record i own.lease)
    (hcloser : closer.Relies scene) (c : Chance) :
    closer.Relies (scene.after (callTurn i c scene.shared own)) := by
  have hmoves := callTurn_moves i c scene.shared own
  generalize callTurn i c scene.shared own = t at hmoves
  have hnative : .nativeClosing ∈ (scene.after t).record ↔ .nativeClosing ∈ scene.record := by
    cases hmoves with
    | works _ _ he => rcases he with rfl | rfl <;> simp [Scene.after]
    | _ => simp [Scene.after]
  have hclosing : (scene.after t).shared.closing = scene.shared.closing := by
    cases hmoves with
    | releases => exact release_closing _
    | _ => rfl
  cases closer with
  | opened => exact fun h => hcloser (hnative.mp h)
  | entered | checking => exact ⟨hclosing.trans hcloser.1, fun h => hcloser.2 (hnative.mp h)⟩
  | native | closed => exact hnative.mpr hcloser
  | awaiting =>
      obtain ⟨hclosed, hnot, hwaits⟩ := hcloser
      refine ⟨hclosing.trans hclosed, fun h => hnot (hnative.mp h), fun hwaiting => ?_⟩
      cases hmoves with
      | stays | works => exact hwaits hwaiting
      | acquires hopen =>
          rw [hclosed] at hopen
          cases hopen
      | releases => exact release_waiting _ hwaiting
  | idle =>
      obtain ⟨hclosed, hnot, hzero⟩ := hcloser
      refine ⟨hclosing.trans hclosed, fun h => hnot (hnative.mp h), ?_⟩
      cases hmoves with
      | stays | works => exact hzero
      | acquires hopen =>
          rw [hclosed] at hopen
          cases hopen
      | releases hout => exact absurd hzero (h.counted.pos (hi.out hout)).ne'

theorem harmony : Harmony (turn (ι := ι)) Books Relies where
  common p c scene t h hp := by
    cases p with
    | call i => exact (h.after_call hp c).1
    | close => exact (h.after_close hp c rfl).1
  keeps p c scene t h hp := by
    cases p with
    | call i => exact (h.after_call hp c).2
    | close => exact (h.after_close hp c rfl).2.1
  spares p q c scene t u hne h hp hq := by
    cases p with
    | call i =>
        cases q with
        | call j => exact hq.after_call (fun hij => hne (congrArg Party.call hij)) c t
        | close => exact Closer.Relies.after_call h hp hq c
    | close =>
        cases q with
        | call j =>
            obtain ⟨-, -, htaken, hreturned⟩ := h.after_close hp c rfl
            exact OnRecord.append hq (congrArg (Multiset.count j) htaken)
              (congrArg (Multiset.count j) hreturned)
        | close => exact absurd rfl hne

/-- The state of a session in the middle of any calls. A call has its lease from the acquire to
the release, so also while its action is accepted and while it runs. -/
structure Leased (w : World GatewaySession (Event ι) (Party.State (ι := ι))) : Prop where
  closed : .nativeClosing ∈ w.scene.record →
    w.scene.shared.calls = 0 ∧ ∀ i, Caller.lease (w.own (.call i)) ≠ .out
  last : w.scene.record.Pairwise fun a b => a = .nativeClosing → b = .nativeClosed
  nonneg : 0 ≤ w.scene.shared.calls
  counted : ∀ i, Caller.lease (w.own (.call i)) = .out → 0 < w.scene.shared.calls
  settled : (∀ i, Caller.lease (w.own (.call i)) ≠ .out) → w.scene.shared.calls = 0
  matched : ∀ i, OnRecord w.scene.record i (Caller.lease (w.own (.call i)))
  /-- `close` is left waiting only for a call that has its lease. -/
  waits : w.own .close = Closer.awaiting → w.scene.shared.waiting = true →
    ∃ i, Caller.lease (w.own (.call i)) = .out

theorem Lease.eq_out_of_lt {lease : Lease} (h : lease.returned < lease.taken) : lease = .out := by
  cases lease with
  | out => rfl
  | none | back => exact absurd h (lt_irrefl _)

theorem Books.leased {w : World GatewaySession (Event ι) (Party.State (ι := ι))}
    (h : Books w.scene) (hown : ∀ p, Relies p w.scene (w.own p)) : Leased w := by
  have hcall : ∀ i, OnRecord w.scene.record i (Caller.lease (w.own (.call i))) :=
    fun i => hown (.call i)
  have hcounted : ∀ i, Caller.lease (w.own (.call i)) = .out → 0 < w.scene.shared.calls :=
    fun i hout => h.counted.pos ((hcall i).out hout)
  have hout : w.scene.shared.calls ≠ 0 → ∃ i, Caller.lease (w.own (.call i)) = .out := by
    intro hcalls
    obtain ⟨i, hi⟩ := h.counted.exists_out hcalls
    rw [(hcall i).taken, (hcall i).returned] at hi
    exact ⟨i, Lease.eq_out_of_lt hi⟩
  refine ⟨fun hnative => ⟨(h.native hnative).2, fun i hi => ?_⟩, h.last, h.counted.nonneg, hcounted,
    fun hnone => ?_, hcall, fun hphase hwaiting => ?_⟩
  · exact absurd (h.native hnative).2 (hcounted i hi).ne'
  · by_contra hcalls
    obtain ⟨i, hi⟩ := hout hcalls
    exact hnone i hi
  · have hclose : Closer.Relies w.scene (w.own .close) := hown .close
    rw [hphase] at hclose
    exact hout (hclose.2.2 hwaiting)

/-- In whatever order the calls and `close` take their turns: nothing has a lease from the moment
at which the handle is being closed; a lease is given back once; and `calls` counts the leases. -/
theorem handle_leased (kind : ι → Kind) (steps : List (Party ι × Chance)) :
    Leased ((init kind).run turn steps) := by
  have hinit : ∀ p, Relies p (init kind).scene ((init kind).own p) := by
    intro p
    cases p with
    | call i => exact ⟨rfl, rfl⟩
    | close => exact List.not_mem_nil
  obtain ⟨hbooks, hown⟩ := harmony.run (w := init kind)
    ⟨.zero, fun h => absurd h List.not_mem_nil, .nil⟩ hinit steps
  exact hbooks.leased hown

end
end GatewaySession
end IdfRemote
