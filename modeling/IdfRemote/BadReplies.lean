import IdfRemote.Renegotiation

/-!
# Console output and bad replies

One read may bring console output beside replies, events and damaged frames. The loop
of `process` gives out the console output of the read as it goes, and leaves when the
reply that it waits for is not JSON. What it has decoded and not yet looked at is then
lost.
-/
namespace IdfRemote.Application.Session
open Mux

/-- The console output that a decoded item brings to a session. -/
def consoleText (nonce : UInt64) : Decoded → List UInt8
  | .raw data => data
  | .frame frame => if frame.session = nonce ∧ frame.kind = console then frame.payload else []
  | .corrupt => []

/-- The bytes that an output shows on the console. -/
def shown : Output → List UInt8
  | .console data => data
  | _ => []

/-- A frame that is taken for the expected reply. -/
def isReply (s : Session) (expected : Expected) : Decoded → Bool
  | .frame frame => frame.session = s.nonce && expects expected frame
  | _ => false

/-- A reply that cannot be read. -/
def isBadReply (serde : Serde) (s : Session) (expected : Expected) : Decoded → Bool
  | .frame frame =>
      (frame.session = s.nonce && expects expected frame) && !(serde.fromSlice frame.payload).isOk
  | _ => false

/-- No console output stands behind a bad reply, and none is itself taken for a reply. -/
structure Unspoilt (serde : Serde) (s : Session) (expected : Expected) (ds : List Decoded) :
    Prop where
  behind : ds.Pairwise fun d e =>
    s.isBadReply serde expected d = true → consoleText s.nonce e = []
  reply : ∀ d ∈ ds, s.isReply expected d = true → consoleText s.nonce d = []

section
variable (serde : Serde) (s : Session) (expected : Expected)

theorem unspoilt_cons (d : Decoded) (ds : List Decoded) :
    s.Unspoilt serde expected (d :: ds) ↔
      (s.isBadReply serde expected d = true → ds.flatMap (consoleText s.nonce) = []) ∧
      (s.isReply expected d = true → consoleText s.nonce d = []) ∧
      s.Unspoilt serde expected ds := by
  constructor
  · rintro ⟨hbehind, hreply⟩
    obtain ⟨hfirst, hrest⟩ := List.pairwise_cons.mp hbehind
    refine ⟨fun hbad => List.flatMap_eq_nil_iff.mpr fun e he => hfirst e he hbad,
      hreply d List.mem_cons_self, hrest, fun e he => hreply e (List.mem_cons_of_mem d he)⟩
  · rintro ⟨hfirst, hhere, hrest, hreply⟩
    refine ⟨List.pairwise_cons.mpr ⟨fun e he hbad => ?_, hrest⟩, fun e he => ?_⟩
    · exact List.flatMap_eq_nil_iff.mp (hfirst hbad) e he
    · rcases List.mem_cons.mp he with rfl | he
      · exact hhere
      · exact hreply e he

/-- One turn of the loop. A bad reply ends it. -/
theorem shown_items_cons (d : Decoded) (ds : List Decoded) (reply : Option (Result Value))
    (reset : Bool) :
    (s.isBadReply serde expected d = true ∧ s.isReply expected d = true ∧
      (s.items serde expected (d :: ds) reply reset).1.flatMap shown = []) ∨
    s.isBadReply serde expected d = false ∧ ∃ reply' reset',
      (s.items serde expected (d :: ds) reply reset).1.flatMap shown =
        (if s.isReply expected d then [] else consoleText s.nonce d) ++
          (s.items serde expected ds reply' reset').1.flatMap shown := by
  cases d with
  | raw data =>
      exact .inr ⟨rfl, reply, reset || s.valid, by simp [items, shown, isReply, consoleText]⟩
  | corrupt => exact .inr ⟨rfl, reply, reset, by simp [items, shown, isReply, consoleText]⟩
  | frame frame =>
      by_cases hsession : frame.session = s.nonce
      · by_cases hexpects : expects expected frame = true
        · cases hjson : serde.fromSlice frame.payload with
          | error e =>
              refine .inl ⟨?_, ?_, ?_⟩ <;>
                simp [isBadReply, isReply, items, hsession, hexpects, hjson, Except.isOk,
                  Except.toBool]
          | ok value =>
              refine .inr ⟨by simp [isBadReply, hjson, Except.isOk, Except.toBool], some
                (if frame.kind = Mux.error then
                  .error (.msg ("application error: " ++ serde.display value)) else .ok value),
                reset, ?_⟩
              simp [items, hsession, hexpects, hjson, isReply]
        · -- No reply: only a CONSOLE frame is shown.
          refine .inr ⟨by simp [isBadReply, hexpects], reply, reset, ?_⟩
          by_cases hconsole : frame.kind = console
          · simp [items, hsession, hexpects, hconsole, shown, isReply, consoleText]
          · by_cases hevent : frame.kind = Mux.event
            · cases hjson : serde.fromSlice frame.payload <;>
                simp [items, hsession, hexpects, hevent, hjson, shown, isReply, consoleText,
                  (by decide : Mux.event ≠ console)]
            · simp [items, hsession, hexpects, hconsole, hevent, isReply, consoleText]
      · exact .inr ⟨by simp [isBadReply, hsession], reply, reset,
          by simp [items, hsession, isReply, consoleText]⟩

theorem length_shown_le (ds : List Decoded) (reply : Option (Result Value)) (reset : Bool) :
    ((s.items serde expected ds reply reset).1.flatMap shown).length ≤
      (ds.flatMap (consoleText s.nonce)).length := by
  induction ds generalizing reply reset with
  | nil => rfl
  | cons d ds ih =>
      rw [List.flatMap_cons, List.length_append]
      rcases s.shown_items_cons serde expected d ds reply reset with
          ⟨-, -, hshown⟩ | ⟨-, reply', reset', hshown⟩
      · rw [hshown]
        exact Nat.zero_le _
      · have hrest := ih reply' reset'
        rw [hshown, List.length_append]
        split_ifs
        · exact hrest.trans (Nat.le_add_left _ _) |>.trans' (by simp)
        · exact Nat.add_le_add_left hrest _

theorem unspoilt_of_silent {ds : List Decoded} (h : ds.flatMap (consoleText s.nonce) = []) :
    s.Unspoilt serde expected ds where
  behind := List.pairwise_of_forall_mem_list fun _ _ e he _ => List.flatMap_eq_nil_iff.mp h e he
  reply d hd _ := List.flatMap_eq_nil_iff.mp h d hd

theorem shown_items_iff (ds : List Decoded) (reply : Option (Result Value)) (reset : Bool) :
    (s.items serde expected ds reply reset).1.flatMap shown = ds.flatMap (consoleText s.nonce) ↔
      s.Unspoilt serde expected ds := by
  induction ds generalizing reply reset with
  | nil => exact ⟨fun _ => s.unspoilt_of_silent serde expected rfl, fun _ => rfl⟩
  | cons d ds ih =>
      rw [unspoilt_cons, List.flatMap_cons]
      rcases s.shown_items_cons serde expected d ds reply reset with
          ⟨hbad, hreply, hshown⟩ | ⟨hbad, reply', reset', hshown⟩
      · -- Nothing more is shown, so there must be nothing more to show.
        rw [hshown, eq_comm, List.append_eq_nil_iff]
        constructor
        · rintro ⟨hhere, hrest⟩
          exact ⟨fun _ => hrest, fun _ => hhere, s.unspoilt_of_silent serde expected hrest⟩
        · rintro ⟨hrest, hhere, -⟩
          exact ⟨hhere hreply, hrest hbad⟩
      · rw [hshown]
        cases hreply : s.isReply expected d with
        | false =>
            rw [if_neg Bool.false_ne_true, List.append_cancel_left_eq, ih]
            exact ⟨fun h => ⟨by simp [hbad], by simp, h⟩, fun h => h.2.2⟩
        | true =>
            rw [if_pos rfl, List.nil_append]
            constructor
            · intro hall
              have hle := s.length_shown_le serde expected ds reply' reset'
              rw [hall, List.length_append] at hle
              have hnil : consoleText s.nonce d = [] := List.eq_nil_of_length_eq_zero (by omega)
              rw [hnil, List.nil_append, ih] at hall
              exact ⟨by simp [hbad], fun _ => hnil, hall⟩
            · rintro ⟨-, hhere, hrest⟩
              rw [hhere rfl, List.nil_append]
              exact (ih reply' reset').mpr hrest

end

/-- A read shows all of its console output exactly when no bad reply stands before a part
of it, and no part of it is taken for the reply. -/
theorem console_kept_iff (serde : Serde) (s : Session) (expected : Expected)
    (bytes : List UInt8) :
    (s.process serde bytes expected).2.1.flatMap shown =
        (s.decoder.feed bytes).2.flatMap (consoleText s.nonce) ↔
      s.Unspoilt serde expected (s.decoder.feed bytes).2 := by
  rw [process_outputs]
  exact s.shown_items_iff serde expected _ none false

def waiting : Session := { nonce := 1, valid := true }

def badReply : Frame := { kind := response, session := 1, request := 1, payload := [0x78] }

def greeting : Frame := { kind := console, session := 1, request := 0, payload := [0x68, 0x69] }

/-- Its only JSON text is the empty one. -/
def strictSerde : Serde where
  toVec _ := .ok []
  fromSlice bytes := if bytes = [] then .ok .null else .error (.msg "expected value")
  display _ := "null"

/-- Two frames in one read, and the second one is never shown. -/
theorem console_lost :
    (waiting.process strictSerde (badReply.wire ++ greeting.wire) (some (response, 1))).2.1.flatMap
        shown ≠
      (waiting.decoder.feed (badReply.wire ++ greeting.wire)).2.flatMap
        (consoleText waiting.nonce) := by
  decide +kernel

end IdfRemote.Application.Session
