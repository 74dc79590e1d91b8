import Mathlib.Data.Int.Notation
import Mathlib.Data.List.Basic

/-!
# The firmware's gate before its JSON parser

`compatible_json_text` runs over the bytes of a request once. What it is for is said
with a scanner that knows where string literals begin and end, which byte an escape
takes and how many brackets are open: no zero byte, no escaped NUL, and a bounded
nesting. The gate skips the byte behind an escape character without looking at it.
-/
namespace IdfRemote.Firmware

def quote : UInt8 := 0x22
def backslash : UInt8 := 0x5c

/-- The text `u0000`. -/
def nulDigits : List UInt8 := [0x75, 0x30, 0x30, 0x30, 0x30]

def opening (b : UInt8) : Prop := b = 0x5b ∨ b = 0x7b
def closing (b : UInt8) : Prop := b = 0x5d ∨ b = 0x7d

instance (b : UInt8) : Decidable (opening b) := inferInstanceAs (Decidable (_ ∨ _))
instance (b : UInt8) : Decidable (closing b) := inferInstanceAs (Decidable (_ ∨ _))

/-- The loop of `compatible_json_text` on the bytes from `text + i` on. -/
def compatibleJsonLoop : Bool → ℕ → List UInt8 → Bool
  | string, depth, [] => !string && depth = 0
  | string, depth, b :: rest =>
      if b = 0 then false
      else if string ∧ b = backslash then
        if rest.take 5 = nulDigits then false
        else
          match rest with
          | [] => compatibleJsonLoop string depth []
          | _ :: rest => compatibleJsonLoop string depth rest
      else
        let string := if b = quote then !string else string
        if string then compatibleJsonLoop string depth rest
        else if opening b then
          if 18 < depth + 1 then false else compatibleJsonLoop string (depth + 1) rest
        else if closing b then
          if depth = 0 then false else compatibleJsonLoop string (depth - 1) rest
        else compatibleJsonLoop string depth rest

def compatibleJsonText (text : List UInt8) : Bool := compatibleJsonLoop false 0 text

/-- Where a byte stands: outside string literals, inside one, or behind an escape
character inside one. -/
inductive Lex
  | outside
  | inside
  | escaped
deriving DecidableEq, Repr

def Lex.next : Lex → UInt8 → Lex
  | .outside, b => if b = quote then .inside else .outside
  | .inside, b => if b = quote then .outside else if b = backslash then .escaped else .inside
  | .escaped, _ => .inside

/-- What is known in front of a byte: its place and the brackets open outside string
literals. -/
structure Scan where
  lex : Lex := .outside
  depth : ℤ := 0
deriving DecidableEq, Repr

def Scan.next (s : Scan) (b : UInt8) : Scan where
  lex := s.lex.next b
  depth :=
    if s.lex ≠ .outside then s.depth
    else if opening b then s.depth + 1
    else if closing b then s.depth - 1
    else s.depth

/-- The scanner in front of position `i`. -/
def Scan.at (s : Scan) (text : List UInt8) (i : ℕ) : Scan := (text.take i).foldl Scan.next s

/-- The text is free of what the gate is there to reject. -/
structure Clean (text : List UInt8) : Prop where
  zero : 0 ∉ text
  escape : ∀ i, (Scan.at {} text i).lex = .inside →
    (text.drop i).take 6 ≠ backslash :: nulDigits
  nesting : ∀ i, (Scan.at {} text i).depth ≤ 18

/-- The text from a position on, as the gate judges it. -/
structure Acceptable (s : Scan) (text : List UInt8) : Prop where
  zero : ∀ i, text[i]? = some 0 → (s.at text i).lex = .escaped
  escape : ∀ i, (s.at text i).lex = .inside → (text.drop i).take 6 ≠ backslash :: nulDigits
  nesting : ∀ i, 0 ≤ (s.at text i).depth ∧ (s.at text i).depth ≤ 18
  closed : text.foldl Scan.next s = {}

theorem acceptable_nil (s : Scan) : Acceptable s [] ↔ s = {} := by
  constructor
  · intro h
    exact h.closed
  · rintro rfl
    exact ⟨by simp, by simp [Scan.at], by simp [Scan.at], rfl⟩

theorem acceptable_cons (s : Scan) (b : UInt8) (text : List UInt8) :
    Acceptable s (b :: text) ↔
      (b = 0 → s.lex = .escaped) ∧
      (s.lex = .inside → b = backslash → text.take 5 ≠ nulDigits) ∧
      (0 ≤ s.depth ∧ s.depth ≤ 18) ∧ Acceptable (s.next b) text := by
  constructor
  · intro h
    refine ⟨fun hb => h.zero 0 (by simp [hb]), fun hs hb => ?_, h.nesting 0,
      fun i => h.zero (i + 1), fun i => h.escape (i + 1), fun i => h.nesting (i + 1), h.closed⟩
    have := h.escape 0 hs
    simpa [hb] using this
  · rintro ⟨hzero, hescape, hnesting, h⟩
    refine ⟨fun i => ?_, fun i => ?_, fun i => ?_, h.closed⟩
    · cases i with
      | zero => exact fun hb => hzero (by simpa using hb)
      | succ i => exact h.zero i
    · cases i with
      | zero =>
          intro hs heq
          simp only [List.drop_zero, List.take_succ_cons, List.cons.injEq] at heq
          exact hescape hs heq.1 heq.2
      | succ i => exact h.escape i
    · cases i with
      | zero => exact hnesting
      | succ i => exact h.nesting i

/-- The place the gate's flag stands for. -/
def lexOf (string : Bool) : Lex := if string then .inside else .outside

/-- A byte outside an escape moves the scanner as it moves the variables of the loop. -/
theorem next_lexOf {string : Bool} {b : UInt8} (h : ¬ (string = true ∧ b = backslash))
    (depth : ℤ) :
    Scan.next { lex := lexOf string, depth } b =
      { lex := lexOf (if b = quote then !string else string)
        depth :=
          if (if b = quote then !string else string) = true then depth
          else if opening b then depth + 1
          else if closing b then depth - 1
          else depth } := by
  have hopen : ¬ opening quote := by decide
  have hclose : ¬ closing quote := by decide
  cases string
  · by_cases hq : b = quote <;> simp [Scan.next, Lex.next, lexOf, hq, hopen, hclose]
  · have hb : b ≠ backslash := fun hb => h ⟨rfl, hb⟩
    by_cases hq : b = quote <;> simp [Scan.next, Lex.next, lexOf, hq, hb, hopen, hclose]

/-- Outside escapes and in front of a nonzero byte only the brackets matter. -/
theorem acceptable_cons_lexOf {string : Bool} {depth : ℕ} {b : UInt8} {rest : List UInt8}
    (hzero : b ≠ 0) (hescape : ¬ (string = true ∧ b = backslash)) (hdepth : depth ≤ 18) :
    Acceptable { lex := lexOf string, depth } (b :: rest) ↔
      Acceptable (Scan.next { lex := lexOf string, depth } b) rest := by
  rw [acceptable_cons]
  constructor
  · exact fun h => h.2.2.2
  · intro h
    have hrange : (0 : ℤ) ≤ depth ∧ (depth : ℤ) ≤ 18 := by omega
    refine ⟨fun hb => absurd hb hzero, fun hs hb => ?_, hrange, h⟩
    cases string
    · cases hs
    · exact absurd ⟨rfl, hb⟩ hescape

theorem acceptable_skip {depth : ℕ} {c : UInt8} {rest : List UInt8} (hdepth : depth ≤ 18)
    (hnul : (c :: rest).take 5 ≠ nulDigits) :
    Acceptable { lex := .inside, depth } (backslash :: c :: rest) ↔
      Acceptable { lex := .inside, depth } rest := by
  have hnext : Scan.next { lex := .inside, depth } backslash = { lex := .escaped, depth } := rfl
  have hskip : Scan.next { lex := .escaped, depth } c = { lex := .inside, depth } := rfl
  rw [acceptable_cons, hnext, acceptable_cons, hskip]
  constructor
  · exact fun h => h.2.2.2.2.2.2
  · intro h
    have hrange : (0 : ℤ) ≤ depth ∧ (depth : ℤ) ≤ 18 := by omega
    exact ⟨fun hb => absurd hb (by decide), fun _ _ => hnul, hrange, fun _ => rfl, nofun,
      hrange, h⟩

theorem Acceptable.depth_le {s : Scan} {text : List UInt8} (h : Acceptable s text) :
    s.depth ≤ 18 :=
  (h.nesting 0).2

theorem Acceptable.depth_nonneg {s : Scan} {text : List UInt8} (h : Acceptable s text) :
    0 ≤ s.depth :=
  (h.nesting 0).1

/-- The gate accepts what is acceptable, from every state of its loop. -/
theorem compatibleJsonLoop_iff (string : Bool) (depth : ℕ) (text : List UInt8)
    (hdepth : depth ≤ 18) :
    compatibleJsonLoop string depth text = true ↔
      Acceptable { lex := lexOf string, depth := depth } text := by
  fun_induction compatibleJsonLoop string depth text with
  | case1 string depth =>
      rw [acceptable_nil]
      cases string <;> simp [lexOf]
  | case2 string depth rest =>
      rw [acceptable_cons]
      cases string <;> simp [lexOf]
  | case3 string depth b rest hzero hescape hnul =>
      rw [acceptable_cons]
      simp [hescape.1, hescape.2, hnul, lexOf]
  | case4 string depth b hzero hescape hnul ih =>
      obtain ⟨rfl, rfl⟩ := hescape
      rw [acceptable_cons, acceptable_nil]
      simp [compatibleJsonLoop, lexOf, Scan.next, Lex.next, backslash, quote]
  | case5 string depth b hzero hescape c rest hnul ih =>
      obtain ⟨rfl, rfl⟩ := hescape
      exact (ih hdepth).trans (acceptable_skip hdepth hnul).symm
  | case6 string depth b rest hzero hescape string' hstring ih =>
      rw [acceptable_cons_lexOf hzero hescape hdepth, next_lexOf hescape, if_pos hstring]
      exact ih hdepth
  | case7 string depth b rest hzero hescape string' hstring hopen hdeep =>
      rw [acceptable_cons_lexOf hzero hescape hdepth, next_lexOf hescape, if_neg hstring,
        if_pos hopen]
      have hlimit : ¬ ((depth : ℤ) + 1 ≤ 18) := by omega
      simpa using fun h => hlimit h.depth_le
  | case8 string depth b rest hzero hescape string' hstring hopen hdeep ih =>
      rw [acceptable_cons_lexOf hzero hescape hdepth, next_lexOf hescape, if_neg hstring,
        if_pos hopen]
      exact ih (by omega)
  | case9 string b rest hzero hescape string' hstring hopen hclose =>
      rw [acceptable_cons_lexOf hzero hescape hdepth, next_lexOf hescape, if_neg hstring,
        if_neg hopen, if_pos hclose]
      have hlimit : ¬ (0 ≤ ((0 : ℕ) : ℤ) - 1) := by omega
      simpa using fun h => hlimit h.depth_nonneg
  | case10 string depth b rest hzero hescape string' hstring hopen hclose hdeep ih =>
      rw [acceptable_cons_lexOf hzero hescape hdepth, next_lexOf hescape, if_neg hstring,
        if_neg hopen, if_pos hclose]
      have hless : ((depth - 1 : ℕ) : ℤ) = (depth : ℤ) - 1 := by omega
      rw [ih (by omega), hless]
  | case11 string depth b rest hzero hescape string' hstring hopen hclose ih =>
      rw [acceptable_cons_lexOf hzero hescape hdepth, next_lexOf hescape, if_neg hstring,
        if_neg hopen, if_neg hclose]
      exact ih hdepth

theorem compatibleJsonText_iff (text : List UInt8) :
    compatibleJsonText text = true ↔ Acceptable {} text :=
  compatibleJsonLoop_iff false 0 text (by omega)

/-- The byte that the gate skips is zero. -/
def EscapedZero (text : List UInt8) : Prop :=
  ∃ i, (Scan.at {} text i).lex = .escaped ∧ text[i]? = some 0

/-- The gate keeps out what it is there to keep out unless it skips a zero byte in a
text that it accepts. -/
theorem compatible_sound_iff (text : List UInt8) :
    (compatibleJsonText text = true → Clean text) ↔
      ¬ (Acceptable {} text ∧ EscapedZero text) := by
  rw [compatibleJsonText_iff]
  constructor
  · rintro hsound ⟨haccept, i, -, hi⟩
    exact (hsound haccept).zero (List.mem_of_getElem? hi)
  · intro hnone haccept
    refine ⟨fun hmem => ?_, haccept.escape, fun i => (haccept.nesting i).2⟩
    obtain ⟨i, hi⟩ := List.getElem?_of_mem hmem
    exact hnone ⟨haccept, i, haccept.zero i hi, hi⟩

/-- A string literal of one escaped zero byte. -/
theorem compatible_escaped_zero :
    compatibleJsonText [quote, backslash, 0, quote] = true ∧
      ¬ Clean [quote, backslash, 0, quote] := by
  refine ⟨by decide, fun h => ?_⟩
  exact h.zero (by decide)

end IdfRemote.Firmware
