import IdfRemote.Application
import IdfRemote.JsonGate

/-!
# Compact JSON text

The text that the host's JSON library writes for a command: no spaces, and the
escapes of the standard. The text of a number is a parameter. Every piece of such a
text takes the loop of the firmware's gate back to where it was, and a container
opens one bracket more than its depth, behind the one of the command itself; so the
host's limit of 16 levels is the firmware's limit of 18 brackets.
-/
namespace IdfRemote.JsonText
open Application Firmware

def utf8 (text : String) : List UInt8 := text.toList.flatMap String.utf8EncodeChar

def hexDigits : List UInt8 :=
  [0x30, 0x31, 0x32, 0x33, 0x34, 0x35, 0x36, 0x37, 0x38, 0x39, 0x61, 0x62, 0x63, 0x64, 0x65, 0x66]

def hexDigit (n : ℕ) : UInt8 := hexDigits.getD n 0

/-- The escape of one byte of a string in UTF-8. -/
def escapedByte (b : UInt8) : List UInt8 :=
  if b = quote ∨ b = backslash then [backslash, b]
  else if b = 0x08 then [backslash, 0x62]
  else if b = 0x09 then [backslash, 0x74]
  else if b = 0x0a then [backslash, 0x6e]
  else if b = 0x0c then [backslash, 0x66]
  else if b = 0x0d then [backslash, 0x72]
  else if b < 0x20 then
    [backslash, 0x75, 0x30, 0x30, hexDigit (b.toNat / 16), hexDigit (b.toNat % 16)]
  else [b]

def stringText (text : String) : List UInt8 :=
  quote :: (utf8 text).flatMap escapedByte ++ [quote]

/-- The bytes in the text of a number. -/
def numberBytes : List UInt8 := utf8 "0123456789+-.eE"

section Serialise
variable (numberText : Number → List UInt8)

mutual

def valueText : Value → List UInt8
  | .null => utf8 "null"
  | .bool true => utf8 "true"
  | .bool false => utf8 "false"
  | .number n => numberText n
  | .string text => stringText text
  | .array values => utf8 "[" ++ valuesText values ++ utf8 "]"
  | .object fields => utf8 "\x7b" ++ fieldsText fields ++ utf8 "\x7d"

def valuesText : List Value → List UInt8
  | [] => []
  | value :: values =>
      valueText value ++ (if values.isEmpty then [] else utf8 ",") ++ valuesText values

def fieldsText : List (String × Value) → List UInt8
  | [] => []
  | (key, value) :: fields =>
      stringText key ++ utf8 ":" ++ valueText value ++
        (if fields.isEmpty then [] else utf8 ",") ++ fieldsText fields

end

/-- The two members of a command, in the order of its declaration. -/
def commandText (command : Command) : List UInt8 :=
  utf8 "\x7b" ++ stringText "method" ++ utf8 ":" ++ stringText command.method ++ utf8 "," ++
    stringText "params" ++ utf8 ":" ++ valueText numberText command.params ++ utf8 "\x7d"

end Serialise

/-- The gate reads `text` and goes on with what follows it in another state of its loop. -/
def Passes (string : Bool) (depth : ℕ) (text : List UInt8) (string' : Bool) (depth' : ℕ) : Prop :=
  ∀ rest, compatibleJsonLoop string depth (text ++ rest) = compatibleJsonLoop string' depth' rest

theorem passes_nil (string : Bool) (depth : ℕ) : Passes string depth [] string depth :=
  fun _ => rfl

theorem Passes.append {s₁ s₂ s₃ : Bool} {d₁ d₂ d₃ : ℕ} {xs ys : List UInt8}
    (hx : Passes s₁ d₁ xs s₂ d₂) (hy : Passes s₂ d₂ ys s₃ d₃) :
    Passes s₁ d₁ (xs ++ ys) s₃ d₃ := by
  intro rest
  rw [List.append_assoc, hx, hy]

theorem passes_forall {string : Bool} {depth : ℕ} {text : List UInt8}
    (h : ∀ b ∈ text, Passes string depth [b] string depth) :
    Passes string depth text string depth := by
  induction text with
  | nil => exact passes_nil string depth
  | cons b text ih =>
      exact (h b List.mem_cons_self).append (ih fun c hc => h c (List.mem_cons_of_mem b hc))

/-- What the gate does with one byte outside an escape. -/
theorem loop_cons {string : Bool} {depth : ℕ} {b : UInt8} {rest : List UInt8}
    (hzero : b ≠ 0) (hescape : ¬ (string = true ∧ b = backslash)) :
    compatibleJsonLoop string depth (b :: rest) =
      if (if b = quote then !string else string) = true then
        compatibleJsonLoop (if b = quote then !string else string) depth rest
      else if opening b then
        if 18 < depth + 1 then false
        else compatibleJsonLoop (if b = quote then !string else string) (depth + 1) rest
      else if closing b then
        if depth = 0 then false
        else compatibleJsonLoop (if b = quote then !string else string) (depth - 1) rest
      else compatibleJsonLoop (if b = quote then !string else string) depth rest := by
  rw [compatibleJsonLoop.eq_def]
  simp only [if_neg hzero, if_neg hescape]

/-- A byte that means nothing outside string literals. -/
def Neutral (b : UInt8) : Prop := b ≠ 0 ∧ b ≠ quote ∧ ¬ opening b ∧ ¬ closing b

instance (b : UInt8) : Decidable (Neutral b) := inferInstanceAs (Decidable (_ ∧ _ ∧ _ ∧ _))

theorem passes_neutral {b : UInt8} (h : Neutral b) (depth : ℕ) :
    Passes false depth [b] false depth := by
  obtain ⟨hzero, hquote, hopen, hclose⟩ := h
  intro rest
  rw [List.cons_append, loop_cons hzero (by simp)]
  simp [hquote, hopen, hclose]

theorem passes_plain {b : UInt8} (hzero : b ≠ 0) (hquote : b ≠ quote) (hslash : b ≠ backslash)
    (depth : ℕ) : Passes true depth [b] true depth := by
  intro rest
  rw [List.cons_append, loop_cons hzero (by simp [hslash])]
  simp [hquote]

theorem passes_quote (string : Bool) (depth : ℕ) :
    Passes string depth [quote] (!string) depth := by
  have hopen : ¬ opening quote := by decide
  have hclose : ¬ closing quote := by decide
  intro rest
  rw [List.cons_append, loop_cons (by decide) (by simp [quote, backslash])]
  cases string <;> simp [hopen, hclose]

theorem passes_open {b : UInt8} (h : opening b) {depth : ℕ} (hdepth : depth < 18) :
    Passes false depth [b] false (depth + 1) := by
  have hquote : b ≠ quote := by rcases h with rfl | rfl <;> decide
  have hzero : b ≠ 0 := by rcases h with rfl | rfl <;> decide
  intro rest
  rw [List.cons_append, loop_cons hzero (by simp)]
  simp [hquote, h, show ¬ 18 < depth + 1 by omega]

theorem passes_close {b : UInt8} (h : closing b) (depth : ℕ) :
    Passes false (depth + 1) [b] false depth := by
  have hquote : b ≠ quote := by rcases h with rfl | rfl <;> decide
  have hzero : b ≠ 0 := by rcases h with rfl | rfl <;> decide
  have hopen : ¬ opening b := by rcases h with rfl | rfl <;> decide
  intro rest
  rw [List.cons_append, loop_cons hzero (by simp)]
  simp [hquote, h, hopen]

/-- An escape that is not the one of NUL takes its second byte along. -/
theorem passes_escape (c : UInt8) (text : List UInt8) (depth : ℕ)
    (hnul : ∀ rest, (c :: text ++ rest).take 5 ≠ nulDigits)
    (htext : Passes true depth text true depth) :
    Passes true depth (backslash :: c :: text) true depth := by
  intro rest
  rw [List.cons_append, compatibleJsonLoop.eq_def]
  simp only [if_neg (show backslash ≠ 0 by decide), and_self, if_true, if_neg (hnul rest)]
  exact htext rest

theorem hexDigit_plain : ∀ n < 16,
    hexDigit n ≠ 0 ∧ hexDigit n ≠ quote ∧ hexDigit n ≠ backslash ∧
      (hexDigit n = 0x30 → n = 0) := by
  decide

theorem passes_escapedByte {b : UInt8} (hb : b ≠ 0) (depth : ℕ) :
    Passes true depth (escapedByte b) true depth := by
  unfold escapedByte
  split_ifs with hself h₁ h₂ h₃ h₄ h₅ hcontrol
  · apply passes_escape b [] depth _ (passes_nil _ _)
    rcases hself with rfl | rfl <;> simp [nulDigits, quote, backslash]
  · exact passes_escape 0x62 [] depth (by simp [nulDigits]) (passes_nil _ _)
  · exact passes_escape 0x74 [] depth (by simp [nulDigits]) (passes_nil _ _)
  · exact passes_escape 0x6e [] depth (by simp [nulDigits]) (passes_nil _ _)
  · exact passes_escape 0x66 [] depth (by simp [nulDigits]) (passes_nil _ _)
  · exact passes_escape 0x72 [] depth (by simp [nulDigits]) (passes_nil _ _)
  · -- Both digits are zero only for the byte that the host does not send.
    have hlt : b.toNat < 256 := b.toNat_lt
    have hhigh := hexDigit_plain (b.toNat / 16) (by omega)
    have hlow := hexDigit_plain (b.toNat % 16) (by omega)
    apply passes_escape
    · intro rest heq
      simp only [List.cons_append, List.take_succ_cons, List.take_zero, nulDigits,
        List.cons.injEq, and_true, true_and] at heq
      have hzero : b.toNat = 0 := by
        have := hhigh.2.2.2 heq.1
        have := hlow.2.2.2 heq.2
        omega
      exact hb (UInt8.toNat_inj.mp hzero)
    · apply passes_forall
      intro c hc
      simp only [List.mem_cons, List.not_mem_nil, or_false] at hc
      rcases hc with rfl | rfl | rfl | rfl
      · exact passes_plain (by decide) (by decide) (by decide) depth
      · exact passes_plain (by decide) (by decide) (by decide) depth
      · exact passes_plain hhigh.1 hhigh.2.1 hhigh.2.2.1 depth
      · exact passes_plain hlow.1 hlow.2.1 hlow.2.2.1 depth
  · obtain ⟨hquote, hslash⟩ := not_or.mp hself
    exact passes_plain hb hquote hslash depth

theorem zero_not_mem_utf8 {text : String} (h : nul ∉ text.toList) : 0 ∉ utf8 text := by
  intro hmem
  obtain ⟨c, hc, hzero⟩ := List.mem_flatMap.mp hmem
  have hnul : c = nul := by
    have hval : c.toNat = c.val.toNat := rfl
    have hzeroChar : nul.toNat = 0 := rfl
    apply Char.toNat_inj.mp
    unfold String.utf8EncodeChar at hzero
    dsimp only at hzero
    split_ifs at hzero <;>
      simp only [List.mem_cons, List.not_mem_nil, or_false, ← UInt8.toNat_inj,
        UInt8.toNat_ofNat'] at hzero <;> simp at hzero <;> omega
  exact h (hnul ▸ hc)

theorem passes_stringText {text : String} (h : nul ∉ text.toList) (depth : ℕ) :
    Passes false depth (stringText text) false depth := by
  have hzero := zero_not_mem_utf8 h
  have hbytes : Passes true depth ((utf8 text).flatMap escapedByte) true depth := by
    generalize utf8 text = bytes at hzero
    induction bytes with
    | nil => exact passes_nil true depth
    | cons b bytes ih =>
        rw [List.mem_cons, not_or] at hzero
        exact (passes_escapedByte (Ne.symm hzero.1) depth).append (ih hzero.2)
  exact ((passes_quote false depth).append hbytes).append (passes_quote true depth)

theorem passes_utf8_neutral {text : String} (h : ∀ b ∈ utf8 text, Neutral b) (depth : ℕ) :
    Passes false depth (utf8 text) false depth :=
  passes_forall fun b hb => passes_neutral (h b hb) depth

theorem passes_comma (last : Bool) (depth : ℕ) :
    Passes false depth (if last then [] else utf8 ",") false depth := by
  cases last
  · exact passes_utf8_neutral (by decide +kernel) depth
  · exact passes_nil false depth

section Values
variable {numberText : Number → List UInt8}

mutual

/-- A value at a permitted depth passes inside as many brackets and one more. -/
theorem passes_valueText (hnumber : ∀ n, ∀ b ∈ numberText n, b ∈ numberBytes) (value : Value)
    (depth : ℕ) (h : validateJson value depth = .ok ()) :
    Passes false (depth + 1) (valueText numberText value) false (depth + 1) := by
  cases value with
  | null => exact passes_utf8_neutral (by decide +kernel) _
  | bool b => cases b <;> exact passes_utf8_neutral (by decide +kernel) _
  | number n =>
      apply passes_forall
      intro b hb
      have hneutral : ∀ c ∈ numberBytes, Neutral c := by decide +kernel
      exact passes_neutral (hneutral b (hnumber n b hb)) _
  | string text =>
      rw [validateJson] at h
      obtain ⟨-, h⟩ := ensure_bind h
      exact passes_stringText (by simpa using h) _
  | array values =>
      rw [validateJson] at h
      obtain ⟨hdepth, h⟩ := ensure_bind h
      have hlt : depth + 1 < 18 := by
        have := of_decide_eq_true hdepth
        omega
      exact ((passes_open (.inl rfl) hlt).append
        (passes_valuesText hnumber values (depth + 1) h)).append (passes_close (.inl rfl) _)
  | object fields =>
      rw [validateJson] at h
      obtain ⟨hdepth, h⟩ := ensure_bind h
      have hlt : depth + 1 < 18 := by
        have := of_decide_eq_true hdepth
        omega
      exact ((passes_open (.inr rfl) hlt).append
        (passes_fieldsText hnumber fields (depth + 1) h)).append (passes_close (.inr rfl) _)

theorem passes_valuesText (hnumber : ∀ n, ∀ b ∈ numberText n, b ∈ numberBytes)
    (values : List Value) (depth : ℕ) (h : validateValues values depth = .ok ()) :
    Passes false (depth + 1) (valuesText numberText values) false (depth + 1) := by
  cases values with
  | nil => exact passes_nil _ _
  | cons value values =>
      rw [validateValues] at h
      obtain ⟨_, hvalue, h⟩ := result_bind h
      exact ((passes_valueText hnumber value depth hvalue).append (passes_comma _ _)).append
        (passes_valuesText hnumber values depth h)

theorem passes_fieldsText (hnumber : ∀ n, ∀ b ∈ numberText n, b ∈ numberBytes)
    (fields : List (String × Value)) (depth : ℕ) (h : validateFields fields depth = .ok ()) :
    Passes false (depth + 1) (fieldsText numberText fields) false (depth + 1) := by
  cases fields with
  | nil => exact passes_nil _ _
  | cons field fields =>
      obtain ⟨key, value⟩ := field
      rw [validateFields] at h
      obtain ⟨hkey, h⟩ := ensure_bind h
      obtain ⟨_, hvalue, h⟩ := result_bind h
      have hcolon : Passes false (depth + 1) (utf8 ":") false (depth + 1) :=
        passes_utf8_neutral (by decide +kernel) _
      exact ((((passes_stringText (by simpa using hkey) _).append hcolon).append
        (passes_valueText hnumber value depth hvalue)).append (passes_comma _ _)).append
        (passes_fieldsText hnumber fields depth h)

end

end Values

/-- The firmware's gate accepts every request that the host sends. -/
theorem payload_passes_gate (serde : Serde) (numberText : Number → List UInt8)
    (hserde : ∀ command, serde.toVec command = .ok (commandText numberText command))
    (hnumber : ∀ n, ∀ b ∈ numberText n, b ∈ numberBytes)
    {command : Command} {bytes : List UInt8} (h : payload serde command = .ok bytes) :
    compatibleJsonText bytes = true := by
  have hparts : nul ∉ command.method.toList ∧ validateJson command.params 0 = .ok () ∧
      bytes = commandText numberText command := by
    unfold payload at h
    obtain ⟨-, h⟩ := ensure_bind h
    obtain ⟨hmethod, h⟩ := ensure_bind h
    obtain ⟨_, hparams, h⟩ := result_bind h
    obtain ⟨written, hwritten, h⟩ := result_bind h
    obtain ⟨-, h⟩ := ensure_bind h
    rw [hserde] at hwritten
    exact ⟨by simpa using hmethod, hparams,
      (Except.ok.inj h).symm.trans (Except.ok.inj hwritten).symm⟩
  obtain ⟨hmethod, hparams, rfl⟩ := hparts
  have hcolon : Passes false 1 (utf8 ":") false 1 := passes_utf8_neutral (by decide +kernel) 1
  have hcomma : Passes false 1 (utf8 ",") false 1 := passes_utf8_neutral (by decide +kernel) 1
  have hall : Passes false 0 (commandText numberText command) false 0 :=
    ((((((((passes_open (.inr rfl) (by omega)).append
      (passes_stringText (by decide +kernel) 1)).append hcolon).append
      (passes_stringText hmethod 1)).append hcomma).append
      (passes_stringText (by decide +kernel) 1)).append hcolon).append
      (passes_valueText hnumber command.params 0 hparams)).append (passes_close (.inr rfl) 0)
  have := hall []
  rwa [List.append_nil] at this

/-- The deepest nesting the host sends, around an empty container and a string of
everything that needs an escape. -/
def boundaryCommand : Command :=
  { method := "echo"
    params := .array [.string "\"\\u0000[", .number (.posInt 0),
      (List.range 15).foldl (fun value _ => .array [value]) (.object [])] }

def boundaryNumber (_ : Number) : List UInt8 := utf8 "0"

def boundarySerde : Serde where
  toVec command := .ok (commandText boundaryNumber command)
  fromSlice _ := .ok .null
  display _ := ""

theorem boundary_passes_gate :
    compatibleJsonText (commandText boundaryNumber boundaryCommand) = true := by
  have hdigit : ∀ b ∈ utf8 "0", b ∈ numberBytes := by decide +kernel
  have hpayload : payload boundarySerde boundaryCommand =
      .ok (commandText boundaryNumber boundaryCommand) := rfl
  exact payload_passes_gate boundarySerde boundaryNumber (fun _ => rfl) (fun _ => hdigit) hpayload

end IdfRemote.JsonText
