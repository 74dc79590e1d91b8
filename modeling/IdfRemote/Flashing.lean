import IdfRemote.FlashPlan
import IdfRemote.NorFlash

/-!
# Sessions with a board

A session owns the connection to one board. Every operation on the flash lends it to espflash and
takes it back, whether it succeeds or not; the board is written or erased only after its security
state, its capacity and the header of the bootloader have been looked at. What espflash knows of
chips and settings, what it answers and what that does to the flash are parameters.
-/
namespace IdfRemote.Flashing
open Checked SectorLayout FlashLayout NorFlash

/-- Other modes exist that no header is compared with. -/
inductive FlashMode
  | qio
  | qout
  | dio
  | dout
  | other
deriving DecidableEq, Repr

/-- Chips, and the texts of settings with their encodings in a header. -/
structure Espflash where
  Chip : Type
  Frequency : Type
  Size : Type
  parseChip : String → Result Chip
  id : Chip → UInt16
  bootAddress : Chip → UInt32
  parseMode : String → Result FlashMode
  parseFrequency : String → Result Frequency
  encodeFrequency : Frequency → Chip → Result UInt8
  parseSize : String → Result Size
  bytes : Size → UInt32
  encodeSize : Size → Result UInt8

structure BoardInfo where
  chip : String
  flashSizeBytes : UInt32
  revision : Option (UInt32 × UInt32) := none
  macAddress : Option String := none

structure SecurityInfo where
  flags : UInt32
  flashCryptCnt : UInt8

/-- The port, which espflash is lent and gives back. -/
structure Connection where
  port : String
  baud : ℕ

/-- An answer of espflash, and what asking for it does to the flash. -/
structure Asked (α : Type) where
  answer : Result α
  effect : Memory → Memory := id

/-- The answers to one operation. `giveBack` is the connection in an error of `try_connect`, and
what `into_connection` returns. -/
structure Flasher where
  tryConnect : Asked Unit
  secureDownloadMode : Bool
  securityInfo : Asked SecurityInfo
  deviceInfo : Asked BoardInfo
  writeBins : List Block → Memory → Result Unit × Memory
  readFlash : ℕ → ℕ → Memory → Result (List UInt8) × Memory
  eraseFlash : Memory → Result Unit × Memory
  giveBack : Connection → Connection := id
  temporary : Result Unit
  copy : Result Unit

/-- A session and the flash of its board. -/
structure Bench where
  connection : Option Connection
  protocolInput : Bool
  memory : Memory

/-- The port that the session owns. -/
def Bench.port (b : Bench) : Option String := b.connection.map (·.port)

/-- What an operation returns and what it leaves; there is nothing after a panic. -/
abbrev Outcome (α : Type) := Option (Result α × Bench)

/-- What is done with the flash while espflash has the connection. -/
abbrev Work (α : Type) := ExceptT Error (StateT Memory Option) α

section
variable {α : Type}

def Asked.context (x : Asked α) (message : String) : Asked α :=
  { x with answer := withContext message x.answer }

def ask (x : Asked α) : Work α := ExceptT.mk fun memory => some (x.answer, x.effect memory)

def check (x : Checked α) : Work α := ExceptT.mk fun memory => x.run.map (·, memory)

def act (message : String) (f : Memory → Result α × Memory) : Work α :=
  ExceptT.mk fun memory => some (withContext message (f memory).1, (f memory).2)

end

/-- An index, which panics behind the end. -/
def byteAt (data : List UInt8) (i : ℕ) : Option UInt8 := data[i]?

/-- A loop over the segments that only checks. -/
def each (check : PreparedSegment → Checked Unit) : List PreparedSegment → Checked Unit
  | [] => return ()
  | segment :: rest => do
      check segment
      each check rest

def validateCapacity (plan : PreparedPlan) (size : UInt32) : Checked Unit :=
  each (fun segment => do
    let stop ← add 64 segment.offset.toNat segment.data.length
    ensure (stop ≤ size.toNat) ("segment at " ++ hex segment.offset ++
      " exceeds flash capacity (" ++ toString size.toNat ++ " bytes)")) plan.segments

def FlashMode.byte : FlashMode → Result UInt8
  | qio => .ok 0
  | qout => .ok 1
  | dio => .ok 2
  | dout => .ok 3
  | other => .error (.msg "unsupported flash mode")

/-- `trim_end_matches("hz")` on the reversed text. -/
def dropHz : List Char → List Char
  | 'z' :: 'h' :: rest => dropHz rest
  | text => text

/-- The number of a frequency, however its unit is spelled. -/
def mhz (frequency : String) : String :=
  String.ofList
    ((dropHz (frequency.toList.map Char.toLower).reverse).dropWhile (· = 'm')).reverse

def countOnes (byte : UInt8) : ℕ := (List.range 8).countP byte.toNat.testBit

section Validate
variable (lib : Espflash)

def wantedMode (settings : FlashSettings) : Result (Option UInt8) :=
  match settings.mode with
  | none => .ok none
  | some mode =>
      if mode = "keep" then .ok none
      else do
        let mode ← withContext "invalid flash mode" (lib.parseMode mode)
        return some (← mode.byte)

def wantedFrequency (chip : lib.Chip) (settings : FlashSettings) : Result (Option UInt8) :=
  match settings.frequency with
  | none => .ok none
  | some frequency =>
      if frequency = "keep" then .ok none
      else do
        let frequency ← withContext "invalid flash frequency"
          (lib.parseFrequency (mhz frequency ++ "MHz"))
        return some (← lib.encodeFrequency frequency chip)

def configuredSize (settings : FlashSettings) : Result (Option lib.Size) :=
  match settings.size with
  | none => .ok none
  | some size =>
      if size = "keep" ∨ size = "detect" then .ok none
      else some <$> withContext "invalid flash size" (lib.parseSize size)

/-- The size is encoded only where mode and frequency agree. -/
def agrees (mode frequency : Option UInt8) (size : Option lib.Size) (second third : UInt8) :
    Result Bool :=
  if mode.all (· = second) && frequency.all (· = third &&& 0x0f) then
    match size with
    | none => .ok true
    | some size => (lib.encodeSize size).map fun size => size = third >>> 4
  else .ok false

/-- The header of a bootloader is compared with the settings; no other segment has one. -/
def checkHeader (chip : lib.Chip) (mode frequency : Option UInt8) (size : Option lib.Size)
    (segment : PreparedSegment) : Checked Unit := do
  if segment.offset = lib.bootAddress chip then
    ensure (24 ≤ segment.data.length ∧ segment.data[0]? = some 0xe9)
      ("invalid bootloader header at " ++ hex segment.offset)
    let low ← byteAt segment.data 12
    let high ← byteAt segment.data 13
    ensure (low.toNat + 256 * high.toNat = (lib.id chip).toNat)
      "bootloader image chip does not match FlashPlan chip"
    let second ← byteAt segment.data 2
    let third ← byteAt segment.data 3
    let same ← agrees lib mode frequency size second third
    ensure same ("bootloader header disagrees with flash_settings; the backend preserves " ++
      "supplied image bytes (including their digest). Rebuild or regenerate the plan with " ++
      "matching settings")

def validateConfigured (plan : PreparedPlan) : Option lib.Size → Checked Unit
  | none => return ()
  | some size => validateCapacity plan (lib.bytes size)

def validate (plan : PreparedPlan) : Checked lib.Chip := do
  let chip ← withContext "unsupported ESP chip" (lib.parseChip plan.chip)
  let mode ← wantedMode lib plan.flashSettings
  let frequency ← wantedFrequency lib chip plan.flashSettings
  let size ← configuredSize lib plan.flashSettings
  validateConfigured lib plan size
  each (checkHeader lib chip mode frequency size) plan.segments
  return chip

def validateDetectedSize (plan : PreparedPlan) (chip : lib.Chip) (detected : UInt32) :
    Checked Unit := do
  if plan.flashSettings.size = some "detect" then
    let size ← lib.parseSize (toString (detected.toNat / (1024 * 1024)) ++ "MB")
    let headerSize ← lib.encodeSize size
    each (fun segment => do
      if segment.offset = lib.bootAddress chip then
        let third ← byteAt segment.data 3
        ensure (third >>> 4 = headerSize)
          ("flash_size=detect requires changing this bootloader header; the backend preserves " ++
            "supplied bytes. Rebuild for the detected " ++ toString detected.toNat ++
            "-byte flash or explicitly choose keep")) plan.segments

/-- Neither secure boot nor an odd number of encryptions. -/
def SecurityInfo.unprotected (security : SecurityInfo) : Bool :=
  security.flags &&& 1 = 0 && countOnes security.flashCryptCnt % 2 = 0

/-- What `flash` asks of the board before it writes. -/
def flashable (f : Flasher) (plan : PreparedPlan) (chip : lib.Chip) : Work BoardInfo := do
  ensure (!f.secureDownloadMode) "secure download mode is not supported"
  let security ← ask (f.securityInfo.context "read security state before writing")
  ensure security.unprotected "secure boot / flash encryption provisioning is not supported"
  let info ← ask f.deviceInfo
  check (validateCapacity plan info.flashSizeBytes)
  let size ← configuredSize lib plan.flashSettings
  ensure (size.all fun size => lib.bytes size ≤ info.flashSizeBytes)
    "configured flash size exceeds detected device capacity"
  check (validateDetectedSize lib plan chip info.flashSizeBytes)
  return info

end Validate

/-- What `erase_flash` asks of the board. -/
def erasable (f : Flasher) : Work BoardInfo := do
  ensure (!f.secureDownloadMode) "secure download mode is outside phase 2 support"
  let security ← ask (f.securityInfo.context "read security state before erasing")
  ensure security.unprotected "secure boot / flash encryption provisioning is not supported"
  ask f.deviceInfo

def Bench.giveBack (b : Bench) (f : Flasher) (connection : Connection) : Bench :=
  { b with connection := some (f.giveBack connection) }

/-- The session has no connection while espflash has it. Errors on the way bring it back, a panic
would not. -/
def withFlasher {α : Type} (f : Flasher) (work : Work α) (b : Bench) : Outcome α :=
  match b.connection with
  | none => some (.error (.msg "device session has no connection"), b)
  | some connection =>
      let b : Bench :=
        { connection := none, protocolInput := true, memory := f.tryConnect.effect b.memory }
      match f.tryConnect.answer with
      | .error e =>
          some (.error (e.context "connect to ESP ROM bootloader"), b.giveBack f connection)
      | .ok () => (work.run b.memory).map fun q =>
          (q.1, { b with memory := q.2 }.giveBack f connection)

/-- The checks of an operation come before its change of the memory. -/
def guarded (checks : Work BoardInfo) (context : String)
    (change : Memory → Result Unit × Memory) : Work BoardInfo := do
  let info ← checks
  act context change
  return info

/-- What does not need the board comes first. -/
def first {α β : Type} (x : Checked α) (rest : α → Bench → Outcome β) (b : Bench) : Outcome β :=
  x.run.bind fun
    | .error e => some (.error e, b)
    | .ok a => rest a b

def probe (f : Flasher) : Bench → Outcome BoardInfo := withFlasher f (ask f.deviceInfo)

def PreparedPlan.blocks (plan : PreparedPlan) : List Block :=
  plan.segments.map fun segment => ⟨segment.offset.toNat, segment.data⟩

def flash (lib : Espflash) (plan : PreparedPlan) (baud : ℕ) (f : Flasher) :
    Bench → Outcome BoardInfo :=
  first (do
      let chip ← validate lib plan
      ensure (115200 ≤ baud) "flash baud must be at least 115200"
      return chip) fun chip =>
    withFlasher f (guarded (flashable lib f plan chip)
      ("flash failed; device was not reset automatically and may contain a partial image")
      (f.writeBins (PreparedPlan.blocks plan)))

/-- What the board is asked for by `read_flash`. -/
def readBoard (offset size : UInt32) (f : Flasher) : Work (BoardInfo × List UInt8) := do
  let info ← ask f.deviceInfo
  ensure (offset.toNat + size.toNat ≤ info.flashSizeBytes.toNat)
    "read range exceeds detected device capacity"
  let data ← act "read flash" (f.readFlash offset.toNat size.toNat)
  return (info, data)

/-- The bytes are read into a temporary file, which is copied when the connection is back. -/
def readFlash (offset size : UInt32) (baud : ℕ) (f : Flasher) :
    Bench → Outcome (BoardInfo × List UInt8) :=
  first (do
      ensure (0 < size) "read size must be positive"
      ensure (115200 ≤ baud) "read baud must be at least 115200"
      f.temporary) fun () b =>
    (withFlasher f (readBoard offset size f) b).map fun q =>
      (do
        let out ← q.1
        f.copy
        return out, q.2)

def eraseFlash (baud : ℕ) (f : Flasher) : Bench → Outcome BoardInfo :=
  first (ensure (115200 ≤ baud) "erase baud must be at least 115200") fun () =>
    withFlasher f (guarded (erasable f)
      "erase flash failed; device was not reset automatically" f.eraseFlash)

/-- The work leaves this memory alone and does not panic, and what it returns satisfies the
condition. -/
def Reads {α : Type} (memory : Memory) (w : Work α) (post : α → Prop) : Prop :=
  ∃ r : Result α, w.run memory = some (r, memory) ∧ ∀ a, r = .ok a → post a

section
variable {α β : Type} {memory : Memory}

theorem run_bind (w : Work α) (k : α → Work β) (memory : Memory) :
    (w >>= k).run memory = (w.run memory).bind fun q =>
      match q.1 with
      | .error e => some (.error e, q.2)
      | .ok a => (k a).run q.2 := by
  rw [ExceptT.run_bind]
  change (w.run memory).bind _ = _
  congr 1
  funext q
  obtain ⟨_ | _, _⟩ := q <;> rfl

theorem run_act (message : String) (f : Memory → Result α × Memory) (memory : Memory) :
    (act message f).run memory = some (withContext message (f memory).1, (f memory).2) := rfl

theorem reads_pure {post : α → Prop} {value : α} (h : post value) :
    Reads memory (pure value : Work α) post :=
  ⟨.ok value, rfl, fun _ ha => Except.ok.inj ha ▸ h⟩

theorem reads_any (x : Result α) : Reads memory (liftM x : Work α) fun a => x = .ok a :=
  ⟨x, rfl, fun _ h => h⟩

theorem reads_ensure (condition : Bool) (message : String) :
    Reads memory (liftM (ensure condition message) : Work Unit) fun _ => condition = true :=
  ⟨ensure condition message, rfl, fun _ h => ensure_eq_ok.mp h⟩

theorem reads_check {x : Checked α} {post : α → Prop} (h : Ensures x post) :
    Reads memory (check x) post := by
  obtain ⟨r, hr, hpost⟩ := h
  refine ⟨r, ?_, hpost⟩
  change x.run.map (·, memory) = _
  rw [hr, Option.map_some]

theorem reads_ask {x : Asked α} (h : x.effect = id) :
    Reads memory (ask x) fun a => x.answer = .ok a :=
  ⟨x.answer, congrArg (fun m => some (x.answer, m)) (congrFun h memory), fun _ ha => ha⟩

theorem reads_act {message : String} {f : Memory → Result α × Memory}
    (h : (f memory).2 = memory) : Reads memory (act message f) fun a => (f memory).1 = .ok a := by
  refine ⟨withContext message (f memory).1, ?_, fun _ ha => ok_of_withContext ha⟩
  rw [run_act, h]

theorem Reads.bind {w : Work α} {k : α → Work β} {p : α → Prop} {q : β → Prop}
    (hw : Reads memory w p) (hk : ∀ a, p a → Reads memory (k a) q) :
    Reads memory (w >>= k) q := by
  obtain ⟨r, hr, hp⟩ := hw
  unfold Reads
  rw [run_bind, hr, Option.bind_some]
  cases r with
  | error e => exact ⟨.error e, rfl, fun _ h => by cases h⟩
  | ok a => exact hk a (hp a rfl)

theorem Reads.imp {w : Work α} {p q : α → Prop} (h : Reads memory w p) (hpq : ∀ a, p a → q a) :
    Reads memory w q := by
  obtain ⟨r, hr, hp⟩ := h
  exact ⟨r, hr, fun a ha => hpq a (hp a ha)⟩

end

/-- espflash gives the port back, writes block after block, never outside of their sectors, and
reads what is there; connecting and asking change nothing. -/
structure Faithful (f : Flasher) : Prop where
  gives : ∀ connection, (f.giveBack connection).port = connection.port
  connects : f.tryConnect.effect = id
  secures : f.securityInfo.effect = id
  informs : f.deviceInfo.effect = id
  written : ∀ blocks memory, (f.writeBins blocks memory).1 = .ok () →
    (f.writeBins blocks memory).2 = writeAll sectorSize blocks memory
  confined : ∀ blocks memory a, (∀ b ∈ blocks, a ∉ b.extent.erased sectorSize) →
    (f.writeBins blocks memory).2 a = memory a
  read : ∀ offset size memory data, (f.readFlash offset size memory).1 = .ok data →
    data = NorFlash.read memory offset size
  reads : ∀ offset size memory, (f.readFlash offset size memory).2 = memory

theorem ensures_each {check : PreparedSegment → Checked Unit} {post : PreparedSegment → Prop}
    {segments : List PreparedSegment}
    (h : ∀ s ∈ segments, Ensures (check s) fun _ => post s) :
    Ensures (each check segments) fun _ => ∀ s ∈ segments, post s := by
  induction segments with
  | nil => exact ensures_pure (by simp)
  | cons s segments ih =>
      refine Ensures.bind (h s List.mem_cons_self) fun _ hs => ?_
      obtain ⟨r, hr, hrest⟩ := ih fun t ht => h t (List.mem_cons_of_mem _ ht)
      exact ⟨r, hr, fun a ha => List.forall_mem_cons.mpr ⟨hs, hrest a ha⟩⟩

/-- The segments lie below `size`. -/
def Below (plan : PreparedPlan) (size : ℕ) : Prop :=
  ∀ s ∈ plan.segments, s.offset.toNat + s.data.length ≤ size

/-- The header of a bootloader for this chip with these settings. -/
structure Header (lib : Espflash) (chip : lib.Chip) (mode frequency : Option UInt8)
    (size : Option lib.Size) (data : List UInt8) : Prop where
  magic : 24 ≤ data.length ∧ data[0]? = some 0xe9
  chip : ∃ low high, data[12]? = some low ∧ data[13]? = some high ∧
    low.toNat + 256 * high.toNat = (lib.id chip).toNat
  mode : ∀ byte, mode = some byte → data[2]? = some byte
  frequency : ∀ byte, frequency = some byte → data[3]?.map (· &&& 0x0f) = some byte
  size : ∀ s, size = some s →
    ∃ third : UInt8, data[3]? = some third ∧ lib.encodeSize s = .ok (third >>> 4)

theorem of_agrees {lib : Espflash} {mode frequency : Option UInt8} {size : Option lib.Size}
    {second third : UInt8} (h : agrees lib mode frequency size second third = .ok true) :
    (∀ byte, mode = some byte → byte = second) ∧
      (∀ byte, frequency = some byte → byte = third &&& 0x0f) ∧
      ∀ s, size = some s → lib.encodeSize s = .ok (third >>> 4) := by
  unfold agrees at h
  split at h
  · next hsame =>
    rw [Bool.and_eq_true] at hsame
    refine ⟨?_, ?_, ?_⟩
    · rintro byte rfl
      simpa using hsame.1
    · rintro byte rfl
      simpa using hsame.2
    · rintro s rfl
      dsimp only at h
      cases hencode : lib.encodeSize s with
      | error e =>
          rw [hencode] at h
          cases h
      | ok byte =>
          rw [hencode] at h
          rw [of_decide_eq_true (Except.ok.inj h)]
  · cases h

theorem ensures_checkHeader (lib : Espflash) (chip : lib.Chip) (mode frequency : Option UInt8)
    (size : Option lib.Size) (s : PreparedSegment) :
    Ensures (checkHeader lib chip mode frequency size s) fun _ =>
      s.offset = lib.bootAddress chip → Header lib chip mode frequency size s.data := by
  unfold checkHeader
  split
  · refine Ensures.bind (ensures_ensure _ _) fun _ hmagic => ?_
    obtain ⟨hlength, hmagic⟩ := of_decide_eq_true hmagic
    have hbyte : ∀ i < 24, byteAt s.data i = some (s.data.getD i 0) := fun i hi => by
      rw [byteAt, List.getD, List.getElem?_eq_getElem (by omega)]
      rfl
    refine Ensures.bind (ensures_some (hbyte 12 (by decide))) fun low hlow =>
      Ensures.bind (ensures_some (hbyte 13 (by decide))) fun high hhigh =>
      Ensures.bind (ensures_ensure _ _) fun _ hchip =>
      Ensures.bind (ensures_some (hbyte 2 (by decide))) fun second hsecond =>
      Ensures.bind (ensures_some (hbyte 3 (by decide))) fun third hthird =>
      Ensures.bind (ensures_any _) fun same hsame => (ensures_ensure same _).imp fun _ htrue _ => ?_
    subst hlow hhigh hsecond hthird htrue
    obtain ⟨hmode, hfrequency, hsize⟩ := of_agrees hsame
    exact
      { magic := ⟨hlength, hmagic⟩
        chip := ⟨_, _, hbyte 12 (by decide), hbyte 13 (by decide), of_decide_eq_true hchip⟩
        mode := fun byte h => by rw [hmode byte h]; exact hbyte 2 (by decide)
        frequency := fun byte h => by
          rw [hfrequency byte h]
          exact congrArg (Option.map (· &&& 0x0f)) (hbyte 3 (by decide))
        size := fun t h => ⟨_, hbyte 3 (by decide), hsize t h⟩ }
  · next hother => exact ensures_pure fun h => absurd h hother

/-- What `validate` has found out about a plan. -/
structure Valid (lib : Espflash) (plan : PreparedPlan) (chip : lib.Chip) : Prop where
  parsed : lib.parseChip plan.chip = .ok chip
  boots : ∃ mode frequency size, wantedMode lib plan.flashSettings = .ok mode ∧
    wantedFrequency lib chip plan.flashSettings = .ok frequency ∧
    configuredSize lib plan.flashSettings = .ok size ∧
    (∀ s, size = some s → Below plan (lib.bytes s).toNat) ∧
    ∀ s ∈ plan.segments, s.offset = lib.bootAddress chip →
      Header lib chip mode frequency size s.data

/-- The board takes part in no secure boot and encrypts nothing. -/
structure Unlocked (f : Flasher) : Prop where
  mode : f.secureDownloadMode = false
  security : ∃ security, f.securityInfo.answer = .ok security ∧ security.unprotected = true

/-- The plan fits the board it is written to. -/
structure Fitting (lib : Espflash) (f : Flasher) (plan : PreparedPlan) (chip : lib.Chip)
    (info : BoardInfo) : Prop where
  unlocked : Unlocked f
  board : f.deviceInfo.answer = .ok info
  capacity : Below plan info.flashSizeBytes.toNat
  configured : ∀ size, configuredSize lib plan.flashSettings = .ok (some size) →
    lib.bytes size ≤ info.flashSizeBytes
  detected : plan.flashSettings.size = some "detect" → ∃ size header,
    lib.parseSize (toString (info.flashSizeBytes.toNat / (1024 * 1024)) ++ "MB") = .ok size ∧
      lib.encodeSize size = .ok header ∧ ∀ s ∈ plan.segments, s.offset = lib.bootAddress chip →
        (s.data.getD 3 0) >>> 4 = header

/-- The byte that is compared is there, since the header has been validated. -/
theorem ensures_validateDetectedSize {lib : Espflash} {plan : PreparedPlan} {chip : lib.Chip}
    (hvalid : Valid lib plan chip) (detected : UInt32) :
    Ensures (validateDetectedSize lib plan chip detected) fun _ =>
      plan.flashSettings.size = some "detect" → ∃ size header,
        lib.parseSize (toString (detected.toNat / (1024 * 1024)) ++ "MB") = .ok size ∧
          lib.encodeSize size = .ok header ∧ ∀ s ∈ plan.segments,
            s.offset = lib.bootAddress chip → (s.data.getD 3 0) >>> 4 = header := by
  obtain ⟨mode, frequency, size, -, -, -, -, hheaders⟩ := hvalid.boots
  unfold validateDetectedSize
  split
  · refine Ensures.bind (ensures_any _) fun detectedSize hsize =>
      Ensures.bind (ensures_any _) fun header hheader =>
      (@ensures_each _ (fun s => s.offset = lib.bootAddress chip →
        (s.data.getD 3 0) >>> 4 = header) _ fun s hs => ?_).imp fun _ hall _ =>
        ⟨detectedSize, header, hsize, hheader, hall⟩
    split
    · next hboot =>
      have hlength := (hheaders s hs hboot).magic.1
      have hthird : byteAt s.data 3 = some (s.data.getD 3 0) := by
        rw [byteAt, List.getD, List.getElem?_eq_getElem (by omega)]
        rfl
      exact Ensures.bind (ensures_some hthird) fun third heq =>
        (ensures_ensure _ _).imp fun _ hsame _ => heq ▸ of_decide_eq_true hsame
    · next hother => exact ensures_pure fun hboot => absurd hboot hother
  · next hother => exact ensures_pure fun hdetect => absurd hdetect hother

section Spec
variable {lib : Espflash} {plan : PreparedPlan} (hplan : FlashPlan.Prepared plan)
include hplan

theorem ensures_validateCapacity (size : UInt32) :
    Ensures (validateCapacity plan size) fun _ => Below plan size.toNat := by
  refine ensures_each fun s hs => ?_
  have hinside : s.offset.toNat + s.data.length ≤ 2 ^ 32 := (hplan.padded s hs).inside
  exact Ensures.bind (ensures_some (add_eq_some (by omega))) fun stop hstop =>
    (ensures_ensure _ _).imp fun _ hle => hstop ▸ of_decide_eq_true hle

theorem ensures_validateConfigured (size : Option lib.Size) :
    Ensures (validateConfigured lib plan size) fun _ =>
      ∀ s, size = some s → Below plan (lib.bytes s).toNat := by
  cases size with
  | none => exact ensures_pure (by simp)
  | some size =>
      refine (ensures_validateCapacity hplan (lib.bytes size)).imp fun _ hbelow s hs => ?_
      rwa [← Option.some.inj hs]

theorem ensures_validate : Ensures (validate lib plan) (Valid lib plan) := by
  refine Ensures.bind (ensures_any _) fun chip hchip =>
    Ensures.bind (ensures_any _) fun mode hmode =>
    Ensures.bind (ensures_any _) fun frequency hfrequency =>
    Ensures.bind (ensures_any _) fun size hsize =>
    Ensures.bind (ensures_validateConfigured hplan size) fun _ hbelow =>
    Ensures.bind (ensures_each fun s _ => ensures_checkHeader lib chip mode frequency size s)
      fun _ hheaders => ensures_pure ⟨ok_of_withContext hchip, mode, frequency, size, hmode,
        hfrequency, hsize, hbelow, hheaders⟩

theorem reads_flashable {f : Flasher} (hf : Faithful f) {chip : lib.Chip}
    (hvalid : Valid lib plan chip) (memory : Memory) :
    Reads memory (flashable lib f plan chip) (Fitting lib f plan chip) := by
  refine Reads.bind (reads_ensure _ _) fun _ hmode =>
    Reads.bind (reads_ask hf.secures) fun security hsecurity =>
    Reads.bind (reads_ensure _ _) fun _ hopen =>
    Reads.bind (reads_ask hf.informs) fun info hinfo =>
    Reads.bind (reads_check (ensures_validateCapacity hplan _)) fun _ hbelow =>
    Reads.bind (reads_any _) fun size hsize =>
    Reads.bind (reads_ensure _ _) fun _ hconfigured =>
    Reads.bind (reads_check (ensures_validateDetectedSize hvalid _)) fun _ hdetected =>
    reads_pure ⟨⟨by simpa using hmode, security, ok_of_withContext hsecurity, hopen⟩, hinfo,
      hbelow, fun s hs => ?_, hdetected⟩
  obtain rfl := Except.ok.inj (hsize.symm.trans hs)
  simpa using hconfigured

end Spec

theorem reads_erasable {f : Flasher} (hf : Faithful f) (memory : Memory) :
    Reads memory (erasable f) fun _ => Unlocked f := by
  refine Reads.bind (reads_ensure _ _) fun _ hmode =>
    Reads.bind (reads_ask hf.secures) fun security hsecurity =>
    Reads.bind (reads_ensure _ _) fun _ hopen => (reads_ask hf.informs).imp fun _ _ => ?_
  exact ⟨by simpa using hmode, security, ok_of_withContext hsecurity, hopen⟩

theorem reads_readBoard {f : Flasher} (hf : Faithful f) (offset size : UInt32)
    (memory : Memory) : Reads memory (readBoard offset size f) fun out =>
      (f.readFlash offset.toNat size.toNat memory).1 = .ok out.2 :=
  Reads.bind (reads_ask hf.informs) fun _ _ => Reads.bind (reads_ensure _ _) fun _ _ =>
    Reads.bind (reads_act (hf.reads _ _ _)) fun _ hdata => reads_pure hdata

/-- The operation has failed before it changed the memory, or it has passed its checks and its
result is that of the change. -/
inductive Acted {α : Type} (checked : α → Prop) (change : Memory → Result Unit × Memory)
    (b b' : Bench) (r : Result α) : Prop
  | refused (hmemory : b'.memory = b.memory) (hr : ∀ info, r ≠ .ok info)
  | acted (info : α) (hchecked : checked info) (hmemory : b'.memory = (change b.memory).2)
      (hr : ∀ out, r = .ok out → (change b.memory).1 = .ok () ∧ out = info)

/-- Either the work has not begun, or it finds the memory as it was; the port is kept. -/
theorem withFlasher_spec {α : Type} {f : Flasher} (hf : Faithful f) (work : Work α) (b : Bench) :
    (∃ e b', withFlasher f work b = some (.error e, b') ∧ b'.port = b.port ∧
      b'.memory = b.memory) ∨
    ∃ after : Memory → Bench,
      (withFlasher f work b = (work.run b.memory).map fun q => (q.1, after q.2)) ∧
        ∀ memory, (after memory).port = b.port ∧ (after memory).memory = memory := by
  unfold withFlasher
  cases hconnection : b.connection with
  | none => exact .inl ⟨_, _, rfl, rfl, rfl⟩
  | some connection =>
      have hport : some (f.giveBack connection).port = b.port := by
        rw [hf.gives, Bench.port, hconnection, Option.map_some]
      rw [hf.connects]
      cases f.tryConnect.answer with
      | error e => exact .inl ⟨_, _, rfl, hport, rfl⟩
      | ok u =>
          refine .inr ⟨fun memory => ⟨some (f.giveBack connection), true, memory⟩, rfl, ?_⟩
          exact fun memory => ⟨hport, rfl⟩

theorem guarded_acts {α : Type} {x : Checked α} {pre : α → Prop} {checks : α → Work BoardInfo}
    {checked : BoardInfo → Prop} {f : Flasher} (hf : Faithful f) (context : String)
    (change : Memory → Result Unit × Memory) (b : Bench) (hx : Ensures x pre)
    (hchecks : ∀ a, pre a → Reads b.memory (checks a) checked) :
    ∃ r b', first x (fun a => withFlasher f (guarded (checks a) context change)) b =
        some (r, b') ∧ b'.port = b.port ∧ Acted checked change b b' r := by
  obtain ⟨r, hr, hpre⟩ := hx
  unfold first
  rw [hr, Option.bind_some]
  cases r with
  | error e => exact ⟨.error e, b, rfl, rfl, .refused rfl (by simp)⟩
  | ok a =>
      dsimp only
      rcases withFlasher_spec hf (guarded (checks a) context change) b with
          ⟨e, b', hfails, hport, hmemory⟩ | ⟨after, hworks, hafter⟩
      · exact ⟨_, b', hfails, hport, .refused hmemory (by simp)⟩
      · obtain ⟨r, hr, hchecked⟩ := hchecks a (hpre a rfl)
        rw [hworks, guarded, run_bind, hr, Option.bind_some]
        cases r with
        | error e => exact ⟨_, _, rfl, (hafter _).1, .refused (hafter _).2 (by simp)⟩
        | ok info =>
            dsimp only
            rw [run_bind, run_act, Option.bind_some]
            cases hchange : (change b.memory).1 with
            | error e =>
                refine ⟨_, _, rfl, (hafter _).1, .acted info (hchecked info rfl) (hafter _).2 ?_⟩
                exact fun out hout => by cases hout
            | ok u =>
                refine ⟨_, _, rfl, (hafter _).1, .acted info (hchecked info rfl) (hafter _).2 ?_⟩
                exact fun out hout => ⟨hchange, (Except.ok.inj hout).symm⟩

theorem flash_acts (lib : Espflash) {plan : PreparedPlan} (hplan : FlashPlan.Prepared plan)
    (baud : ℕ) {f : Flasher} (hf : Faithful f) (b : Bench) :
    ∃ r b', flash lib plan baud f b = some (r, b') ∧ b'.port = b.port ∧
      Acted (fun info => 115200 ≤ baud ∧ ∃ chip, Valid lib plan chip ∧
        Fitting lib f plan chip info) (f.writeBins (PreparedPlan.blocks plan)) b b' r := by
  have hfirst : Ensures (do
      let chip ← validate lib plan
      ensure (115200 ≤ baud) "flash baud must be at least 115200"
      return chip : Checked lib.Chip) fun chip => 115200 ≤ baud ∧ Valid lib plan chip :=
    Ensures.bind (ensures_validate hplan) fun chip hvalid =>
      Ensures.bind (ensures_ensure _ _) fun _ hbaud =>
      ensures_pure ⟨of_decide_eq_true hbaud, hvalid⟩
  exact guarded_acts hf _ _ b hfirst fun chip hchip =>
    (reads_flashable hplan hf hchip.2 _).imp fun info hfits => ⟨hchip.1, chip, hchip.2, hfits⟩

theorem eraseFlash_acts (baud : ℕ) {f : Flasher} (hf : Faithful f) (b : Bench) :
    ∃ r b', eraseFlash baud f b = some (r, b') ∧ b'.port = b.port ∧
      Acted (fun _ => 115200 ≤ baud ∧ Unlocked f) f.eraseFlash b b' r := by
  have hfirst : Ensures (liftM (ensure (115200 ≤ baud) "erase baud must be at least 115200") :
      Checked Unit) fun _ => 115200 ≤ baud :=
    (ensures_ensure _ _).imp fun _ hbaud => of_decide_eq_true hbaud
  exact guarded_acts hf _ _ b hfirst fun _ hbaud =>
    (reads_erasable hf _).imp fun _ hunlocked => ⟨hbaud, hunlocked⟩

theorem withFlasher_keeps {α : Type} {f : Flasher} (hf : Faithful f) {work : Work α} {b : Bench}
    {post : α → Prop} (hwork : Reads b.memory work post) :
    ∃ r b', withFlasher f work b = some (r, b') ∧ b'.port = b.port ∧ b'.memory = b.memory ∧
      ∀ out, r = .ok out → post out := by
  rcases withFlasher_spec hf work b with ⟨e, b', hfails, hport, hmemory⟩ | ⟨after, hworks, hafter⟩
  · exact ⟨_, b', hfails, hport, hmemory, fun _ h => by cases h⟩
  · obtain ⟨r, hr, hpost⟩ := hwork
    rw [hworks, hr, Option.map_some]
    exact ⟨r, _, rfl, (hafter _).1, (hafter _).2, hpost⟩

theorem readFlash_keeps (offset size : UInt32) (baud : ℕ) {f : Flasher} (hf : Faithful f)
    (b : Bench) :
    ∃ r b', readFlash offset size baud f b = some (r, b') ∧ b'.port = b.port ∧
      b'.memory = b.memory ∧ ∀ info data, r = .ok (info, data) →
        (f.readFlash offset.toNat size.toNat b.memory).1 = .ok data := by
  have hfirst : Ensures (do
      ensure (0 < size) "read size must be positive"
      ensure (115200 ≤ baud) "read baud must be at least 115200"
      f.temporary : Checked Unit) fun _ => True :=
    Ensures.bind (ensures_ensure _ _) fun _ _ => Ensures.bind (ensures_ensure _ _) fun _ _ =>
      (ensures_any f.temporary).imp fun _ _ => trivial
  obtain ⟨r, hr, -⟩ := hfirst
  unfold readFlash first
  rw [hr, Option.bind_some]
  cases r with
  | error e => exact ⟨_, _, rfl, rfl, rfl, fun _ _ h => by cases h⟩
  | ok u =>
      obtain ⟨r', b', hread, hport, hmemory, hok⟩ :=
        withFlasher_keeps hf (reads_readBoard hf offset size b.memory)
      dsimp only
      rw [hread, Option.map_some]
      refine ⟨_, _, rfl, hport, hmemory, fun info data h => ?_⟩
      cases r' with
      | error e => cases h
      | ok out =>
          have hout : out = (info, data) := by
            cases hcopy : f.copy with
            | error e =>
                simp only [hcopy] at h
                cases h
            | ok u =>
                simp only [hcopy] at h
                exact Except.ok.inj h
          obtain rfl := hout
          exact hok _ rfl

inductive Operation
  | probe
  | flash (plan : PreparedPlan) (baud : ℕ)
  | readFlash (offset size : UInt32) (baud : ℕ)
  | eraseFlash (baud : ℕ)

structure Step where
  operation : Operation
  flasher : Flasher

/-- What a step leaves; none after a panic. -/
def Bench.next (lib : Espflash) (b : Bench) (step : Step) : Option Bench :=
  match step.operation with
  | .probe => (Flashing.probe step.flasher b).map Prod.snd
  | .flash plan baud => (Flashing.flash lib plan baud step.flasher b).map Prod.snd
  | .readFlash offset size baud =>
      (Flashing.readFlash offset size baud step.flasher b).map Prod.snd
  | .eraseFlash baud => (Flashing.eraseFlash baud step.flasher b).map Prod.snd

def Bench.run (lib : Espflash) (b : Bench) (steps : List Step) : Option Bench :=
  steps.foldlM (Bench.next lib) b

theorem run_cons {lib : Espflash} {b b'' : Bench} {step : Step} {steps : List Step} :
    b.run lib (step :: steps) = some b'' ↔
      ∃ b', b.next lib step = some b' ∧ b'.run lib steps = some b'' := by
  rw [Bench.run, List.foldlM_cons]
  exact Option.bind_eq_some_iff

/-- The sectors of a plan. -/
def Covers (plan : PreparedPlan) (a : ℕ) : Prop :=
  ∃ s ∈ plan.segments, a ∈ s.extent.erased sectorSize

/-- The step may change this byte: its checks have been passed. -/
def Step.Allows (lib : Espflash) (step : Step) (a : ℕ) : Prop :=
  match step.operation with
  | .flash plan baud => Covers plan a ∧ 115200 ≤ baud ∧
      ∃ chip info, Valid lib plan chip ∧ Fitting lib step.flasher plan chip info
  | .eraseFlash baud => 115200 ≤ baud ∧ Unlocked step.flasher
  | _ => False

/-- The step is given a prepared plan and a board on which espflash works. -/
structure Step.Proper (step : Step) : Prop where
  plan : ∀ plan baud, step.operation = .flash plan baud → FlashPlan.Prepared plan
  faithful : Faithful step.flasher

theorem next_spec (lib : Espflash) {step : Step} (h : step.Proper) (b : Bench) :
    ∃ b', b.next lib step = some b' ∧ b'.port = b.port ∧
      ∀ a, b'.memory a ≠ b.memory a → step.Allows lib a := by
  obtain ⟨operation, f⟩ := step
  have hf : Faithful f := h.faithful
  cases operation with
  | probe =>
      obtain ⟨r, b', hprobe, hport, hmemory, -⟩ := withFlasher_keeps hf (b := b)
        (reads_ask hf.informs)
      refine ⟨b', ?_, hport, fun a ha => absurd (congrFun hmemory a) ha⟩
      exact congrArg (Option.map Prod.snd) hprobe
  | readFlash offset size baud =>
      obtain ⟨r, b', hread, hport, hmemory, -⟩ := readFlash_keeps offset size baud hf b
      refine ⟨b', ?_, hport, fun a ha => absurd (congrFun hmemory a) ha⟩
      exact congrArg (Option.map Prod.snd) hread
  | flash plan baud =>
      obtain ⟨r, b', hflash, hport, hacted⟩ := flash_acts lib (h.plan plan baud rfl) baud hf b
      refine ⟨b', congrArg (Option.map Prod.snd) hflash, hport, fun a ha => ?_⟩
      cases hacted with
      | refused hmemory => exact absurd (congrFun hmemory a) ha
      | acted info hchecked hmemory =>
          obtain ⟨hbaud, chip, hvalid, hfits⟩ := hchecked
          refine ⟨?_, hbaud, chip, info, hvalid, hfits⟩
          by_contra hout
          refine ha ((congrFun hmemory a).trans (hf.confined _ _ a ?_))
          refine List.forall_mem_map.mpr fun s hs hmem => hout ⟨s, hs, hmem⟩
  | eraseFlash baud =>
      obtain ⟨r, b', herase, hport, hacted⟩ := eraseFlash_acts baud hf b
      refine ⟨b', congrArg (Option.map Prod.snd) herase, hport, fun a ha => ?_⟩
      cases hacted with
      | refused hmemory => exact absurd (congrFun hmemory a) ha
      | acted info hchecked => exact hchecked

/-- One chip, whose bootloader lies at the start. -/
def plainEspflash : Espflash where
  Chip := Unit
  Frequency := Unit
  Size := Unit
  parseChip text := if text = "esp32s3" then .ok () else .error (.msg "chip")
  id _ := 9
  bootAddress _ := 0
  parseMode _ := .ok .dio
  parseFrequency _ := .ok ()
  encodeFrequency _ _ := .ok 0x0f
  parseSize _ := .ok ()
  bytes _ := 0x400000
  encodeSize _ := .ok 2

def plainFlasher : Flasher where
  tryConnect := { answer := .ok () }
  secureDownloadMode := false
  securityInfo := { answer := .ok ⟨0, 0⟩ }
  deviceInfo := { answer := .ok { chip := "esp32s3", flashSizeBytes := 0x400000 } }
  writeBins blocks memory := (.ok (), writeAll sectorSize blocks memory)
  readFlash offset size memory := (.ok (NorFlash.read memory offset size), memory)
  eraseFlash _ := (.ok (), fun _ => 0xff)
  temporary := .ok ()
  copy := .ok ()

theorem plainFlasher_faithful : Faithful plainFlasher where
  gives _ := rfl
  connects := rfl
  secures := rfl
  informs := rfl
  written _ _ _ := rfl
  confined _ _ _ h := writeAll_outside (by decide) h
  read _ _ _ _ h := (Except.ok.inj h).symm
  reads _ _ _ := rfl

def header : List UInt8 :=
  [0xe9, 0, 2, 0x2f, 0, 0, 0, 0, 0, 0, 0, 0, 9, 0, 0, 0, 0, 0, 0, 0, 0, 0, 0, 0]

def smallPlan : PreparedPlan :=
  { chip := "esp32s3", flashSettings := { mode := some "dio", size := some "4MB" }
    segments := [{ offset := 0, data := header, originalSize := 24 },
      { offset := 0x1000, data := [1, 2, 3, 255], originalSize := 3 }] }

theorem smallPlan_prepared : FlashPlan.Prepared smallPlan where
  chip := by decide
  count := by decide
  padded := by
    intro s hs
    rcases List.mem_cons.mp hs with rfl | hs
    · exact ⟨⟨header, by decide, by decide, rfl⟩, by decide, by decide⟩
    · rw [List.mem_singleton.mp hs]
      exact ⟨⟨[1, 2, 3], by decide, by decide, rfl⟩, by decide, by decide⟩
  sorted := by decide
  apart := by decide

def plainSteps : List Step :=
  [⟨.flash smallPlan 460800, plainFlasher⟩, ⟨.readFlash 0x1000 3 460800, plainFlasher⟩]

def plainBench : Bench :=
  { connection := some ⟨"/dev/ttyACM0", 115200⟩, protocolInput := false, memory := fun _ => 0 }

theorem plainSteps_proper : ∀ step ∈ plainSteps, step.Proper := by
  intro step hstep
  rcases List.mem_cons.mp hstep with rfl | hstep
  · exact ⟨fun plan baud h => by cases h; exact smallPlan_prepared, plainFlasher_faithful⟩
  · rw [List.mem_singleton.mp hstep]
    exact ⟨(fun plan baud h => by cases h), plainFlasher_faithful⟩

/-- Any operations one after the other, whatever fails: none panics, the session keeps its port,
and a byte changes only in a step whose checks have been passed. -/
theorem changes_allowed (lib : Espflash) (b : Bench) (steps : List Step)
    (h : ∀ step ∈ steps, step.Proper) :
    ∃ b', b.run lib steps = some b' ∧ b'.port = b.port ∧
      ∀ a, b'.memory a ≠ b.memory a → ∃ step ∈ steps, step.Allows lib a := by
  induction steps generalizing b with
  | nil => exact ⟨b, rfl, rfl, fun a ha => absurd rfl ha⟩
  | cons step steps ih =>
      obtain ⟨b', hnext, hport, hchanged⟩ := next_spec lib (h step List.mem_cons_self) b
      obtain ⟨b'', hrun, hport', hchanged'⟩ :=
        ih b' fun step hstep => h step (List.mem_cons_of_mem _ hstep)
      refine ⟨b'', run_cons.mpr ⟨b', hnext, hrun⟩, hport'.trans hport, fun a ha => ?_⟩
      by_cases hsame : b'.memory a = b.memory a
      · obtain ⟨s, hs, hallows⟩ := hchanged' a (by rwa [hsame])
        exact ⟨s, List.mem_cons_of_mem _ hs, hallows⟩
      · exact ⟨step, List.mem_cons_self, hchanged a hsame⟩

theorem changes_allowed_plain :
    ∃ b', plainBench.run plainEspflash plainSteps = some b' ∧ b'.port = some "/dev/ttyACM0" ∧
      ∀ a, b'.memory a ≠ 0 → ∃ step ∈ plainSteps, step.Allows plainEspflash a :=
  changes_allowed plainEspflash plainBench plainSteps plainSteps_proper

/-- The step neither erases the flash nor writes to a sector of the plan. -/
def Step.Spares (step : Step) (plan : PreparedPlan) : Prop :=
  match step.operation with
  | .flash other _ => ∀ a, Covers other a → ¬ Covers plan a
  | .eraseFlash _ => False
  | _ => True

theorem next_spared {lib : Espflash} {step : Step} (h : step.Proper) {plan : PreparedPlan}
    (hspares : step.Spares plan) {b b' : Bench} (hnext : b.next lib step = some b') {a : ℕ}
    (ha : Covers plan a) : b'.memory a = b.memory a := by
  obtain ⟨b₁, hnext₁, -, hchanged⟩ := next_spec lib h b
  obtain rfl := Option.some.inj (hnext₁.symm.trans hnext)
  by_contra hne
  have hallows := hchanged a hne
  obtain ⟨operation, f⟩ := step
  cases operation with
  | flash other baud => exact hspares a hallows.1 ha
  | eraseFlash baud => exact hspares
  | _ => exact hallows

theorem run_spared {lib : Espflash} {plan : PreparedPlan} {steps : List Step}
    (h : ∀ step ∈ steps, step.Proper ∧ step.Spares plan) {b b' : Bench}
    (hrun : b.run lib steps = some b') {a : ℕ} (ha : Covers plan a) :
    b'.memory a = b.memory a := by
  induction steps generalizing b with
  | nil =>
      obtain rfl := Option.some.inj hrun
      rfl
  | cons step steps ih =>
      obtain ⟨b₁, hnext, hrest⟩ := run_cons.mp hrun
      obtain ⟨hproper, hspares⟩ := h step List.mem_cons_self
      exact (ih (fun s hs => h s (List.mem_cons_of_mem _ hs)) hrest).trans
        (next_spared hproper hspares hnext ha)

theorem extents_blocks (plan : PreparedPlan) :
    (PreparedPlan.blocks plan).map Block.extent = plan.segments.map PreparedSegment.extent := by
  rw [PreparedPlan.blocks, List.map_map]
  rfl

/-- After a successful write every segment is in the memory. -/
theorem holds_of_flash {lib : Espflash} {plan : PreparedPlan} (hplan : FlashPlan.Prepared plan)
    {baud : ℕ} {f : Flasher} (hfaithful : Faithful f) {b b' : Bench} {info : BoardInfo}
    (hflash : flash lib plan baud f b = some (.ok info, b')) :
    ∀ block ∈ PreparedPlan.blocks plan, Holds b'.memory block := by
  obtain ⟨r, b₁, hflash₁, -, hacted⟩ := flash_acts lib hplan baud hfaithful b
  obtain ⟨rfl, rfl⟩ := Prod.mk.inj (Option.some.inj (hflash₁.symm.trans hflash))
  cases hacted with
  | refused hmemory hr => exact absurd rfl (hr info)
  | acted checked hchecked hmemory hr =>
      rw [hmemory, hfaithful.written _ _ (hr info rfl).1]
      have hdisjointed := hplan.disjointed
      rw [← extents_blocks] at hdisjointed
      exact fun block hblock => writeAll_holds (by decide) hdisjointed hblock

/-- What a plan has written is read back, after any operations that spare its sectors. -/
theorem flash_read_back (lib : Espflash) (b : Bench) (plan : PreparedPlan)
    (hplan : FlashPlan.Prepared plan) (baud : ℕ) (f : Flasher) (hfaithful : Faithful f)
    (info : BoardInfo) (b' : Bench) (hflash : flash lib plan baud f b = some (.ok info, b'))
    (steps : List Step) (hsteps : ∀ step ∈ steps, step.Proper ∧ step.Spares plan)
    (b'' : Bench) (hrun : b'.run lib steps = some b'') :
    ∀ s ∈ plan.segments, ∀ (offset size : UInt32) (baud : ℕ) (reader : Flasher) (out : BoardInfo)
      (data : List UInt8) (left : Bench), Faithful reader →
      readFlash offset size baud reader b'' = some (.ok (out, data), left) →
      s.offset ≤ offset → offset.toNat + size.toNat ≤ s.offset.toNat + s.data.length →
      data = (s.data.drop (offset.toNat - s.offset.toNat)).take size.toNat := by
  intro s hs offset size baud reader out data left hreader hread hlow hhigh
  have hlow := UInt32.le_iff_toNat_le.mp hlow
  have hheld := holds_of_flash hplan hfaithful hflash ⟨s.offset.toNat, s.data⟩
    (List.mem_map_of_mem hs)
  obtain ⟨r, left', hread', -, -, hok⟩ := readFlash_keeps offset size baud hreader b''
  obtain ⟨rfl, -⟩ := Prod.mk.inj (Option.some.inj (hread'.symm.trans hread))
  have hdata := hreader.read _ _ _ _ (hok out data rfl)
  have hstill : Holds b''.memory ⟨s.offset.toNat, s.data⟩ := by
    rw [holds_iff] at hheld ⊢
    intro i byte hi
    rw [← hheld i byte hi]
    refine run_spared hsteps hrun ⟨s, hs, ?_⟩
    have hlt := (List.getElem?_eq_some_iff.mp hi).1
    have hdown := roundDown_le sectorSize s.offset.toNat
    have hup := le_roundUp (show 0 < sectorSize by decide) (s.offset.toNat + s.data.length)
    dsimp only at hlt
    exact ⟨show roundDown sectorSize s.offset.toNat ≤ _ by dsimp only; omega,
      show _ < roundUp sectorSize (s.offset.toNat + s.data.length) by dsimp only; omega⟩
  rw [hdata, ← read_of_holds hstill (by dsimp only; omega)]
  congr 1
  dsimp only
  omega

/-- What the small plan leaves. -/
def plainWritten : Bench :=
  { plainBench with
    protocolInput := true
    memory := (plainFlasher.writeBins (PreparedPlan.blocks smallPlan) plainBench.memory).2 }

/-- When all checks pass and espflash succeeds. -/
theorem flash_ok {lib : Espflash} {plan : PreparedPlan} {baud : ℕ} {f : Flasher} {b : Bench}
    {connection : Connection} {chip : lib.Chip} {info : BoardInfo}
    (hvalid : (validate lib plan).run = some (.ok chip)) (hbaud : 115200 ≤ baud)
    (hconnection : b.connection = some connection) (hconnect : f.tryConnect = ⟨.ok (), id⟩)
    (hfits : (flashable lib f plan chip).run b.memory = some (.ok info, b.memory))
    (hwritten : (f.writeBins (PreparedPlan.blocks plan) b.memory).1 = .ok ()) :
    flash lib plan baud f b = some (.ok info,
      { connection := some (f.giveBack connection)
        protocolInput := true
        memory := (f.writeBins (PreparedPlan.blocks plan) b.memory).2 }) := by
  have hfirst : (do
      let chip ← validate lib plan
      ensure (115200 ≤ baud) "flash baud must be at least 115200"
      return chip : Checked lib.Chip).run = some (.ok chip) := by
    rw [ExceptT.run_bind, hvalid, decide_eq_true hbaud]
    rfl
  unfold flash first
  rw [hfirst, Option.bind_some]
  dsimp only
  unfold withFlasher
  rw [hconnection, hconnect]
  dsimp only [id]
  rw [guarded, run_bind, hfits, Option.bind_some]
  dsimp only
  rw [run_bind]
  change Option.map _ (Option.bind (some (withContext _ (f.writeBins (PreparedPlan.blocks plan)
    b.memory).1, (f.writeBins (PreparedPlan.blocks plan) b.memory).2)) _) = _
  rw [hwritten]
  rfl

theorem flash_read_back_plain : NorFlash.read plainWritten.memory 0x1001 2 = [2, 3] := by
  have hspares : ∀ step ∈ [Step.mk .probe plainFlasher], step.Proper ∧ step.Spares smallPlan := by
    intro step hstep
    rw [List.mem_singleton.mp hstep]
    exact ⟨⟨(fun plan baud h => by cases h), plainFlasher_faithful⟩, trivial⟩
  have hvalid : (validate plainEspflash smallPlan).run = some (.ok ()) := by rfl
  have hfits : (flashable plainEspflash plainFlasher smallPlan ()).run plainBench.memory =
      some (.ok { chip := "esp32s3", flashSizeBytes := 0x400000 }, plainBench.memory) := by rfl
  have hflash : flash plainEspflash smallPlan 460800 plainFlasher plainBench =
      some (.ok { chip := "esp32s3", flashSizeBytes := 0x400000 }, plainWritten) :=
    flash_ok hvalid (by decide) rfl rfl hfits rfl
  have hread : readFlash 0x1001 2 460800 plainFlasher plainWritten =
      some (.ok ({ chip := "esp32s3", flashSizeBytes := 0x400000 },
        NorFlash.read plainWritten.memory 0x1001 2), plainWritten) := by rfl
  exact flash_read_back plainEspflash plainBench smallPlan smallPlan_prepared 460800 plainFlasher
    plainFlasher_faithful _ plainWritten hflash _ hspares plainWritten rfl
    { offset := 0x1000, data := [1, 2, 3, 255], originalSize := 3 } (by decide) 0x1001 2 460800
    plainFlasher _ _ plainWritten plainFlasher_faithful hread (by decide) (by decide)

end IdfRemote.Flashing
