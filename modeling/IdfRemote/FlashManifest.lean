import IdfRemote.DesktopRegistry
import IdfRemote.FlashPlan

/-!
# Upload manifests

A client turns a prepared plan into a manifest and sends the artifacts as parts;
the server checks the manifest, verifies the parts against it and builds the plan
again. Digests are taken by a function that is a parameter.
-/
namespace IdfRemote
open Checked SectorLayout FlashLayout DesktopRegistry

inductive FlashWarning
  | emptyIdfImageSkipped (image : Option String) (offset : UInt32)
deriving DecidableEq, Repr

/-- An image is named by 1 to 128 bytes, if at all. -/
def FlashWarning.namesImage : FlashWarning → Bool
  | .emptyIdfImageSkipped image _ => image.all fun name => name ≠ "" && name.utf8ByteSize ≤ 128

structure UploadSegmentMetadata where
  part : String
  offset : UInt32
  size : UInt64
  sha256 : String
deriving DecidableEq, Repr

structure FlashUploadManifest where
  deviceId : DeviceId
  version : UInt32
  chip : String
  flashSettings : FlashSettings
  segments : List UploadSegmentMetadata
  flashBaud : UInt32
  monitorBaud : UInt32
  noResetBefore : Bool := false
  warnings : List FlashWarning := []
deriving DecidableEq, Repr

/-- The digest in lowercase hexadecimal digits. -/
def sha256Hex (digest : List UInt8 → Vector UInt8 32) (bytes : List UInt8) : String :=
  String.ofList ((digest bytes).toList.flatMap fun byte => (hexDigits 2 byte.toNat).toList)

def hexChar (c : Char) : Bool := c.isDigit || ('a' ≤ c && c ≤ 'f')

/-- The test of the bytes of a declared digest. The characters that pass are one byte long. -/
def lowercaseHex (text : String) : Bool := text.utf8ByteSize = 64 && text.toList.all hexChar

/-- `Option::context`. -/
def orContext {α : Type} (message : String) : Option α → Result α
  | some a => .ok a
  | none => .error (.msg message)

/-- A slice of the first bytes; there is none beyond the end. -/
def slice (data : List UInt8) (size : ℕ) : Option (List UInt8) :=
  if size ≤ data.length then some (data.take size) else none

theorem hexChar_digitChar : ∀ d < 16, hexChar (Nat.digitChar d) = true := by decide

theorem hexDigits_two {n : ℕ} (h : n < 256) :
    ∃ a b, hexChar a = true ∧ hexChar b = true ∧ (hexDigits 2 n).toList = [a, b] := by
  rw [hexDigits, String.toList_ofList]
  by_cases hn : n < 16
  · rw [Nat.toDigits_of_lt_base hn]
    exact ⟨_, _, by decide, hexChar_digitChar n hn, rfl⟩
  · rw [Nat.toDigits_of_base_le (by decide) (by omega),
      Nat.toDigits_of_lt_base (show n / 16 < 16 by omega)]
    exact ⟨_, _, hexChar_digitChar _ (by omega), hexChar_digitChar _ (by omega), rfl⟩

theorem utf8Size_hexChar {c : Char} (h : hexChar c = true) : c.utf8Size = 1 := by
  rw [Char.utf8Size_eq_one_iff]
  simp only [hexChar, Char.isDigit, Bool.or_eq_true, Bool.and_eq_true, decide_eq_true_eq,
    Char.le_def] at h
  rcases h with h | h
  · exact UInt32.le_trans h.2 (by decide)
  · exact UInt32.le_trans h.2 (by decide)

theorem utf8ByteSize_ofList (cs : List Char) :
    (String.ofList cs).utf8ByteSize = (cs.map Char.utf8Size).sum := by
  induction cs with
  | nil => rfl
  | cons c cs ih =>
      rw [String.ofList_cons, String.utf8ByteSize_append, String.utf8ByteSize_singleton, ih]
      rfl

theorem spelled_digits (bytes : List UInt8) :
    ((bytes.flatMap fun byte => (hexDigits 2 byte.toNat).toList).map Char.utf8Size).sum =
        2 * bytes.length ∧
      (bytes.flatMap fun byte => (hexDigits 2 byte.toNat).toList).all hexChar = true := by
  induction bytes with
  | nil => exact ⟨rfl, rfl⟩
  | cons byte bytes ih =>
      obtain ⟨a, b, ha, hb, hdigits⟩ := hexDigits_two byte.toNat_lt
      rw [List.flatMap_cons, hdigits]
      constructor
      · simp only [List.cons_append, List.nil_append, List.map_cons, List.sum_cons, ih.1,
          utf8Size_hexChar ha, utf8Size_hexChar hb, List.length_cons]
        omega
      · simp [ha, hb, ih.2]

/-- The digests a client declares pass the test of the server. -/
theorem lowercaseHex_sha256Hex (digest : List UInt8 → Vector UInt8 32) (bytes : List UInt8) :
    lowercaseHex (sha256Hex digest bytes) = true := by
  have hspelled := spelled_digits (digest bytes).toList
  rw [Vector.length_toList] at hspelled
  simp only [lowercaseHex, sha256Hex, utf8ByteSize_ofList, String.toList_ofList, hspelled.1,
    hspelled.2]
  rfl

namespace FlashUploadManifest

def maxUploadBytes : ℕ := 32 * 1024 * 1024

def partName (index : ℕ) : String := "segment-" ++ toString index

def describe (digest : List UInt8 → Vector UInt8 32) :
    ℕ → List PreparedSegment → Checked (List UploadSegmentMetadata)
  | _, [] => return []
  | index, segment :: rest => do
      let data ← slice segment.data segment.originalSize
      let metadata :=
        { part := partName index, offset := segment.offset
          size := UInt64.ofNat segment.originalSize, sha256 := sha256Hex digest data }
      let rest ← describe digest (index + 1) rest
      return metadata :: rest

def fromPlan (digest : List UInt8 → Vector UInt8 32) (deviceId : DeviceId) (plan : PreparedPlan)
    (flashBaud monitorBaud : UInt32) (noResetBefore : Bool) : Checked FlashUploadManifest := do
  let size ← sum 64 (plan.segments.map fun s => s.data.length)
  ensure (size ≤ maxUploadBytes) "HTTP upload exceeds 32 MiB"
  let segments ← describe digest 0 plan.segments
  return { deviceId, version := 2, chip := plan.chip, flashSettings := plan.flashSettings, segments
           flashBaud, monitorBaud, noResetBefore }

def checkWarnings : List FlashWarning → Checked Unit
  | [] => return ()
  | warning :: rest => do
      ensure warning.namesImage "invalid image name in flash warning"
      checkWarnings rest

/-- The loop over the segments with its variables `index`, `total` and `ranges`. -/
def checkSegments : List UploadSegmentMetadata → ℕ → ℕ → List Extent → Checked (List Extent)
  | [], _, _, ranges => return ranges
  | segment :: rest, index, total, ranges => do
      ensure (segment.part = partName index) "segment part names must be canonical"
      ensure (segment.offset % 4 = 0) "segment offset must be four-byte aligned"
      let total ← orContext "upload size overflow" (add 64 total segment.size.toNat)
      ensure (segment.size > 0 ∧ total ≤ maxUploadBytes)
        "empty artifact or upload exceeds 32 MiB"
      ensure (lowercaseHex segment.sha256) "artifact SHA256 must be lowercase hex"
      let paddedSize ← nextMultipleOf 64 segment.size.toNat 4
      let stop ← add 64 segment.offset.toNat paddedSize
      ensure (stop ≤ 2 ^ 32) "segment address overflow"
      checkSegments rest (index + 1) total (ranges ++ [⟨segment.offset.toNat, paddedSize⟩])

def sortRanges (ranges : List Extent) : List Extent :=
  ranges.insertionSort fun a b => a.offset ≤ b.offset

def validate (m : FlashUploadManifest) : Checked Unit := do
  ensure (m.version = 2) "unsupported upload version"
  ensure (m.chip ≠ "") "chip is required"
  ensure (m.warnings.length ≤ 64) "too many flash warnings"
  checkWarnings m.warnings
  ensure (m.flashBaud ≥ 115200 ∧ m.monitorBaud > 0) "invalid baud rate"
  ensure (m.segments ≠ [] ∧ m.segments.length ≤ 64) "expected 1..64 segments"
  let ranges ← checkSegments m.segments 0 0 []
  eraseWindows id (fun _ _ => "segments overlap or share an erase sector") (sortRanges ranges)

/-- The loop over the segments and the parts they come with. -/
def verifyParts (digest : List UInt8 → Vector UInt8 32) :
    List (UploadSegmentMetadata × List UInt8) → List PreparedSegment →
      Checked (List PreparedSegment)
  | [], segments => return segments
  | (metadata, data) :: rest, segments => do
      ensure (data.length = metadata.size.toNat) "artifact size mismatch"
      ensure (sha256Hex digest data = metadata.sha256) "artifact SHA256 mismatch"
      let originalSize := data.length
      let size ← nextMultipleOf 64 data.length 4
      let data := resize data size
      verifyParts digest rest (segments ++ [{ offset := metadata.offset, data, originalSize }])

def intoPlan (digest : List UInt8 → Vector UInt8 32) (m : FlashUploadManifest)
    (data : List (List UInt8)) : Checked PreparedPlan := do
  m.validate
  ensure (data.length = m.segments.length) "missing artifact part"
  let segments ← verifyParts digest (m.segments.zip data) []
  let segments := FlashPlan.sortSegments segments
  return { chip := m.chip, flashSettings := m.flashSettings, segments }

def artifact (s : UploadSegmentMetadata) : Extent := ⟨s.offset.toNat, s.size.toNat⟩

/-- What is checked besides the layout. -/
structure Declared (m : FlashUploadManifest) : Prop where
  version : m.version = 2
  chip : m.chip ≠ ""
  warnings : m.warnings.length ≤ 64
  images : ∀ w ∈ m.warnings, w.namesImage = true
  bauds : 115200 ≤ m.flashBaud ∧ 0 < m.monitorBaud

/-- Part names by position, from `index` on. -/
def Canonical (segments : List UploadSegmentMetadata) (index : ℕ) : Prop :=
  ∀ i s, segments[i]? = some s → s.part = partName (index + i)

def Digested (segments : List UploadSegmentMetadata) : Prop :=
  ∀ s ∈ segments, lowercaseHex s.sha256 = true

theorem decides_checkWarnings (warnings : List FlashWarning) :
    Decides (checkWarnings warnings) (∀ w ∈ warnings, w.namesImage = true) () := by
  induction warnings with
  | nil => exact (decides_pure ()).congr (by simp)
  | cons warning rest ih =>
      exact (Decides.bind (decides_ensure _ _) fun _ => ih).congr (by simp)

theorem decides_checkedAdd (message : String) (a b : ℕ) :
    Decides (liftM (orContext message (add 64 a b)) : Checked ℕ) (a + b < 2 ^ 64) (a + b) := by
  by_cases h : a + b < 2 ^ 64
  · rw [add_eq_some h]
    exact (decides_pure _).congr (by simpa using h)
  · rw [add, if_neg h]
    exact (decides_throw _ _).congr (by simpa using h)

/-- What the loop asks of the segments that are left, after `total` bytes. -/
structure Accepts (segments : List UploadSegmentMetadata) (index total : ℕ) : Prop where
  canonical : Canonical segments index
  digested : Digested segments
  fits : ∀ s ∈ segments, Fits (artifact s)
  total : total + (segments.map fun s => s.size.toNat).sum ≤ maxUploadBytes

theorem accepts_cons {s : UploadSegmentMetadata} {segments : List UploadSegmentMetadata}
    {index total : ℕ} :
    Accepts (s :: segments) index total ↔
      (s.part = partName index ∧ lowercaseHex s.sha256 = true ∧ Fits (artifact s)) ∧
        Accepts segments (index + 1) (total + s.size.toNat) := by
  have hcanonical : Canonical (s :: segments) index ↔
      s.part = partName index ∧ Canonical segments (index + 1) := by
    constructor
    · intro h
      refine ⟨h 0 s rfl, fun i t ht => ?_⟩
      have := h (i + 1) t ht
      rwa [Nat.add_comm i 1, ← Nat.add_assoc] at this
    · rintro ⟨hs, h⟩ i t ht
      cases i with
      | zero => exact Option.some.inj ht ▸ hs
      | succ i =>
          rw [Nat.add_comm i 1, ← Nat.add_assoc]
          exact h i t ht
  constructor
  · rintro ⟨hc, hd, hf, ht⟩
    have hd := List.forall_mem_cons.mp hd
    have hf := List.forall_mem_cons.mp hf
    rw [List.map_cons, List.sum_cons, ← Nat.add_assoc] at ht
    exact ⟨⟨(hcanonical.mp hc).1, hd.1, hf.1⟩, (hcanonical.mp hc).2, hd.2, hf.2, ht⟩
  · rintro ⟨⟨hc, hd, hf⟩, h⟩
    refine ⟨hcanonical.mpr ⟨hc, h.canonical⟩, List.forall_mem_cons.mpr ⟨hd, h.digested⟩,
      List.forall_mem_cons.mpr ⟨hf, h.fits⟩, ?_⟩
    rw [List.map_cons, List.sum_cons, ← Nat.add_assoc]
    exact h.total

theorem decides_checkSegments (segments : List UploadSegmentMetadata) (index total : ℕ)
    (acc : List Extent) (htotal : total ≤ maxUploadBytes) :
    Decides (checkSegments segments index total acc) (Accepts segments index total)
      (acc ++ segments.map fun s => padded (artifact s)) := by
  induction segments generalizing index total acc with
  | nil =>
      rw [show acc ++ [].map (fun s => padded (artifact s)) = acc by simp]
      refine (decides_pure acc).congr ⟨fun _ => ⟨?_, ?_, ?_, ?_⟩, fun _ => trivial⟩
      · simp [Canonical]
      · simp [Digested]
      · simp
      · simpa using htotal
  | cons s segments ih =>
      refine (Decides.bind (decides_ensure _ _) fun _ =>
        Decides.bind (decides_ensure _ _) fun _ =>
        Decides.bind (decides_checkedAdd _ _ _) fun _ =>
        Decides.bind (q := lowercaseHex s.sha256 = true ∧
            s.offset.toNat + (padded (artifact s)).size ≤ 2 ^ 32 ∧
          Accepts segments (index + 1) (total + s.size.toNat))
          (decides_ensure _ _) fun hsize => ?_).congr ?_
      · -- the size is below the limit of an upload
        have hmax : maxUploadBytes = 2 ^ 25 := rfl
        have hle := (of_decide_eq_true hsize).2
        have hround := roundUp_lt (m := 4) (by decide) s.size.toNat
        have hoffset := s.offset.toNat_lt
        have hrest := ih (index + 1) (total + s.size.toNat)
          (acc ++ [⟨s.offset.toNat, roundUp 4 s.size.toNat⟩]) hle
        rw [List.append_assoc, List.singleton_append] at hrest
        refine (Decides.bind (decides_ensure _ _) fun _ =>
          Decides.bind (decides_some (nextMultipleOf_eq_some (by decide) (by omega))) fun _ =>
          Decides.bind (decides_some (add_eq_some (by omega))) fun _ =>
          Decides.bind (decides_ensure _ _) fun _ => hrest).congr ?_
        simp [padded, artifact]
      · rw [accepts_cons, Fits, artifact, ← four_dvd_iff]
        have hpos : 0 < s.size ↔ 0 < s.size.toNat := UInt64.lt_iff_toNat_lt
        have hmax : maxUploadBytes < 2 ^ 64 := by decide
        simp only [decide_eq_true_eq, padded, gt_iff_lt, hpos]
        constructor
        · rintro ⟨hpart, halign, -, ⟨hsize, -⟩, hhex, hinside, hrest⟩
          exact ⟨⟨hpart, hhex, halign, hsize, hinside⟩, hrest⟩
        · rintro ⟨⟨hpart, hhex, halign, hsize, hinside⟩, hrest⟩
          have := hrest.total
          exact ⟨hpart, halign, by omega, ⟨hsize, by omega⟩, hhex, hinside, hrest⟩

theorem sorted_sortRanges (ranges : List Extent) : Sorted (sortRanges ranges) :=
  (List.pairwise_insertionSort _ ranges).imp id

/-- What `validate` asks for. -/
structure Valid (m : FlashUploadManifest) : Prop where
  declared : Declared m
  canonical : Canonical m.segments 0
  digested : Digested m.segments
  safe : Safe maxUploadBytes (m.segments.map artifact)

theorem decides_validate (m : FlashUploadManifest) : Decides m.validate m.Valid () := by
  have hsegments := decides_checkSegments m.segments 0 0 [] (Nat.zero_le _)
  rw [List.nil_append] at hsegments
  have hperm : (sortRanges (m.segments.map fun s => padded (artifact s))).Perm
      (m.segments.map fun s => padded (artifact s)) := List.perm_insertionSort _ _
  refine (Decides.bind (decides_ensure _ _) fun _ =>
    Decides.bind (decides_ensure _ _) fun _ =>
    Decides.bind (decides_ensure _ _) fun _ =>
    Decides.bind (decides_checkWarnings m.warnings) fun _ =>
    Decides.bind (decides_ensure _ _) fun _ =>
    Decides.bind (decides_ensure _ _) fun _ =>
    Decides.bind hsegments fun hacc =>
    decides_eraseWindows id (fun _ _ => "segments overlap or share an erase sector")
      (sortRanges (m.segments.map fun s => padded (artifact s))) ?_).congr ?_
  · intro e he
    obtain ⟨s, hs, rfl⟩ := List.mem_map.mp (hperm.mem_iff.mp he)
    exact (hacc.fits s hs).2.2
  · have hpadded : (sortRanges (m.segments.map fun s => padded (artifact s))).Perm
        ((m.segments.map artifact).map padded) := by
      rw [List.map_map]
      exact hperm
    have hlayout : Safe maxUploadBytes (m.segments.map artifact) ↔ _ :=
      safe_iff hpadded (sorted_sortRanges _)
    have hsum : ((m.segments.map artifact).map Extent.size).sum =
        (m.segments.map fun s => s.size.toNat).sum := by simp [artifact, Function.comp_def]
    simp only [decide_eq_true_eq, List.map_id]
    constructor
    · rintro ⟨hversion, hchip, hwarnings, himages, hbauds, hcount, hacc, hchain⟩
      refine ⟨⟨hversion, hchip, hwarnings, himages, hbauds⟩, hacc.canonical, hacc.digested,
        hlayout.mpr ⟨by simpa using hcount, ?_, ?_, hchain⟩⟩
      · exact List.forall_mem_map.mpr hacc.fits
      · rw [hsum]
        simpa using hacc.total
    · rintro ⟨⟨hversion, hchip, hwarnings, himages, hbauds⟩, hcanonical, hdigested, hsafe⟩
      have hparts := hlayout.mp hsafe
      refine ⟨hversion, hchip, hwarnings, himages, hbauds, by simpa using hparts.1,
        ⟨hcanonical, hdigested, List.forall_mem_map.mp hparts.2.1, ?_⟩, hparts.2.2.2⟩
      rw [← hsum, Nat.zero_add]
      exact hparts.2.2.1

/-- Client and server accept the same layouts, up to their limits, and neither overflows. -/
theorem layouts_agree :
    (∀ (Path : Type) (files : Files Path) (base : Path) (contents : Path → List UInt8)
      (plan : FlashPlan Path), plan.version = 1 → plan.chip ≠ "" →
      FlashPlan.ReadsInFull files base contents plan →
      ∃ r, (FlashPlan.prepare files plan base).run = some r ∧
        ((∃ p, r = .ok p) ↔
          Safe (128 * 1024 * 1024) (plan.segments.map (FlashPlan.artifact contents)))) ∧
    (∀ m : FlashUploadManifest, Declared m → Canonical m.segments 0 → Digested m.segments →
      ∃ r, m.validate.run = some r ∧
        ((∃ u, r = .ok u) ↔ Safe (32 * 1024 * 1024) (m.segments.map artifact))) ∧
    (∀ (Path : Type) (files : Files Path) (base : Path) (plan : FlashPlan Path),
      ∃ r, (FlashPlan.prepare files plan base).run = some r) ∧
    ∀ m : FlashUploadManifest, ∃ r, m.validate.run = some r := by
  refine ⟨?_, ?_, ?_, ?_⟩
  · intro Path files base contents plan hversion hchip hfull
    obtain ⟨r, hr, hiff, -⟩ := (FlashPlan.decides_prepare hfull).result
    refine ⟨r, hr, hiff.trans ⟨fun h => h.2.2, fun h => ⟨hversion, hchip, h⟩⟩⟩
  · intro m hdeclared hcanonical hdigested
    obtain ⟨r, hr, hiff, -⟩ := (decides_validate m).result
    exact ⟨r, hr, hiff.trans ⟨fun h => h.safe, fun h => ⟨hdeclared, hcanonical, hdigested, h⟩⟩⟩
  · intro Path files base plan
    have hensures : Ensures (FlashPlan.prepare files plan base) _ := FlashPlan.ensures_prepare plan
    obtain ⟨r, hr, -⟩ := hensures
    exact ⟨r, hr⟩
  · intro m
    obtain ⟨r, hr, -⟩ := (decides_validate m).result
    exact ⟨r, hr⟩

/-- A file system whose paths are the contents of their files. -/
def literalFiles : Files (List UInt8) where
  join _ path := path
  display _ := "image.bin"
  openFile path := .ok
    { take := fun limit => .ok (path.take limit)
      bounded := by
        intro limit data h
        rw [← Except.ok.inj h, List.length_take]
        exact Nat.min_le_left _ _ }

def twoImages : FlashPlan (List UInt8) :=
  { version := 1, chip := "esp32s3"
    segments := [{ offset := 0x1000, file := [1, 2, 3] }, { offset := 0, file := [4] }] }

def oneByte : FlashUploadManifest :=
  { deviceId := "dev_test", version := 2, chip := "esp32s3", flashSettings := {}
    segments := [{ part := partName 0, offset := 0x1000, size := 1
                   sha256 := sha256Hex (fun _ => .replicate 32 0) [4] }]
    flashBaud := 460800, monitorBaud := 115200 }

theorem layouts_agree_twoImages :
    (∃ r, (FlashPlan.prepare literalFiles twoImages []).run = some r ∧
      ((∃ p, r = .ok p) ↔
        Safe (128 * 1024 * 1024) (twoImages.segments.map (FlashPlan.artifact id)))) ∧
    ∃ r, oneByte.validate.run = some r ∧
      ((∃ u, r = .ok u) ↔ Safe (32 * 1024 * 1024) [⟨0x1000, 1⟩]) := by
  constructor
  · apply layouts_agree.1 _ literalFiles [] id twoImages (by decide) (by decide)
    exact fun s _ => ⟨_, rfl, fun _ => rfl⟩
  · apply layouts_agree.2.1 oneByte
    · exact ⟨by decide, by decide, by decide, by simp [oneByte], by decide⟩
    · intro i s hs
      cases i with
      | zero => exact (Option.some.inj hs) ▸ rfl
      | succ i => exact absurd hs (by simp [oneByte])
    · intro s hs
      rw [List.mem_singleton.mp hs]
      exact lowercaseHex_sha256Hex _ _

end FlashUploadManifest
end IdfRemote
