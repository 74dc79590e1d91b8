import IdfRemote.FlashLayout

/-!
# Flash plans

A plan names files; `prepare` reads them once and checks where they will be
written. The file system is a parameter: opening a file may fail, and a reader
that is limited to a number of bytes returns at most that many.
-/
namespace IdfRemote
open Checked SectorLayout FlashLayout

structure FlashSettings where
  mode : Option String := none
  frequency : Option String := none
  size : Option String := none
deriving DecidableEq, Repr

structure FileSegment (Path : Type) where
  offset : UInt32
  file : Path

structure FlashPlan (Path : Type) where
  version : UInt32
  chip : String
  flashSettings : FlashSettings := {}
  segments : List (FileSegment Path)

structure PreparedSegment where
  offset : UInt32
  data : List UInt8
  originalSize : ℕ
deriving DecidableEq, Repr

structure PreparedPlan where
  chip : String
  flashSettings : FlashSettings
  segments : List PreparedSegment
deriving DecidableEq, Repr

/-- `take(limit)` and `read_to_end` on an open file. -/
structure Reader where
  take : ℕ → Result (List UInt8)
  bounded : ∀ limit data, take limit = .ok data → data.length ≤ limit

structure Files (Path : Type) where
  join : Path → Path → Path
  display : Path → String
  openFile : Path → Result Reader

/-- The `{:#x}` rendering. -/
def hex (n : UInt32) : String := "0x" ++ String.ofList (Nat.toDigits 16 n.toNat)

def withContext {α : Type} (message : String) (result : Result α) : Result α :=
  result.mapError (·.context message)

theorem ok_of_withContext {α : Type} {message : String} {x : Result α} {a : α}
    (h : withContext message x = .ok a) : x = .ok a := by
  cases x with
  | error e => cases h
  | ok b => rw [Except.ok.inj h]

/-- `Vec::resize` with an erased byte. -/
def resize (data : List UInt8) (size : ℕ) : List UInt8 :=
  data.take size ++ List.replicate (size - data.length) 0xff

def PreparedSegment.extent (s : PreparedSegment) : Extent := ⟨s.offset.toNat, s.data.length⟩

namespace FlashPlan

def maxArtifactBytes : ℕ := 128 * 1024 * 1024

def sharedSector (a b : PreparedSegment) : String :=
  "segments at " ++ hex a.offset ++ " and " ++ hex b.offset ++ " overlap or share an erase sector"

variable {Path : Type} (files : Files Path)

/-- The loop over the segments with its variables `total` and `segments`. -/
def readArtifacts (base : Path) :
    List (FileSegment Path) → ℕ → List PreparedSegment → Checked (List PreparedSegment)
  | [], _, segments => return segments
  | segment :: rest, total, segments => do
      ensure (segment.offset % 4 = 0)
        ("offset " ++ hex segment.offset ++ " must be four-byte aligned")
      let path := files.join base segment.file
      let file ← withContext ("open artifact " ++ files.display path) (files.openFile path)
      let room ← sub maxArtifactBytes total
      let limit ← add 64 room 1
      let data ← file.take limit
      let total ← add 64 total data.length
      ensure (total ≤ maxArtifactBytes) "artifacts exceed 128 MiB"
      ensure (data ≠ []) ("empty artifact: " ++ files.display path)
      let originalSize := data.length
      let size ← nextMultipleOf 64 data.length 4
      let data := resize data size
      let stop ← add 64 segment.offset.toNat data.length
      ensure (stop ≤ 2 ^ 32)
        ("segment at " ++ hex segment.offset ++ " exceeds the flash address space")
      readArtifacts base rest total (segments ++ [{ offset := segment.offset, data, originalSize }])

/-- `sort_by_key`: segments with one offset keep their order. -/
def sortSegments (segments : List PreparedSegment) : List PreparedSegment :=
  segments.insertionSort fun a b => a.offset ≤ b.offset

def prepare (plan : FlashPlan Path) (base : Path) : Checked PreparedPlan := do
  ensure (plan.version = 1) ("unsupported FlashPlan version " ++ toString plan.version.toNat)
  ensure (plan.chip ≠ "") "chip is required"
  ensure (plan.segments ≠ [] ∧ plan.segments.length ≤ 64) "expected 1..64 segments"
  let segments ← readArtifacts files base plan.segments 0 []
  let segments := sortSegments segments
  eraseWindows PreparedSegment.extent sharedSector segments
  return { chip := plan.chip, flashSettings := plan.flashSettings, segments }

/-- Every file of the plan can be opened and is read up to the limit of the reader. -/
def ReadsInFull (base : Path) (contents : Path → List UInt8) (plan : FlashPlan Path) : Prop :=
  ∀ s ∈ plan.segments, ∃ reader, files.openFile (files.join base s.file) = .ok reader ∧
    ∀ limit, reader.take limit = .ok ((contents s.file).take limit)

/-- A segment with its whole file. -/
def artifact (contents : Path → List UInt8) (s : FileSegment Path) : Extent :=
  ⟨s.offset.toNat, (contents s.file).length⟩

def prepared (contents : Path → List UInt8) (s : FileSegment Path) : PreparedSegment :=
  { offset := s.offset
    data := resize (contents s.file) (roundUp 4 (contents s.file).length)
    originalSize := (contents s.file).length }

theorem length_resize_roundUp (data : List UInt8) :
    (resize data (roundUp 4 data.length)).length = roundUp 4 data.length := by
  have := le_roundUp (m := 4) (by decide) data.length
  simp [resize]
  omega

@[simp] theorem extent_prepared (contents : Path → List UInt8) (s : FileSegment Path) :
    (prepared contents s).extent = padded (artifact contents s) := by
  simp [prepared, PreparedSegment.extent, artifact, padded, length_resize_roundUp]

variable {files} {base : Path} {contents : Path → List UInt8}

/-- What the loop asks of the segments that are left, after `total` bytes. -/
def Accepts (contents : Path → List UInt8) (segments : List (FileSegment Path)) (total : ℕ) :
    Prop :=
  (∀ s ∈ segments, Fits (artifact contents s)) ∧
    total + (segments.map fun s => (contents s.file).length).sum ≤ maxArtifactBytes

theorem accepts_cons {s : FileSegment Path} {segments : List (FileSegment Path)} {total : ℕ} :
    Accepts contents (s :: segments) total ↔
      Fits (artifact contents s) ∧
        Accepts contents segments (total + (contents s.file).length) := by
  simp only [Accepts, List.forall_mem_cons, List.map_cons, List.sum_cons, and_assoc,
    Nat.add_assoc]

/-- One iteration accepts a segment by its own offset and size and by the sum of the sizes so
far; no sum leaves its width while the total is within the limit. -/
theorem decides_readArtifacts (segments : List (FileSegment Path)) (total : ℕ)
    (acc : List PreparedSegment) (htotal : total ≤ maxArtifactBytes)
    (hfull : ∀ s ∈ segments, ∃ reader, files.openFile (files.join base s.file) = .ok reader ∧
      ∀ limit, reader.take limit = .ok ((contents s.file).take limit)) :
    Decides (readArtifacts files base segments total acc) (Accepts contents segments total)
      (acc ++ segments.map (prepared contents)) := by
  induction segments generalizing total acc with
  | nil =>
      rw [show acc ++ List.map (prepared contents) [] = acc by simp]
      exact (decides_pure acc).congr (by simpa [Accepts] using htotal)
  | cons s segments ih =>
      obtain ⟨reader, hopen, hread⟩ := hfull s List.mem_cons_self
      have hmax : maxArtifactBytes = 2 ^ 27 := rfl
      have hopened : withContext
          ("open artifact " ++ files.display (files.join base s.file))
          (files.openFile (files.join base s.file)) = .ok reader := by
        rw [hopen]
        rfl
      have hlen : ((contents s.file).take (maxArtifactBytes - total + 1)).length =
          min (maxArtifactBytes - total + 1) (contents s.file).length := List.length_take
      refine (Decides.bind (decides_ensure _ _) fun _ =>
        Decides.bind (decides_ok hopened) fun _ =>
        Decides.bind (decides_some (sub_eq_some htotal)) fun _ =>
        Decides.bind (decides_some (add_eq_some (by omega))) fun _ =>
        Decides.bind (decides_ok (hread _)) fun _ =>
        Decides.bind (decides_some (add_eq_some (by omega))) fun _ =>
        Decides.bind (q := (0 < (contents s.file).length ∧
            s.offset.toNat + roundUp 4 (contents s.file).length ≤ 2 ^ 32) ∧
          Accepts contents segments (total + (contents s.file).length))
          (decides_ensure _ _) fun hle => ?_).congr ?_
      · -- the file is within the limit and has been read to its end
        have hle := of_decide_eq_true hle
        have hdata : (contents s.file).take (maxArtifactBytes - total + 1) = contents s.file :=
          List.take_of_length_le (by omega)
        rw [hdata] at hle ⊢
        have hround := roundUp_lt (m := 4) (by decide) (contents s.file).length
        have hoffset := s.offset.toNat_lt
        have hresize := length_resize_roundUp (contents s.file)
        have hrest := ih (total + (contents s.file).length) (acc ++ [prepared contents s]) hle
          fun t ht => hfull t (List.mem_cons_of_mem _ ht)
        rw [List.append_assoc, List.singleton_append, ← List.map_cons] at hrest
        refine (Decides.bind (decides_ensure _ _) fun _ =>
          Decides.bind (decides_some (nextMultipleOf_eq_some (by decide) (by omega))) fun _ =>
          Decides.bind (decides_some (add_eq_some (by omega))) fun _ =>
          Decides.bind (decides_ensure _ _) fun _ => hrest).congr ?_
        simp [hresize, List.length_pos_iff, and_assoc]
      · rw [accepts_cons, Fits, artifact, ← four_dvd_iff, Accepts]
        simp only [padded, hlen, decide_eq_true_eq, true_and]
        constructor
        · rintro ⟨halign, hle, h⟩
          exact ⟨⟨halign, h.1⟩, h.2⟩
        · rintro ⟨⟨halign, hfit⟩, hrest⟩
          exact ⟨halign, by omega, hfit, hrest⟩

theorem perm_sortSegments (segments : List PreparedSegment) :
    (sortSegments segments).Perm segments := List.perm_insertionSort _ _

theorem sorted_sortSegments (segments : List PreparedSegment) :
    Sorted ((sortSegments segments).map PreparedSegment.extent) := by
  rw [Sorted, List.pairwise_map]
  exact (List.pairwise_insertionSort _ segments).imp id

/-- The whole plan is accepted for its version, its chip and a safe layout. -/
theorem decides_prepare {plan : FlashPlan Path} (hfull : ReadsInFull files base contents plan) :
    Decides (prepare files plan base)
      (plan.version = 1 ∧ plan.chip ≠ "" ∧
        Safe maxArtifactBytes (plan.segments.map (artifact contents)))
      { chip := plan.chip, flashSettings := plan.flashSettings
        segments := sortSegments (plan.segments.map (prepared contents)) } := by
  have hread := decides_readArtifacts plan.segments 0 [] (Nat.zero_le _) hfull
  rw [List.nil_append] at hread
  have hextents : (plan.segments.map (prepared contents)).map PreparedSegment.extent =
      (plan.segments.map (artifact contents)).map padded := by
    simp
  have hperm := perm_sortSegments (plan.segments.map (prepared contents))
  refine (Decides.bind (decides_ensure _ _) fun _ =>
    Decides.bind (decides_ensure _ _) fun _ =>
    Decides.bind (decides_ensure _ _) fun _ =>
    Decides.bind hread fun hacc =>
    Decides.bind (decides_eraseWindows _ _ _ ?_) fun _ =>
    decides_pure (PreparedPlan.mk _ _ _)).congr ?_
  · intro s hs
    obtain ⟨t, ht, rfl⟩ := List.mem_map.mp (hperm.mem_iff.mp hs)
    rw [extent_prepared]
    exact (hacc.1 t ht).2.2
  · have hlayout : Safe maxArtifactBytes (plan.segments.map (artifact contents)) ↔ _ :=
      safe_iff (hextents ▸ hperm.map _) (sorted_sortSegments _)
    rw [hlayout]
    simp [Accepts, artifact, Function.comp_def, and_assoc]

/-- A segment as `prepare` leaves it: a file that is not empty, with its padding, at an aligned
offset inside the address space. -/
structure Padded (s : PreparedSegment) : Prop where
  file : ∃ file, file ≠ [] ∧ s.data = resize file (roundUp 4 file.length) ∧
    s.originalSize = file.length
  aligned : 4 ∣ s.offset.toNat
  inside : s.extent.offset + s.extent.size ≤ 2 ^ 32

/-- Whatever the files are, the loop does not overflow, and returns padded segments. -/
theorem ensures_readArtifacts (segments : List (FileSegment Path)) (total : ℕ)
    (acc : List PreparedSegment) (htotal : total ≤ maxArtifactBytes)
    (hacc : ∀ s ∈ acc, Padded s) :
    Ensures (readArtifacts files base segments total acc) fun out =>
      (∀ s ∈ out, Padded s) ∧ out.length = acc.length + segments.length := by
  induction segments generalizing total acc with
  | nil => exact ensures_pure ⟨hacc, rfl⟩
  | cons s segments ih =>
      have hmax : maxArtifactBytes = 2 ^ 27 := rfl
      refine Ensures.bind (ensures_ensure _ _) fun _ haligned =>
        Ensures.bind (ensures_any _) fun reader _ =>
        Ensures.bind (ensures_some (sub_eq_some htotal)) fun room hroom =>
        Ensures.bind (ensures_some (add_eq_some (by omega))) fun limit hlimit =>
        Ensures.bind (ensures_result (reader.bounded limit)) fun data hdata =>
        Ensures.bind (ensures_some (add_eq_some (by omega))) fun total' htotal' =>
        Ensures.bind (ensures_ensure _ _) fun _ hle =>
        Ensures.bind (ensures_ensure _ _) fun _ hne => ?_
      have hround := roundUp_lt (m := 4) (by decide) data.length
      have hoffset := s.offset.toNat_lt
      have hresize := length_resize_roundUp data
      refine Ensures.bind (ensures_some (nextMultipleOf_eq_some (by decide) (by omega)))
        fun size hsize => Ensures.bind (ensures_some (add_eq_some (by subst hsize; omega)))
        fun stop hstop => Ensures.bind (ensures_ensure _ _) fun _ hinside => ?_
      subst hsize hstop
      have hnew : Padded { offset := s.offset, data := resize data (roundUp 4 data.length)
                           originalSize := data.length } :=
        ⟨⟨data, of_decide_eq_true hne, rfl, rfl⟩,
          (four_dvd_iff _).mp (of_decide_eq_true haligned), of_decide_eq_true hinside⟩
      have hrest := ih total' (acc ++ [_]) (of_decide_eq_true hle)
        (List.forall_mem_append.mpr ⟨hacc, List.forall_mem_singleton.mpr hnew⟩)
      obtain ⟨r, hr, hpost⟩ := hrest
      refine ⟨r, hr, fun out hout => ⟨(hpost out hout).1, ?_⟩⟩
      rw [(hpost out hout).2, List.length_append, List.length_singleton, List.length_cons]
      omega

/-- The plans `prepare` returns. -/
structure Prepared (p : PreparedPlan) : Prop where
  chip : p.chip ≠ ""
  count : p.segments.length ≠ 0 ∧ p.segments.length ≤ 64
  padded : ∀ s ∈ p.segments, Padded s
  sorted : p.segments.Pairwise fun a b => a.offset ≤ b.offset
  apart : (p.segments.map PreparedSegment.extent).IsChain (Apart sectorSize)

theorem Prepared.sorted_extents {p : PreparedPlan} (h : Prepared p) :
    Sorted (p.segments.map PreparedSegment.extent) :=
  List.pairwise_map.mpr (h.sorted.imp id)

theorem Prepared.extents_pos {p : PreparedPlan} (h : Prepared p) :
    ∀ e ∈ p.segments.map PreparedSegment.extent, 0 < e.size := by
  refine List.forall_mem_map.mpr fun s hs => ?_
  obtain ⟨file, hne, hdata, -⟩ := (h.padded s hs).file
  have hle := le_roundUp (m := 4) (by decide) file.length
  have hfile := List.length_pos_iff.mpr hne
  simp only [PreparedSegment.extent, hdata, length_resize_roundUp]
  omega

theorem Prepared.disjointed {p : PreparedPlan} (h : Prepared p) :
    Disjointed sectorSize (p.segments.map PreparedSegment.extent) :=
  (isChain_apart_iff (by decide) h.sorted_extents h.extents_pos).mp h.apart

theorem ensures_prepare (plan : FlashPlan Path) :
    Ensures (prepare files plan base) Prepared := by
  refine Ensures.bind (ensures_ensure _ _) fun _ _ =>
    Ensures.bind (ensures_ensure _ _) fun _ hchip =>
    Ensures.bind (ensures_ensure _ _) fun _ hcount =>
    Ensures.bind (ensures_readArtifacts plan.segments 0 [] (Nat.zero_le _) (by simp))
      fun segments hread => ?_
  have hperm := perm_sortSegments segments
  have hpadded : ∀ s ∈ sortSegments segments, Padded s := fun s hs =>
    hread.1 s (hperm.mem_iff.mp hs)
  refine Ensures.bind (decides_eraseWindows PreparedSegment.extent sharedSector
      (sortSegments segments) fun s hs => (hpadded s hs).inside).ensures
    fun _ hchain => ensures_pure ⟨of_decide_eq_true hchip, ?_, hpadded,
      List.pairwise_insertionSort _ segments, hchain.1⟩
  have hlen : (sortSegments segments).length = plan.segments.length := by
    rw [hperm.length_eq, hread.2]
    exact Nat.zero_add _
  rw [hlen]
  simpa using hcount

end FlashPlan
end IdfRemote
