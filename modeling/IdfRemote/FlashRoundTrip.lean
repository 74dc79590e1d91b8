import IdfRemote.FlashManifest
import Mathlib.Algebra.Order.BigOperators.Group.List

/-!
# Uploading a prepared plan

The client cuts the padding off, and the server adds it again: the plan it builds
from the manifest and the parts is the client's. What the server builds from any
manifest and any parts is made of these parts.
-/
namespace IdfRemote.FlashUploadManifest
open Checked SectorLayout FlashLayout FlashPlan

variable {digest : List UInt8 → Vector UInt8 32}

def described (digest : List UInt8 → Vector UInt8 32) (index : ℕ) (s : PreparedSegment) :
    UploadSegmentMetadata :=
  { part := partName index, offset := s.offset, size := UInt64.ofNat s.originalSize
    sha256 := sha256Hex digest (s.data.take s.originalSize) }

/-- The metadata of the segments, numbered from `index` on. -/
def describedFrom (digest : List UInt8 → Vector UInt8 32) :
    ℕ → List PreparedSegment → List UploadSegmentMetadata
  | _, [] => []
  | index, s :: rest => described digest index s :: describedFrom digest (index + 1) rest

/-- What is left of a segment without its padding. -/
def unpadded (s : PreparedSegment) : List UInt8 := s.data.take s.originalSize

theorem take_resize {data : List UInt8} {size : ℕ} (h : data.length ≤ size) :
    (resize data size).take data.length = data := by
  rw [resize, List.take_of_length_le h, List.take_left]

theorem drop_resize {data : List UInt8} {size : ℕ} (h : data.length ≤ size) :
    (resize data size).drop data.length = List.replicate (size - data.length) 0xff := by
  rw [resize, List.take_of_length_le h, List.drop_left]

section Padded
variable {s : PreparedSegment} (h : Padded s)
include h

theorem length_unpadded : (unpadded s).length = s.originalSize := by
  obtain ⟨file, hne, hdata, hsize⟩ := h.file
  rw [unpadded, hdata, hsize, take_resize (le_roundUp (by decide) _)]

theorem resize_unpadded : resize (unpadded s) (roundUp 4 (unpadded s).length) = s.data := by
  obtain ⟨file, hne, hdata, hsize⟩ := h.file
  rw [unpadded, hdata, hsize, take_resize (le_roundUp (by decide) _)]

theorem originalSize_lt : s.originalSize < 2 ^ 64 := by
  have hle : s.originalSize ≤ s.data.length := by
    rw [← length_unpadded h, unpadded, List.length_take]
    exact Nat.min_le_right _ _
  have hinside := h.inside
  simp only [PreparedSegment.extent] at hinside
  omega

theorem fits_described (index : ℕ) : Fits (artifact (described digest index s)) ∧
    padded (artifact (described digest index s)) = s.extent := by
  obtain ⟨file, hne, hdata, hsize⟩ := h.file
  have hlen : s.data.length = roundUp 4 s.originalSize := by
    rw [hdata, hsize, length_resize_roundUp]
  have hword : (UInt64.ofNat s.originalSize).toNat = s.originalSize :=
    Nat.mod_eq_of_lt (originalSize_lt h)
  have hpadded : padded (artifact (described digest index s)) = s.extent := by
    simp only [padded, artifact, described, PreparedSegment.extent, hword, hlen]
  refine ⟨⟨h.aligned, ?_, ?_⟩, hpadded⟩
  · change 0 < (UInt64.ofNat s.originalSize).toNat
    rw [hword, hsize]
    exact List.length_pos_iff.mpr hne
  · rw [hpadded]
    exact h.inside

end Padded

theorem decides_describe (segments : List PreparedSegment) (index : ℕ)
    (h : ∀ s ∈ segments, Padded s) :
    Decides (describe digest index segments) True (describedFrom digest index segments) := by
  induction segments generalizing index with
  | nil => exact decides_pure _
  | cons s segments ih =>
      have hs := length_unpadded (h s List.mem_cons_self)
      rw [unpadded, List.length_take] at hs
      have hslice : slice s.data s.originalSize = some (s.data.take s.originalSize) :=
        if_pos (by omega)
      have hrest := ih (index + 1) fun t ht => h t (List.mem_cons_of_mem _ ht)
      exact (Decides.bind (decides_some hslice) fun _ =>
        Decides.bind hrest fun _ => decides_pure (_ :: _)).congr (by simp)

theorem canonical_describedFrom (segments : List PreparedSegment) (index : ℕ) :
    Canonical (describedFrom digest index segments) index := by
  induction segments generalizing index with
  | nil => simp [Canonical, describedFrom]
  | cons s segments ih =>
      intro i t ht
      cases i with
      | zero => exact Option.some.inj ht ▸ rfl
      | succ i =>
          have := ih (index + 1) i t ht
          rwa [Nat.add_assoc, Nat.add_comm 1 i] at this

theorem mem_describedFrom {segments : List PreparedSegment} {index : ℕ}
    {m : UploadSegmentMetadata} (h : m ∈ describedFrom digest index segments) :
    ∃ s ∈ segments, ∃ i, m = described digest i s := by
  induction segments generalizing index with
  | nil => exact absurd h (by simp [describedFrom])
  | cons s segments ih =>
      rcases List.mem_cons.mp h with rfl | h
      · exact ⟨s, List.mem_cons_self, index, rfl⟩
      · obtain ⟨t, ht, i, hm⟩ := ih h
        exact ⟨t, List.mem_cons_of_mem _ ht, i, hm⟩

theorem map_describedFrom {β : Type} (f : UploadSegmentMetadata → β) (g : PreparedSegment → β)
    (segments : List PreparedSegment) (index : ℕ)
    (h : ∀ s ∈ segments, ∀ i, f (described digest i s) = g s) :
    (describedFrom digest index segments).map f = segments.map g := by
  induction segments generalizing index with
  | nil => rfl
  | cons s segments ih =>
      rw [describedFrom, List.map_cons, List.map_cons, h s List.mem_cons_self,
        ih (index + 1) fun t ht => h t (List.mem_cons_of_mem _ ht)]

theorem length_describedFrom (segments : List PreparedSegment) (index : ℕ) :
    (describedFrom digest index segments).length = segments.length := by
  induction segments generalizing index with
  | nil => rfl
  | cons s segments ih => rw [describedFrom, List.length_cons, List.length_cons, ih]

def manifestOf (digest : List UInt8 → Vector UInt8 32) (deviceId : DeviceId) (p : PreparedPlan)
    (flashBaud monitorBaud : UInt32) (noResetBefore : Bool) : FlashUploadManifest :=
  { deviceId, version := 2, chip := p.chip, flashSettings := p.flashSettings
    segments := describedFrom digest 0 p.segments, flashBaud, monitorBaud, noResetBefore }

def paddedSize (p : PreparedPlan) : ℕ := (p.segments.map fun s => s.data.length).sum

theorem decides_fromPlan {p : PreparedPlan} (h : Prepared p) (deviceId : DeviceId)
    (flashBaud monitorBaud : UInt32) (noResetBefore : Bool) :
    Decides (fromPlan digest deviceId p flashBaud monitorBaud noResetBefore)
      (paddedSize p ≤ maxUploadBytes)
      (manifestOf digest deviceId p flashBaud monitorBaud noResetBefore) := by
  have hsum : paddedSize p ≤ 64 * 2 ^ 32 := by
    have hall : ∀ n ∈ p.segments.map fun s => s.data.length, n ≤ 2 ^ 32 := by
      refine List.forall_mem_map.mpr fun s hs => ?_
      have := (h.padded s hs).inside
      simp only [PreparedSegment.extent] at this
      omega
    have hle := List.sum_le_card_nsmul _ _ hall
    rw [List.length_map, smul_eq_mul] at hle
    exact hle.trans (Nat.mul_le_mul_right _ h.count.2)
  exact (Decides.bind (decides_some (sum_eq_some (hsum.trans_lt (by decide)))) fun _ =>
    Decides.bind (decides_ensure _ _) fun _ =>
    Decides.bind (decides_describe p.segments 0 h.padded) fun _ =>
    decides_pure (manifestOf _ _ _ _ _ _)).congr (by simp [paddedSize])

/-- The manifest of a prepared plan is valid, if the rates are. -/
theorem valid_manifestOf {p : PreparedPlan} (h : Prepared p) (hsize : paddedSize p ≤ maxUploadBytes)
    (deviceId : DeviceId) {flashBaud monitorBaud : UInt32} (hflash : 115200 ≤ flashBaud)
    (hmonitor : 0 < monitorBaud) (noResetBefore : Bool) :
    Valid (manifestOf digest deviceId p flashBaud monitorBaud noResetBefore) := by
  have hextents : ((describedFrom digest 0 p.segments).map artifact).map padded =
      p.segments.map PreparedSegment.extent := by
    rw [List.map_map]
    exact map_describedFrom _ _ _ _ fun s hs i => (fits_described (h.padded s hs) i).2
  have hsorted : Sorted (p.segments.map PreparedSegment.extent) :=
    List.pairwise_map.mpr (h.sorted.imp id)
  refine ⟨⟨rfl, h.chip, Nat.zero_le _, by simp [manifestOf], hflash, hmonitor⟩,
    canonical_describedFrom _ _, ?_, (safe_iff (by rw [← hextents]; rfl) hsorted).mpr ?_⟩
  · intro t ht
    obtain ⟨s, -, i, rfl⟩ := mem_describedFrom ht
    exact lowercaseHex_sha256Hex _ _
  · refine ⟨?_, ?_, ?_, h.apart⟩
    · have hlen := congrArg List.length hextents
      simp only [List.length_map] at hlen ⊢
      exact hlen ▸ h.count
    · refine List.forall_mem_map.mpr fun t ht => ?_
      obtain ⟨s, hs, i, rfl⟩ := mem_describedFrom ht
      exact (fits_described (h.padded s hs) i).1
    · have hle : (((describedFrom digest 0 p.segments).map artifact).map Extent.size).sum ≤
          (((describedFrom digest 0 p.segments).map artifact).map (Extent.size ∘ padded)).sum :=
        List.sum_le_sum fun e _ => le_roundUp (by decide) _
      have hpadded : ((p.segments.map PreparedSegment.extent).map Extent.size).sum =
          paddedSize p := by
        rw [List.map_map]
        rfl
      rw [← List.map_map, hextents, hpadded] at hle
      exact hle.trans hsize

/-- The segment made of a part. -/
def received (q : UploadSegmentMetadata × List UInt8) : PreparedSegment :=
  { offset := q.1.offset, data := resize q.2 (roundUp 4 q.2.length), originalSize := q.2.length }

/-- The part is what its metadata declares. -/
def Verified (digest : List UInt8 → Vector UInt8 32) (q : UploadSegmentMetadata × List UInt8) :
    Prop :=
  q.2.length = q.1.size.toNat ∧ sha256Hex digest q.2 = q.1.sha256

theorem decides_verifyParts (parts : List (UploadSegmentMetadata × List UInt8))
    (acc : List PreparedSegment) (hsize : ∀ q ∈ parts, q.1.size.toNat ≤ maxUploadBytes) :
    Decides (verifyParts digest parts acc) (∀ q ∈ parts, Verified digest q)
      (acc ++ parts.map received) := by
  induction parts generalizing acc with
  | nil =>
      rw [show acc ++ [].map received = acc by simp]
      exact (decides_pure acc).congr (by simp)
  | cons q parts ih =>
      obtain ⟨metadata, data⟩ := q
      have hmax : maxUploadBytes = 2 ^ 25 := rfl
      have hle := hsize (metadata, data) List.mem_cons_self
      have hround := roundUp_lt (m := 4) (by decide) data.length
      have hrest := ih (acc ++ [received (metadata, data)]) fun q hq =>
        hsize q (List.mem_cons_of_mem _ hq)
      rw [List.append_assoc, List.singleton_append, ← List.map_cons] at hrest
      refine (Decides.bind (decides_ensure _ _) fun hlen =>
        Decides.bind (decides_ensure _ _) fun _ =>
        Decides.bind (decides_some (nextMultipleOf_eq_some (by decide) ?_)) fun _ => hrest).congr ?_
      · have hlen := of_decide_eq_true hlen
        dsimp only at hle
        omega
      · simp [Verified, and_assoc]

theorem Valid.size_le {m : FlashUploadManifest} (h : m.Valid) {s : UploadSegmentMetadata}
    (hs : s ∈ m.segments) : s.size.toNat ≤ maxUploadBytes := by
  have hmem : s.size.toNat ∈ (m.segments.map artifact).map Extent.size :=
    List.mem_map_of_mem (List.mem_map_of_mem hs)
  exact (List.single_le_sum (fun _ _ => Nat.zero_le _) _ hmem).trans h.safe.total

theorem decides_intoPlan (m : FlashUploadManifest) (data : List (List UInt8)) :
    Decides (intoPlan digest m data)
      (m.Valid ∧ data.length = m.segments.length ∧
        ∀ q ∈ m.segments.zip data, Verified digest q)
      { chip := m.chip, flashSettings := m.flashSettings
        segments := sortSegments ((m.segments.zip data).map received) } := by
  refine (Decides.bind (decides_validate m) fun hvalid =>
    Decides.bind (decides_ensure _ _) fun _ =>
    Decides.bind (decides_verifyParts (m.segments.zip data) [] ?_) fun _ =>
    decides_pure (PreparedPlan.mk _ _ _)).congr (by simp)
  exact fun q hq => hvalid.size_le (List.of_mem_zip hq).1

theorem zip_describedFrom (segments : List PreparedSegment) (index : ℕ)
    (h : ∀ s ∈ segments, Padded s) :
    ((describedFrom digest index segments).zip (segments.map unpadded)).map received = segments ∧
      ∀ q ∈ (describedFrom digest index segments).zip (segments.map unpadded),
        Verified digest q := by
  induction segments generalizing index with
  | nil => simp [describedFrom]
  | cons s segments ih =>
      have hs := h s List.mem_cons_self
      obtain ⟨hmap, hall⟩ := ih (index + 1) fun t ht => h t (List.mem_cons_of_mem _ ht)
      have hword : (UInt64.ofNat s.originalSize).toNat = s.originalSize :=
        Nat.mod_eq_of_lt (originalSize_lt hs)
      have hdata := resize_unpadded hs
      rw [length_unpadded hs] at hdata
      have hreceived : received (described digest index s, unpadded s) = s := by
        simp only [received, described, length_unpadded hs, hdata]
      rw [describedFrom, List.map_cons, List.zip_cons_cons, List.map_cons, hmap, hreceived]
      refine ⟨rfl, List.forall_mem_cons.mpr ⟨⟨?_, rfl⟩, hall⟩⟩
      rw [length_unpadded hs]
      exact hword.symm

/-- A part in the plan: its bytes, as declared, and at most three bytes of padding. -/
structure Received (digest : List UInt8 → Vector UInt8 32)
    (q : UploadSegmentMetadata × List UInt8) (s : PreparedSegment) : Prop where
  offset : s.offset = q.1.offset
  size : s.originalSize = q.2.length
  bytes : s.data.take s.originalSize = q.2
  rest : ∃ n ≤ 3, s.data.drop s.originalSize = List.replicate n 0xff
  verified : q.2.length = q.1.size.toNat ∧ sha256Hex digest q.2 = q.1.sha256

theorem received_spec {q : UploadSegmentMetadata × List UInt8} (h : Verified digest q) :
    Received digest q (received q) := by
  have hle := le_roundUp (m := 4) (by decide) q.2.length
  have hlt := roundUp_lt (m := 4) (by decide) q.2.length
  refine ⟨rfl, rfl, take_resize hle, ⟨_, ?_, drop_resize hle⟩, h⟩
  omega

theorem ascending_received {m : FlashUploadManifest} (hvalid : m.Valid)
    {data : List (List UInt8)} (hlen : data.length = m.segments.length)
    (hall : ∀ q ∈ m.segments.zip data, Verified digest q) :
    (sortSegments ((m.segments.zip data).map received)).Pairwise
      fun a b => a.offset < b.offset := by
  have hperm := (perm_sortSegments ((m.segments.zip data).map received)).map
    PreparedSegment.extent
  have hextents : ((m.segments.zip data).map received).map PreparedSegment.extent =
      (m.segments.map artifact).map padded := by
    have hfst : (m.segments.zip data).map Prod.fst = m.segments :=
      List.map_fst_zip (by omega)
    have hsegments : (m.segments.map artifact).map padded =
        ((m.segments.zip data).map Prod.fst).map (padded ∘ artifact) := by
      rw [hfst, List.map_map]
    rw [hsegments, List.map_map, List.map_map]
    apply List.map_congr_left
    intro q hq
    have hsize := length_resize_roundUp q.2
    rw [(hall q hq).1] at hsize
    simp only [Function.comp_apply, received, PreparedSegment.extent, artifact, padded,
      (hall q hq).1, hsize]
  rw [hextents] at hperm
  have hdisjoint := (Disjointed.perm hperm).mpr hvalid.safe.disjoint
  have hpos : ∀ e ∈ (sortSegments ((m.segments.zip data).map received)).map
      PreparedSegment.extent, 0 < e.size := by
    intro e he
    obtain ⟨a, ha, rfl⟩ := List.mem_map.mp (hperm.mem_iff.mp he)
    exact padded_pos (hvalid.safe.nonempty a ha)
  have hascending := hdisjoint.ascending (by decide) (sorted_sortSegments _) hpos
  rw [List.pairwise_map] at hascending
  exact hascending.imp fun hab => UInt32.lt_iff_toNat_lt.mpr hab

theorem received_of_intoPlan {m : FlashUploadManifest} {parts : List (List UInt8)}
    {p : PreparedPlan} (hp : (intoPlan digest m parts).run = some (.ok p)) :
    p.chip = m.chip ∧ p.flashSettings = m.flashSettings ∧ parts.length = m.segments.length ∧
      (∃ order : List (UploadSegmentMetadata × List UInt8),
        order.Perm (m.segments.zip parts) ∧ List.Forall₂ (Received digest) order p.segments) ∧
      p.segments.Pairwise fun a b => a.offset < b.offset := by
  have hdecides : Decides (intoPlan digest m parts) _ _ := decides_intoPlan m parts
  obtain ⟨r, hr, hiff, heq⟩ := hdecides.result
  have hok : r = .ok p := Option.some.inj (hr.symm.trans hp)
  obtain ⟨hvalid, hlen, hall⟩ := hiff.mp ⟨p, hok⟩
  rw [heq p hok]
  have horder := List.perm_insertionSort
    (fun a b : UploadSegmentMetadata × List UInt8 => a.1.offset ≤ b.1.offset)
    (m.segments.zip parts)
  refine ⟨rfl, rfl, hlen, ⟨_, horder, ?_⟩, ascending_received hvalid hlen hall⟩
  change List.Forall₂ _ _ (sortSegments _)
  rw [sortSegments, ← List.map_insertionSort (fun a b => a.1.offset ≤ b.1.offset) _ received _
    fun _ _ _ _ => Iff.rfl, List.forall₂_map_right_iff, List.forall₂_same]
  exact fun q hq => received_spec (hall q (horder.mem_iff.mp hq))

/-- A prepared plan survives its upload, and a plan from the server is made of the parts. -/
theorem upload_round_trip (digest : List UInt8 → Vector UInt8 32) :
    (∀ (Path : Type) (files : Files Path) (base : Path) (plan : FlashPlan Path)
      (p : PreparedPlan), (FlashPlan.prepare files plan base).run = some (.ok p) →
      ∀ (deviceId : DeviceId) (flashBaud monitorBaud : UInt32) (noResetBefore : Bool)
        (m : FlashUploadManifest), 115200 ≤ flashBaud → 0 < monitorBaud →
      (fromPlan digest deviceId p flashBaud monitorBaud noResetBefore).run = some (.ok m) →
      m.validate.run = some (.ok ()) ∧
        (intoPlan digest m (p.segments.map fun s => s.data.take s.originalSize)).run =
          some (.ok p)) ∧
    ∀ (m : FlashUploadManifest) (parts : List (List UInt8)) (p : PreparedPlan),
      (intoPlan digest m parts).run = some (.ok p) →
      p.chip = m.chip ∧ p.flashSettings = m.flashSettings ∧
        parts.length = m.segments.length ∧
        (∃ order : List (UploadSegmentMetadata × List UInt8),
          order.Perm (m.segments.zip parts) ∧ List.Forall₂ (Received digest) order p.segments) ∧
        p.segments.Pairwise fun a b => a.offset < b.offset := by
  constructor
  · intro Path files base plan p hp deviceId flashBaud monitorBaud noResetBefore m hflash
      hmonitor hm
    have hensures : Ensures (FlashPlan.prepare files plan base) Prepared :=
      FlashPlan.ensures_prepare plan
    obtain ⟨r, hr, hprepared⟩ := hensures
    have hprepared : Prepared p := hprepared p (Option.some.inj (hr.symm.trans hp))
    have hdecides : Decides (fromPlan digest deviceId p flashBaud monitorBaud noResetBefore) _ _ :=
      decides_fromPlan hprepared deviceId flashBaud monitorBaud noResetBefore
    obtain ⟨r, hr, hiff, heq⟩ := hdecides.result
    have hok : r = .ok m := Option.some.inj (hr.symm.trans hm)
    have hsize := hiff.mp ⟨m, hok⟩
    rw [heq m hok]
    have hvalid : Valid (manifestOf digest deviceId p flashBaud monitorBaud noResetBefore) :=
      valid_manifestOf hprepared hsize deviceId hflash hmonitor noResetBefore
    obtain ⟨hmap, hall⟩ := @zip_describedFrom digest p.segments 0 hprepared.padded
    have hlen : (p.segments.map unpadded).length = (describedFrom digest 0 p.segments).length := by
      rw [List.length_map, length_describedFrom]
    constructor
    · rw [(decides_validate _).accepts hvalid]
      rfl
    · have hplan := (decides_intoPlan _ (p.segments.map unpadded)).accepts ⟨hvalid, hlen, hall⟩
      change (intoPlan digest _ (p.segments.map unpadded)).run = _
      rw [hplan]
      simp only [manifestOf, hmap]
      rw [sortSegments, List.Pairwise.insertionSort_eq (hprepared.sorted.imp id)]
      rfl
  · exact fun m parts p hp => received_of_intoPlan hp

def twoPrepared : PreparedPlan :=
  { chip := "esp32s3", flashSettings := {}
    segments := [{ offset := 0, data := [4, 255, 255, 255], originalSize := 1 },
      { offset := 0x1000, data := [1, 2, 3, 255], originalSize := 3 }] }

theorem upload_round_trip_two :
    (manifestOf (fun _ => .replicate 32 0) "dev_test" twoPrepared 460800 115200
        false).validate.run = some (.ok ()) ∧
      twoPrepared.segments.Pairwise fun a b => a.offset < b.offset := by
  have hprepare : (FlashPlan.prepare literalFiles twoImages []).run = some (.ok twoPrepared) := by
    decide
  have hmanifest : (fromPlan (fun _ => .replicate 32 0) "dev_test" twoPrepared 460800 115200
      false).run = some (.ok (manifestOf (fun _ => .replicate 32 0) "dev_test" twoPrepared 460800
        115200 false)) := by
    decide
  have hback := (upload_round_trip (fun _ => .replicate 32 0)).1 _ literalFiles [] twoImages
    twoPrepared hprepare "dev_test" 460800 115200 false _ (by decide) (by decide) hmanifest
  exact ⟨hback.1, ((upload_round_trip _).2 _ _ _ hback.2).2.2.2.2⟩

end IdfRemote.FlashUploadManifest
