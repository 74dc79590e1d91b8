import IdfRemote.FlashDelivery
import IdfRemote.FlashImport
import IdfRemote.Flashing

/-!
# From a build to the board

The whole way of an image: the build system's manifest, the plan, the form, the plan of the daemon
and the flash of the board. What has been built is what the board starts from.
-/
namespace IdfRemote.BuildToBoard
open Checked SectorLayout FlashLayout NorFlash FlashPlan FlashUploadManifest FlashDelivery
  FlashImport Flashing

variable {Path : Type}

/-- The files of a build, as their sizes are looked up and as they are opened. -/
structure Consistent (build : Build Path) (files : Files Path) (base : Path)
    (contents : Path → List UInt8) (entries : List (String × Path)) : Prop where
  size : ∀ entry ∈ entries,
    build.size (build.join base entry.2) = .ok (contents entry.2).length
  opened : ∀ entry ∈ entries, ∃ reader,
    files.openFile (files.join base entry.2) = .ok reader ∧
      ∀ limit, reader.take limit = .ok ((contents entry.2).take limit)

theorem mem_zip_left {α β : Type} {R : α → β → Prop} {l : List α} {m : List β}
    (h : List.Forall₂ R l m) {a : α} (ha : a ∈ l) : ∃ b, (a, b) ∈ l.zip m ∧ R a b := by
  induction h with
  | nil => cases ha
  | @cons x y l m hxy hrest ih =>
      rcases List.mem_cons.mp ha with rfl | ha
      · exact ⟨y, List.mem_cons_self, hxy⟩
      · obtain ⟨b, hb, hab⟩ := ih ha
        exact ⟨b, List.mem_cons_of_mem _ hb, hab⟩

section Build
variable {build : Build Path} {files : Files Path} {base : Path} {contents : Path → List UInt8}
  {manifest : Manifest Path}

theorem readsInFull_of_import
    (hfiles : Consistent build files base contents manifest.flashFiles.entries)
    {places : List (UInt32 × ℕ)} {plan : FlashPlan Path}
    (hsegments : plan.segments =
      (manifest.flashFiles.entries.zip places).filterMap segmentOf) :
    ReadsInFull files base contents plan := by
  intro s hs
  rw [hsegments] at hs
  obtain ⟨⟨entry, place⟩, hmem, hsegment⟩ := List.mem_filterMap.mp hs
  unfold segmentOf at hsegment
  split at hsegment
  · cases hsegment
  · obtain rfl := Option.some.inj hsegment
    exact hfiles.opened entry (List.of_mem_zip hmem).1

/-- Every file that is not empty has its segment. -/
theorem mem_segments
    (hfiles : Consistent build files base contents manifest.flashFiles.entries)
    {places : List (UInt32 × ℕ)}
    (hplaces : List.Forall₂ (Found build base) manifest.flashFiles.entries places)
    {entry : String × Path} (hentry : entry ∈ manifest.flashFiles.entries)
    (hne : contents entry.2 ≠ []) :
    ∃ offset : UInt32, Spells entry.1.toList offset.toNat ∧
      { offset, file := entry.2 } ∈
        (manifest.flashFiles.entries.zip places).filterMap segmentOf := by
  obtain ⟨⟨offset, size⟩, hmem, hfound⟩ := mem_zip_left hplaces hentry
  have hsize : size = (contents entry.2).length :=
    Except.ok.inj (hfound.size.symm.trans (hfiles.size entry hentry))
  refine ⟨offset, hfound.offset, List.mem_filterMap.mpr ⟨_, hmem, ?_⟩⟩
  refine if_neg ?_
  rw [hsize]
  exact fun h => hne (List.eq_nil_of_length_eq_zero h)

end Build

variable [DecidableEq Path]

/-- When everything on the way reports success, every file of the build that is not empty lies in
the flash of the board at the offset that the build system gave it, unless two contents have one
digest. -/
theorem build_reaches_board (build : Build Path) (files : Files Path) (base : Path)
    (contents : Path → List UInt8) (manifest : Manifest Path)
    (hfiles : Consistent build files base contents manifest.flashFiles.entries)
    (r : Import Path) (himport : importManifest build base (.ok manifest) [] = .ok r)
    (p : PreparedPlan) (hprepare : (prepare files r.plan base).run = some (.ok p))
    (deviceId : DeviceId) (flashBaud monitorBaud : UInt32) (noResetBefore : Bool)
    (env : UploadHost) (m : FlashUploadManifest)
    (hm : (fromPlan env.digest deviceId p flashBaud monitorBaud noResetBefore).run = some (.ok m))
    (warnings : List FlashWarning) (s : System) (header : KeyHeader) (form : Form)
    (hmetadata : ∀ first parts, form.fields = first :: parts →
      env.fromSlice first.chunks.flatten = .ok (withWarnings m warnings))
    (sub : FlashSubmission) (hsub : (flash env s header form).run = some (.ok sub))
    (lib : Espflash) (f : Flasher) (hfaithful : Faithful f) (b b' : Bench) (info : BoardInfo)
    (hflash : Flashing.flash lib sub.plan sub.baud f b = some (.ok info, b')) :
    Collision env.digest form p ∨
      ∀ entry ∈ manifest.flashFiles.entries, contents entry.2 ≠ [] →
        ∃ offset, parseOffset entry.1 = .ok offset ∧
          Holds b'.memory ⟨offset.toNat, contents entry.2⟩ := by
  by_cases hcollision : Collision env.digest form p
  · exact .inl hcollision
  · refine .inr fun entry hentry hne => ?_
    obtain ⟨-, himported, -⟩ := importManifest_ok_iff.mp himport
    rw [importFiles, if_pos rfl, importAll_ok_iff] at himported
    obtain ⟨places, hplaces, hsegments, -⟩ := himported
    have hprepared := prepared_of_prepare hprepare
    have hplan := (submitted_as_prepared hprepared hm hmetadata hsub hcollision).1
    rw [hplan] at hflash
    obtain ⟨offset, hspells, hsegment⟩ := mem_segments hfiles hplaces hentry hne
    rw [← hsegments] at hsegment
    have hmem := (mem_of_prepare (readsInFull_of_import hfiles hsegments) hprepare _).mpr
      ⟨_, hsegment, rfl⟩
    have hholds := holds_of_flash hprepared hfaithful hflash _ (List.mem_map_of_mem hmem)
    refine ⟨offset, parseOffset_ok_iff.mpr hspells, hholds.initial ?_⟩
    change contents entry.2 <+: resize (contents entry.2) (roundUp 4 (contents entry.2).length)
    rw [resize, List.take_of_length_le (le_roundUp (by decide) _)]
    exact List.prefix_append _ _

def smallContents (file : String) : List UInt8 :=
  if file = "boot.bin" then header else if file = "app.bin" then [1, 2, 3] else []

def smallManifest : Manifest String :=
  { sampleManifest with
    flashFiles := ⟨[("0", "boot.bin"), ("0x1000", "app.bin"), ("0X2000", "empty.bin")], by decide⟩
    images := ⟨[], List.nodup_nil⟩ }

def smallBuild : Build String :=
  { sampleBuild with size := fun file => .ok (smallContents file).length }

def smallFiles : Files String where
  join _ file := file
  display file := file
  openFile file := .ok
    { take := fun limit => .ok ((smallContents file).take limit)
      bounded := by
        intro limit data h
        rw [← Except.ok.inj h, List.length_take]
        exact Nat.min_le_left _ _ }

def smallImport : Import String where
  plan :=
    { version := 1, chip := "esp32s3"
      flashSettings := { mode := some "dio", frequency := some "80m", size := some "4MB" }
      segments := [{ offset := 0, file := "boot.bin" }, { offset := 0x1000, file := "app.bin" }] }
  warnings := [{ image := none, offset := 0x2000, file := "empty.bin" }]

/-- The small plan with the settings of the build. -/
def builtPlan : PreparedPlan := { smallPlan with flashSettings := smallImport.plan.flashSettings }

def builtManifest : FlashUploadManifest :=
  withWarnings (manifestOf twoHost.digest "dev_test" builtPlan 460800 115200 false)
    [.emptyIdfImageSkipped none 0x2000]

def builtHost : UploadHost := { twoHost with fromSlice := fun _ => .ok builtManifest }

def builtForm : Form :=
  { fields := [{ name := some "metadata", chunks := [[123, 125]] },
      { name := some "segment-0", chunks := [header] },
      { name := some "segment-1", chunks := [[1], [2, 3]] }] }

def builtSubmission : FlashSubmission :=
  { twoSubmission with plan := builtPlan, warnings := [.emptyIdfImageSkipped none 0x2000] }

def builtBench : Bench :=
  { plainBench with
    protocolInput := true
    memory := (plainFlasher.writeBins (PreparedPlan.blocks builtPlan) plainBench.memory).2 }

theorem build_reaches_board_small :
    Collision builtHost.digest builtForm builtPlan ∨
      ∀ entry ∈ smallManifest.flashFiles.entries, smallContents entry.2 ≠ [] →
        ∃ offset, parseOffset entry.1 = .ok offset ∧
          Holds builtBench.memory ⟨offset.toNat, smallContents entry.2⟩ := by
  have hvalid : (validate plainEspflash builtPlan).run = some (.ok ()) := by rfl
  have hfits : (flashable plainEspflash plainFlasher builtPlan ()).run plainBench.memory =
      some (.ok { chip := "esp32s3", flashSizeBytes := 0x400000 }, plainBench.memory) := by rfl
  have hflash : Flashing.flash plainEspflash builtSubmission.plan builtSubmission.baud plainFlasher
      plainBench = some (.ok { chip := "esp32s3", flashSizeBytes := 0x400000 }, builtBench) :=
    flash_ok hvalid (by decide) rfl rfl hfits rfl
  exact build_reaches_board smallBuild smallFiles "" smallContents smallManifest
    ⟨fun _ _ => rfl, fun _ _ => ⟨_, rfl, fun _ => rfl⟩⟩ smallImport (by rfl) builtPlan
    (by decide +kernel) "dev_test" 460800 115200 false builtHost
    (manifestOf twoHost.digest "dev_test" builtPlan 460800 115200 false) (by decide +kernel)
    [.emptyIdfImageSkipped none 0x2000] oneDevice (.text "key") builtForm (fun _ _ _ => rfl)
    builtSubmission (by rfl) plainEspflash plainFlasher plainFlasher_faithful plainBench builtBench
    _ hflash

end IdfRemote.BuildToBoard
