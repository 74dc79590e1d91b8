import IdfRemote.DesktopRegistry

/-!
# A record keeps its identity

Reconciliation moves a record to another address only for a strong match, so the
identity of the record is the one it was made with, and so are its identifier and
activity. The generation counts the moves.
-/
namespace IdfRemote.DesktopRegistry
open Grouping

namespace DesktopPhysicalIdentity

theorem isStrongMatch_iff {a b : DesktopPhysicalIdentity} :
    a.isStrongMatch b = true ↔ a = b ∧ a.isStrongMatch a = true := by
  cases a with
  | addressBound kind address => simp [isStrongMatch]
  | usb vid pid serial manufacturer product =>
      cases serial with
      | none => simp [isStrongMatch]
      | some serial =>
          cases b with
          | addressBound kind address => simp [isStrongMatch]
          | usb vid' pid' serial' manufacturer' product' =>
              cases serial' with
              | none => simp [isStrongMatch]
              | some serial' =>
                  simp only [isStrongMatch, usb.injEq, Option.some.injEq]
                  split_ifs with h₁ h₂ h₂
                  · simp [and_assoc]
                  · exact absurd ⟨h₁.1, h₁.1⟩ h₂
                  · simp only [false_iff]
                    rintro ⟨⟨-, -, rfl, -, -⟩, -⟩
                    exact h₁ h₂
                  · simp

theorem eq_of_isStrongMatch {a b : DesktopPhysicalIdentity} (h : a.isStrongMatch b = true) :
    a = b :=
  (isStrongMatch_iff.mp h).1

end DesktopPhysicalIdentity

namespace DesktopDeviceRecord
open DesktopPhysicalIdentity

/-- The devices that a scan may take for the record are all behind one locator. -/
def Unambiguous (r : DesktopDeviceRecord) (scanned : List ScannedDesktopDevice) : Prop :=
  ∀ c ∈ scanned, ∀ d ∈ scanned, r.identity.isStrongMatch c.identity = true →
    r.identity.isStrongMatch d.identity = true → locatorGroupKey c.port = locatorGroupKey d.port

theorem selectLocatorAlias_spec {previous : String} {candidates : List ScannedDesktopDevice}
    {c : ScannedDesktopDevice} (h : selectLocatorAlias previous candidates = some c) :
    c ∈ candidates ∧ ∀ kind, aliasKind previous = some kind → aliasKind c.port = some kind := by
  unfold selectLocatorAlias at h
  split at h
  · next kind hkind =>
    refine ⟨List.mem_of_find?_eq_some h, fun kind' hkind' => ?_⟩
    have hc := List.find?_some h
    rw [hkind] at hkind'
    cases hkind'
    simpa using hc
  · next hkind =>
    refine ⟨?_, fun kind' hkind' => ?_⟩
    · split_ifs at h
      exact List.mem_of_mem_head? h
    · rw [hkind] at hkind'
      cases hkind'

theorem eq_of_length_dedup {α : Type} [DecidableEq α] {xs : List α}
    (h : ¬ 1 < xs.dedup.length) {x y : α} (hx : x ∈ xs) (hy : y ∈ xs) : x = y := by
  rw [← List.mem_dedup] at hx hy
  match hd : xs.dedup with
  | [] => simp [hd] at hx
  | [z] =>
      rw [hd] at hx hy
      rw [List.mem_singleton.mp hx, List.mem_singleton.mp hy]
  | z :: w :: rest => simp [hd] at h

theorem length_dedup_of_eq {α : Type} [DecidableEq α] {xs : List α}
    (h : ∀ x ∈ xs, ∀ y ∈ xs, x = y) : ¬ 1 < xs.dedup.length := by
  have hnodup := List.nodup_dedup xs
  match hd : xs.dedup with
  | [] => simp
  | [z] => simp
  | z :: w :: rest =>
      have hz : z ∈ xs := List.mem_dedup.mp (hd ▸ List.mem_cons_self)
      have hw : w ∈ xs := List.mem_dedup.mp (hd ▸ List.mem_cons_of_mem _ List.mem_cons_self)
      rw [hd] at hnodup
      exact absurd (h z hz w hw ▸ List.mem_cons_self) (List.nodup_cons.mp hnodup).1

/-- The outcomes of a reconciliation: the record is where it was, has moved, or is not available
and otherwise unchanged. -/
theorem reconcile_cases (scanned : List ScannedDesktopDevice) (r : DesktopDeviceRecord) :
    (∃ c ∈ scanned, c.port = r.port ∧ c.identity = r.identity ∧ r.Unambiguous scanned ∧
      r.reconcile scanned = { r with descriptor := r.describedBy c r.locatorGeneration }) ∨
    (∃ c ∈ scanned, (∀ d ∈ scanned, d.port ≠ r.port) ∧
      r.identity.isStrongMatch c.identity = true ∧ r.Unambiguous scanned ∧
      (∀ kind, aliasKind r.port = some kind → aliasKind c.port = some kind) ∧
      r.reconcile scanned = r.adoptLocator c) ∨
    ∃ a, a ≠ .available ∧ r.reconcile scanned = r.setAvailability a := by
  unfold reconcile
  split
  · next c hfind =>
    have hport : c.port = r.port := by simpa using List.find?_some hfind
    split_ifs with hidentity hgroups
    · exact .inr (.inr ⟨_, by decide, rfl⟩)
    · refine .inl ⟨c, List.mem_of_find?_eq_some hfind, hport, hidentity, ?_, rfl⟩
      intro d hd e he hmd hme
      exact eq_of_length_dedup hgroups
        (List.mem_map.mpr ⟨d, List.mem_filter.mpr ⟨hd, hmd⟩, rfl⟩)
        (List.mem_map.mpr ⟨e, List.mem_filter.mpr ⟨he, hme⟩, rfl⟩)
    · exact .inr (.inr ⟨_, by decide, rfl⟩)
  · next hfind =>
    have hfree : ∀ d ∈ scanned, d.port ≠ r.port := by
      intro d hd hport
      simpa [hport] using List.find?_eq_none.mp hfind d hd
    split
    · exact .inr (.inr ⟨_, by decide, rfl⟩)
    · next key candidates hgroups =>
      obtain ⟨rfl, hkey⟩ := groupBy_eq_singleton hgroups
      split
      · next c hselect =>
        obtain ⟨hc, hkind⟩ := selectLocatorAlias_spec hselect
        obtain ⟨hscan, hmatch⟩ := List.mem_filter.mp hc
        refine .inr (.inl ⟨c, hscan, hfree, hmatch, ?_, hkind, rfl⟩)
        intro d hd e he hmd hme
        rw [hkey d (List.mem_filter.mpr ⟨hd, hmd⟩), hkey e (List.mem_filter.mpr ⟨he, hme⟩)]
      · exact .inr (.inr ⟨_, by decide, rfl⟩)
    · exact .inr (.inr ⟨_, by decide, rfl⟩)

/-- The generation as it is published. -/
def publishedGeneration (r : DesktopDeviceRecord) : Option String :=
  r.descriptor.transport.metadata.lookup "locator_generation"

def InSync (r : DesktopDeviceRecord) : Prop :=
  r.publishedGeneration = some (toString r.locatorGeneration)

theorem inSync_claimedRecord (candidate : ScannedDesktopDevice) :
    (claimedRecord candidate).InSync := by
  have hzero : toString 0 = "0" := by decide
  change _ = some (toString 0)
  rw [hzero]
  exact Metadata.lookup_insert _ _ _

section
variable (scanned : List ScannedDesktopDevice) (r : DesktopDeviceRecord)

theorem reconcile_id : (r.reconcile scanned).descriptor.id = r.descriptor.id := by
  rcases reconcile_cases scanned r with
      ⟨c, -, -, -, -, h⟩ | ⟨c, -, -, -, -, -, h⟩ | ⟨a, -, h⟩ <;>
    rw [h] <;> rfl

theorem reconcile_activity :
    (r.reconcile scanned).descriptor.status.activity = r.descriptor.status.activity := by
  rcases reconcile_cases scanned r with
      ⟨c, -, -, -, -, h⟩ | ⟨c, -, -, -, -, -, h⟩ | ⟨a, -, h⟩ <;>
    rw [h] <;> rfl

theorem reconcile_identity : (r.reconcile scanned).identity = r.identity := by
  rcases reconcile_cases scanned r with ⟨c, -, -, -, -, h⟩ | ⟨c, -, -, hmatch, -, -, h⟩ | ⟨a, -, h⟩
  · rw [h]
  · rw [h]
    exact (eq_of_isStrongMatch hmatch).symm
  · rw [h]
    rfl

/-- The record moves only off a free address, within the category of special file it had. -/
theorem reconcile_port (hport : (r.reconcile scanned).port ≠ r.port) :
    (∀ d ∈ scanned, d.port ≠ r.port) ∧
      ∀ kind, aliasKind r.port = some kind →
        aliasKind (r.reconcile scanned).port = some kind := by
  rcases reconcile_cases scanned r with
      ⟨c, -, -, -, -, h⟩ | ⟨c, -, hfree, -, -, hkind, h⟩ | ⟨a, -, h⟩
  · exact absurd (congrArg port h) hport
  · rw [h]
    exact ⟨hfree, hkind⟩
  · exact absurd (congrArg port h) hport

theorem reconcile_generation :
    (r.reconcile scanned).locatorGeneration =
      r.locatorGeneration + if (r.reconcile scanned).port = r.port then 0 else 1 := by
  rcases reconcile_cases scanned r with ⟨c, -, -, -, -, h⟩ | ⟨c, hc, hfree, -, -, -, h⟩ | ⟨a, -, h⟩
  · simp [h]
  · have hne : c.port ≠ r.port := hfree c hc
    simp [h, adoptLocator, hne]
  · simp [h, setAvailability]

theorem reconcile_inSync
    (h : r.InSync ∨ (r.reconcile scanned).descriptor.status.availability = .available) :
    (r.reconcile scanned).InSync := by
  rcases reconcile_cases scanned r with ⟨c, -, -, -, -, hr⟩ | ⟨c, -, -, -, -, -, hr⟩ | ⟨a, ha, hr⟩
  · rw [hr]
    exact Metadata.lookup_insert _ _ _
  · rw [hr]
    exact Metadata.lookup_insert _ _ _
  · rcases h with h | h
    · rw [hr]
      exact h
    · rw [hr] at h
      exact absurd h ha

/-- Where an available record is, the scan has its identity, and no other locator has. -/
theorem reconcile_available
    (h : (r.reconcile scanned).descriptor.status.availability = .available) :
    (∃ c ∈ scanned, c.port = (r.reconcile scanned).port ∧ c.identity = r.identity) ∧
      ∀ d ∈ scanned, r.identity.isStrongMatch d.identity = true →
        locatorGroupKey d.port = locatorGroupKey (r.reconcile scanned).port := by
  rcases reconcile_cases scanned r with
      ⟨c, hc, hport, hidentity, hone, hr⟩ | ⟨c, hc, -, hmatch, hone, -, hr⟩ | ⟨a, ha, hr⟩
  · rw [hr]
    refine ⟨⟨c, hc, hport, hidentity⟩, fun d hd hmd => ?_⟩
    have hself : r.identity.isStrongMatch c.identity = true := by
      rw [hidentity]
      exact (isStrongMatch_iff.mp hmd).2
    rw [hone d hd c hc hmd hself, hport]
  · rw [hr]
    exact ⟨⟨c, hc, rfl, (eq_of_isStrongMatch hmatch).symm⟩,
      fun d hd hmd => hone d hd c hc hmd hmatch⟩
  · rw [hr] at h
    exact absurd h ha

end

theorem reconcile_setAvailability (scanned : List ScannedDesktopDevice)
    (r : DesktopDeviceRecord) (a : DeviceAvailability) :
    (r.setAvailability a).reconcile scanned = r.reconcile scanned := rfl

theorem reconcile_at {scanned : List ScannedDesktopDevice} {r : DesktopDeviceRecord}
    (hports : (scanned.map (·.port)).Nodup) {c : ScannedDesktopDevice} (hc : c ∈ scanned)
    (hport : c.port = r.port) (hidentity : c.identity = r.identity)
    (hone : r.Unambiguous scanned) :
    r.reconcile scanned = { r with descriptor := r.describedBy c r.locatorGeneration } := by
  have hfind : scanned.find? (fun d => d.port = r.port) = some c := by
    cases hf : scanned.find? fun d => d.port = r.port with
    | none => simpa [hport] using List.find?_eq_none.mp hf c hc
    | some d =>
        have hd : d.port = r.port := by simpa using List.find?_some hf
        have heq := List.inj_on_of_nodup_map hports (List.mem_of_find?_eq_some hf) hc
          (hd.trans hport.symm)
        rw [heq]
  have hgroups :
      ¬ 1 < ((r.strongMatches scanned).map fun d => locatorGroupKey d.port).dedup.length := by
    apply length_dedup_of_eq
    intro x hx y hy
    obtain ⟨d, hd, rfl⟩ := List.mem_map.mp hx
    obtain ⟨e, he, rfl⟩ := List.mem_map.mp hy
    obtain ⟨hd, hmd⟩ := List.mem_filter.mp hd
    obtain ⟨he, hme⟩ := List.mem_filter.mp he
    exact hone d hd e he hmd hme
  unfold reconcile
  rw [hfind]
  simp only [if_pos hidentity, if_neg hgroups]

/-- Reconciling again with the same scan changes nothing. -/
theorem reconcile_idempotent {scanned : List ScannedDesktopDevice}
    (hports : (scanned.map (·.port)).Nodup) (r : DesktopDeviceRecord) :
    (r.reconcile scanned).reconcile scanned = r.reconcile scanned := by
  rcases reconcile_cases scanned r with
      ⟨c, hc, hport, hidentity, hone, hr⟩ | ⟨c, hc, -, hmatch, hone, -, hr⟩ | ⟨a, -, hr⟩
  · rw [hr]
    exact reconcile_at hports hc hport hidentity hone
  · have hsame := eq_of_isStrongMatch hmatch
    have hone' : (r.adoptLocator c).Unambiguous scanned := by
      unfold Unambiguous adoptLocator
      rw [← hsame]
      exact hone
    rw [hr]
    exact reconcile_at hports hc rfl rfl hone'
  · rw [hr, reconcile_setAvailability, hr]

end DesktopDeviceRecord

/-- A history of reconciliations. -/
def reconcileHistory (r : DesktopDeviceRecord) (scans : List (List ScannedDesktopDevice)) :
    DesktopDeviceRecord :=
  scans.foldl (fun r scanned => r.reconcile scanned) r

def portChanges : DesktopDeviceRecord → List (List ScannedDesktopDevice) → ℕ
  | _, [] => 0
  | r, scanned :: scans =>
      (if (r.reconcile scanned).port = r.port then 0 else 1) +
        portChanges (r.reconcile scanned) scans

/-- What a record keeps over a history of reconciliations, and what the next one may do. -/
structure KeepsIdentity (r : DesktopDeviceRecord) (scans : List (List ScannedDesktopDevice))
    (scanned : List ScannedDesktopDevice) : Prop where
  id : (reconcileHistory r scans).descriptor.id = r.descriptor.id
  identity : (reconcileHistory r scans).identity = r.identity
  activity : (reconcileHistory r scans).descriptor.status.activity =
    r.descriptor.status.activity
  generation : (reconcileHistory r scans).locatorGeneration =
    r.locatorGeneration + portChanges r scans
  generation_claimed : ∀ candidate, r = claimedRecord candidate →
    (reconcileHistory r scans).locatorGeneration = portChanges r scans ∧
      (reconcileHistory r scans).publishedGeneration = some (toString (portChanges r scans))
  published : r.InSync → (reconcileHistory r scans).InSync
  published_available :
    ((reconcileHistory r scans).reconcile scanned).descriptor.status.availability = .available →
      ((reconcileHistory r scans).reconcile scanned).InSync
  available :
    ((reconcileHistory r scans).reconcile scanned).descriptor.status.availability = .available →
      (∃ c ∈ scanned, c.port = ((reconcileHistory r scans).reconcile scanned).port ∧
        c.identity = r.identity) ∧
      ∀ d ∈ scanned, r.identity.isStrongMatch d.identity = true →
        locatorGroupKey d.port =
          locatorGroupKey ((reconcileHistory r scans).reconcile scanned).port
  moves : ((reconcileHistory r scans).reconcile scanned).port ≠ (reconcileHistory r scans).port →
    (∀ d ∈ scanned, d.port ≠ (reconcileHistory r scans).port) ∧
      ∀ kind, aliasKind (reconcileHistory r scans).port = some kind →
        aliasKind ((reconcileHistory r scans).reconcile scanned).port = some kind
  idempotent : ((reconcileHistory r scans).reconcile scanned).reconcile scanned =
    (reconcileHistory r scans).reconcile scanned

section
open DesktopDeviceRecord
variable (r : DesktopDeviceRecord) (scans : List (List ScannedDesktopDevice))

theorem history_id : (reconcileHistory r scans).descriptor.id = r.descriptor.id := by
  induction scans generalizing r with
  | nil => rfl
  | cons scanned scans ih => exact (ih _).trans (reconcile_id scanned r)

theorem history_identity : (reconcileHistory r scans).identity = r.identity := by
  induction scans generalizing r with
  | nil => rfl
  | cons scanned scans ih => exact (ih _).trans (reconcile_identity scanned r)

theorem history_activity : (reconcileHistory r scans).descriptor.status.activity =
    r.descriptor.status.activity := by
  induction scans generalizing r with
  | nil => rfl
  | cons scanned scans ih => exact (ih _).trans (reconcile_activity scanned r)

theorem history_generation : (reconcileHistory r scans).locatorGeneration =
    r.locatorGeneration + portChanges r scans := by
  induction scans generalizing r with
  | nil => rfl
  | cons scanned scans ih =>
      have hstep := reconcile_generation scanned r
      have hrest := ih (r.reconcile scanned)
      simp only [reconcileHistory, List.foldl_cons, portChanges] at hrest ⊢
      omega

theorem history_inSync (h : r.InSync) : (reconcileHistory r scans).InSync := by
  induction scans generalizing r with
  | nil => exact h
  | cons scanned scans ih => exact ih _ (reconcile_inSync scanned r (.inl h))

end

/-- A record stands for one identity, whatever the scans of its history have seen. -/
theorem device_keeps_identity (r : DesktopDeviceRecord)
    (scans : List (List ScannedDesktopDevice)) (scanned : List ScannedDesktopDevice)
    (hports : (scanned.map (·.port)).Nodup) : KeepsIdentity r scans scanned := by
  have hidentity := history_identity r scans
  constructor
  · exact history_id r scans
  · exact hidentity
  · exact history_activity r scans
  · exact history_generation r scans
  · rintro candidate rfl
    have hgeneration := history_generation (claimedRecord candidate) scans
    have hsync := history_inSync _ scans (DesktopDeviceRecord.inSync_claimedRecord candidate)
    rw [show (claimedRecord candidate).locatorGeneration = 0 from rfl, Nat.zero_add]
      at hgeneration
    rw [DesktopDeviceRecord.InSync, hgeneration] at hsync
    exact ⟨hgeneration, hsync⟩
  · exact history_inSync r scans
  · exact fun h => (reconcileHistory r scans).reconcile_inSync scanned (.inr h)
  · intro h
    have havailable := (reconcileHistory r scans).reconcile_available scanned h
    rwa [hidentity] at havailable
  · exact (reconcileHistory r scans).reconcile_port scanned
  · exact DesktopDeviceRecord.reconcile_idempotent hports _

def serialAdapter (address : String) : SerialPortInfo where
  portName := address
  portType := .usbPort ⟨0x303a, 0x1001, some "serial-1", none, some "USB JTAG/serial debug unit"⟩

/-- The digests of the two identity keys below. -/
def adapterSha256 (identityKey : String) : List UInt8 :=
  if identityKey = "usb:303a:1001:serial:serial-1:address:/dev/ttyUSB0" then
    [15, 61, 132, 136, 199, 245, 75, 220, 62, 119, 120, 79, 141, 219, 226, 239,
      79, 128, 34, 237, 138, 234, 229, 206, 251, 96, 185, 191, 112, 166, 118, 28]
  else
    [59, 84, 213, 148, 68, 171, 158, 236, 8, 81, 126, 153, 12, 2, 169, 129,
      51, 207, 248, 193, 152, 82, 241, 225, 194, 115, 187, 12, 119, 205, 179, 159]

def twoAdapters : List ScannedDesktopDevice :=
  scanDevices adapterSha256 [serialAdapter "/dev/ttyUSB0", serialAdapter "/dev/ttyUSB1"]

def oneAdapter : List ScannedDesktopDevice :=
  scanDevices adapterSha256 [serialAdapter "/dev/ttyUSB1"]

/-- A record that has followed its adapter to another address, and then sees a twin of it. -/
theorem device_keeps_identity_adapter :
    KeepsIdentity (claimedRecord (scanDevice adapterSha256 (serialAdapter "/dev/ttyUSB0")))
      [oneAdapter] twoAdapters :=
  device_keeps_identity _ _ _ (by decide +kernel)

end IdfRemote.DesktopRegistry
