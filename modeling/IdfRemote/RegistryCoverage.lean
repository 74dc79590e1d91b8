import IdfRemote.RegistryIdentity

/-!
# The devices that discovery misses

Identifiers are made from a part of the identity and the address, while a record stands
for a device by the whole identity. A device whose identifier is in use for another
identity gets no record, so whether a board is found depends on what was found at its
address before.
-/
namespace IdfRemote.DesktopRegistry
open Grouping DesktopPhysicalIdentity
namespace Registry

/-- Some record stands for the device by its identity. -/
def Covers (r : Registry) (c : ScannedDesktopDevice) : Prop :=
  ∃ p ∈ r.records, p.2.identity = c.identity ∨ p.2.identity.isStrongMatch c.identity = true

instance (r : Registry) (c : ScannedDesktopDevice) : Decidable (r.Covers c) :=
  inferInstanceAs (Decidable (∃ p ∈ r.records, _))

/-- The groups of the USB devices of a scan, in the order in which they are tried. -/
def usbGroups (scanned : List ScannedDesktopDevice) : List (List ScannedDesktopDevice) :=
  (locatorGroups (scanned.filter fun c => c.identity.isUsb)).map Prod.snd

/-- The registry when a group has its turn, after the groups in front of it. -/
def atTurn (r : Registry) (scanned : List ScannedDesktopDevice)
    (front : List (List ScannedDesktopDevice)) : Registry :=
  front.foldl discoverGroup (r.reconcileAll scanned)

/-- The registry that some scans have built. -/
def discovered (scans : List (List ScannedDesktopDevice)) : Registry :=
  scans.foldl discoverFromScan {}

def identities (r : Registry) : List DesktopPhysicalIdentity :=
  r.records.map fun p => p.2.identity

theorem covers_iff {r : Registry} {c : ScannedDesktopDevice} :
    r.Covers c ↔ c.identity ∈ r.identities := by
  rw [identities, List.mem_map]
  constructor
  · rintro ⟨p, hp, hidentity | hmatch⟩
    · exact ⟨p, hp, hidentity⟩
    · exact ⟨p, hp, eq_of_isStrongMatch hmatch⟩
  · rintro ⟨p, hp, hidentity⟩
    exact ⟨p, hp, .inl hidentity⟩

theorem identities_reconcileAll (r : Registry) (scanned : List ScannedDesktopDevice) :
    (r.reconcileAll scanned).identities = r.identities := by
  simp [identities, reconcileAll, mapRecords, Function.comp_def,
    DesktopDeviceRecord.reconcile_identity]

theorem length_reconcileAll (r : Registry) (scanned : List ScannedDesktopDevice) :
    (r.reconcileAll scanned).records.length = r.records.length :=
  List.length_map _

theorem mem_identities_of_represented {r : Registry} {c : ScannedDesktopDevice}
    (h : r.represented c = true) : c.identity ∈ r.identities := by
  obtain ⟨p, hp, hsame⟩ := List.any_eq_true.mp h
  rw [Bool.or_eq_true, Bool.and_eq_true, decide_eq_true_eq] at hsame
  exact covers_iff.mp ⟨p, hp, hsame.imp_left fun h => h.1⟩

/-- What a group adds, as long as there is room. -/
theorem discoverGroup_cases {r : Registry} (hroom : r.records.length < maxDiscoveredDevices)
    (group : List ScannedDesktopDevice) :
    (r.discoverGroup group = r ∧ ∀ c, candidateOf group = some c →
      r.represented c = true ∨ r.contains c.descriptor.id = true) ∨
    ∃ c, candidateOf group = some c ∧ r.contains c.descriptor.id = false ∧
      (r.discoverGroup group).records = r.records ++ [(c.descriptor.id, claimedRecord c)] := by
  rw [discoverGroup, if_neg (Nat.not_le.mpr hroom)]
  cases hcandidate : candidateOf group with
  | none => exact .inl ⟨rfl, fun c hc => by cases hc⟩
  | some c =>
      dsimp only
      split_ifs with hknown
      · refine .inl ⟨rfl, fun d hd => ?_⟩
        cases hd
        exact Bool.or_eq_true_iff.mp hknown
      · rw [Bool.not_eq_true, Bool.or_eq_false_iff] at hknown
        rw [Registry.insert, dif_pos hknown.2]
        exact .inr ⟨c, rfl, hknown.2, rfl⟩

theorem length_le_discoverGroup (r : Registry) (group : List ScannedDesktopDevice) :
    r.records.length ≤ (r.discoverGroup group).records.length := by
  by_cases hroom : r.records.length < maxDiscoveredDevices
  · rcases discoverGroup_cases hroom group with ⟨hsame, -⟩ | ⟨c, -, -, hrecords⟩
    · rw [hsame]
    · rw [hrecords, List.length_append]
      exact Nat.le_add_right _ _
  · rw [discoverGroup, if_pos (Nat.not_lt.mp hroom)]

theorem length_le_discoverGroups (r : Registry) (groups : List (List ScannedDesktopDevice)) :
    r.records.length ≤ (groups.foldl discoverGroup r).records.length := by
  induction groups generalizing r with
  | nil => exact le_rfl
  | cons group groups ih => exact (r.length_le_discoverGroup group).trans (ih _)

/-- A group brings in the identity of its candidate when the identifier is free. -/
theorem mem_identities_discoverGroup {r : Registry}
    (hroom : r.records.length < maxDiscoveredDevices) (group : List ScannedDesktopDevice)
    (identity : DesktopPhysicalIdentity) :
    identity ∈ (r.discoverGroup group).identities ↔ identity ∈ r.identities ∨
      ∃ c, candidateOf group = some c ∧ c.identity = identity ∧
        r.contains c.descriptor.id = false := by
  rcases discoverGroup_cases hroom group with ⟨hsame, hknown⟩ | ⟨c, hc, hfree, hrecords⟩
  · rw [hsame]
    refine ⟨.inl, fun h => h.elim id ?_⟩
    rintro ⟨c, hc, rfl, hfree⟩
    refine mem_identities_of_represented ((hknown c hc).resolve_right ?_)
    rw [hfree]
    exact Bool.false_ne_true
  · have hidentities : (r.discoverGroup group).identities = r.identities ++ [c.identity] := by
      rw [identities, hrecords, List.map_append]
      rfl
    rw [hidentities, List.mem_append, List.mem_singleton]
    refine or_congr_right ⟨?_, ?_⟩
    · rintro rfl
      exact ⟨c, hc, rfl, hfree⟩
    · rintro ⟨d, hd, rfl, -⟩
      cases hc.symm.trans hd
      rfl

/-- After all groups, an identity was there before or came in when its group had its turn. -/
theorem mem_identities_discoverGroups {r : Registry} (groups : List (List ScannedDesktopDevice))
    (hroom : (groups.foldl discoverGroup r).records.length < maxDiscoveredDevices)
    (identity : DesktopPhysicalIdentity) :
    identity ∈ (groups.foldl discoverGroup r).identities ↔ identity ∈ r.identities ∨
      ∃ front group back c, groups = front ++ group :: back ∧ candidateOf group = some c ∧
        c.identity = identity ∧ (front.foldl discoverGroup r).contains c.descriptor.id = false := by
  induction groups generalizing r with
  | nil => simp
  | cons group groups ih =>
      rw [List.foldl_cons] at hroom ⊢
      have hhere := mem_identities_discoverGroup
        (((r.length_le_discoverGroup group).trans (length_le_discoverGroups _ _)).trans_lt hroom)
        group identity
      rw [ih hroom, hhere, or_assoc]
      refine or_congr_right ⟨?_, ?_⟩
      · rintro (⟨c, hc, hidentity, hfree⟩ | ⟨front, g, back, c, rfl, hc, hidentity, hfree⟩)
        · exact ⟨[], group, groups, c, rfl, hc, hidentity, hfree⟩
        · exact ⟨group :: front, g, back, c, rfl, hc, hidentity, hfree⟩
      · rintro ⟨front, g, back, c, hsplit, hc, hidentity, hfree⟩
        cases front with
        | nil =>
            obtain ⟨rfl, -⟩ := List.cons.inj hsplit
            exact .inl ⟨c, hc, hidentity, hfree⟩
        | cons first front =>
            obtain ⟨rfl, rfl⟩ := List.cons.inj hsplit
            exact .inr ⟨front, g, back, c, rfl, hc, hidentity, hfree⟩

theorem contains_reconcileAll (r : Registry) (scanned : List ScannedDesktopDevice)
    (id : DeviceId) : (r.reconcileAll scanned).contains id = r.contains id := by
  simp [contains, reconcileAll, mapRecords, List.any_map, Function.comp_def]

theorem contains_discoverGroup (r : Registry) (group : List ScannedDesktopDevice) {id : DeviceId}
    (hother : ∀ c, candidateOf group = some c → c.descriptor.id ≠ id) :
    (r.discoverGroup group).contains id = r.contains id := by
  rw [discoverGroup]
  split
  · rfl
  · split
    · rfl
    · next c hc =>
      split_ifs with hknown
      · rfl
      · rw [Bool.not_eq_true, Bool.or_eq_false_iff] at hknown
        rw [Registry.insert, dif_pos hknown.2, contains, insertNew, List.any_append]
        simp [hother c hc, contains]

theorem contains_discoverGroups (r : Registry) {groups : List (List ScannedDesktopDevice)}
    {id : DeviceId}
    (hother : ∀ group ∈ groups, ∀ c, candidateOf group = some c → c.descriptor.id ≠ id) :
    (groups.foldl discoverGroup r).contains id = r.contains id := by
  induction groups generalizing r with
  | nil => rfl
  | cons group groups ih =>
      rw [List.foldl_cons, ih _ fun g hg => hother g (List.mem_cons_of_mem _ hg),
        contains_discoverGroup r group (hother group List.mem_cons_self)]

/-- The identifiers under which the groups of a scan are tried. -/
def candidateIds (scanned : List ScannedDesktopDevice) : List DeviceId :=
  ((usbGroups scanned).filterMap candidateOf).map fun c => c.descriptor.id

/-- When no two candidates share an identifier, one is free at its turn when it is free
before the scan. -/
theorem contains_atTurn (r : Registry) {scanned : List ScannedDesktopDevice}
    (hnodup : (candidateIds scanned).Nodup) {front back : List (List ScannedDesktopDevice)}
    {group : List ScannedDesktopDevice} {c : ScannedDesktopDevice}
    (hsplit : usbGroups scanned = front ++ group :: back) (hc : candidateOf group = some c) :
    (r.atTurn scanned front).contains c.descriptor.id = r.contains c.descriptor.id := by
  rw [candidateIds, hsplit, List.filterMap_append, List.map_append, List.nodup_append,
    List.filterMap_cons_some hc, List.map_cons] at hnodup
  rw [atTurn, contains_discoverGroups, contains_reconcileAll]
  intro g hg d hd
  exact hnodup.2.2 _ (List.mem_map_of_mem (List.mem_filterMap.mpr ⟨g, hg, hd⟩)) _
    List.mem_cons_self

/-- While there is room, discovery finds a device exactly when a record has its identity
already, or when the identifier of a candidate with this identity is free at its turn. It
is free then when no record had it before the scan, unless two candidates share it. -/
theorem discovery_covers_iff (r : Registry) (scanned : List ScannedDesktopDevice)
    (hroom : (r.discoverFromScan scanned).records.length < maxDiscoveredDevices)
    (c : ScannedDesktopDevice) :
    ((r.discoverFromScan scanned).Covers c ↔ r.Covers c ∨
      ∃ front group back d, usbGroups scanned = front ++ group :: back ∧
        candidateOf group = some d ∧ d.identity = c.identity ∧
        (r.atTurn scanned front).contains d.descriptor.id = false) ∧
    ((candidateIds scanned).Nodup →
      ((r.discoverFromScan scanned).Covers c ↔ r.Covers c ∨
        ∃ group ∈ usbGroups scanned, ∃ d, candidateOf group = some d ∧
          d.identity = c.identity ∧ r.contains d.descriptor.id = false)) := by
  have hlast : r.discoverFromScan scanned =
      ((usbGroups scanned).foldl discoverGroup (r.reconcileAll scanned)).reconcileAll scanned := rfl
  rw [hlast, length_reconcileAll] at hroom
  have hcovers : (r.discoverFromScan scanned).Covers c ↔ r.Covers c ∨
      ∃ front group back d, usbGroups scanned = front ++ group :: back ∧
        candidateOf group = some d ∧ d.identity = c.identity ∧
        (r.atTurn scanned front).contains d.descriptor.id = false := by
    rw [hlast, covers_iff, identities_reconcileAll, mem_identities_discoverGroups _ hroom,
      identities_reconcileAll, ← covers_iff]
    rfl
  refine ⟨hcovers, fun hnodup => hcovers.trans (or_congr_right ⟨?_, ?_⟩)⟩
  · rintro ⟨front, group, back, d, hsplit, hd, hidentity, hfree⟩
    refine ⟨group, ?_, d, hd, hidentity, ?_⟩
    · rw [hsplit]
      exact List.mem_append_right _ List.mem_cons_self
    · rw [← contains_atTurn r hnodup hsplit hd]
      exact hfree
  · rintro ⟨group, hgroup, d, hd, hidentity, hfree⟩
    obtain ⟨front, back, hsplit⟩ := List.append_of_mem hgroup
    refine ⟨front, group, back, d, hsplit, hd, hidentity, ?_⟩
    rw [contains_atTurn r hnodup hsplit hd]
    exact hfree

def board (product : String) : SerialPortInfo where
  portName := "/dev/ttyACM0"
  portType := .usbPort ⟨0x303a, 0x4001, none, none, some product⟩

/-- The digest of the only identity key below. -/
def boardSha256 (_ : String) : List UInt8 :=
  [130, 96, 122, 39, 78, 123, 216, 96, 224, 76, 24, 223, 50, 22, 152, 38,
    200, 89, 128, 219, 182, 161, 76, 231, 204, 213, 138, 139, 245, 159, 234, 192]

def plugged (product : String) : List ScannedDesktopDevice :=
  scanDevices boardSha256 [board product]

/-- A board at the address of another one, with the same numbers and another product name. -/
theorem replacement_missed :
    ((discovered [plugged "camera"]).discoverFromScan (plugged "keyboard")).records.length <
        maxDiscoveredDevices ∧
      ∃ group ∈ usbGroups (plugged "keyboard"), ∃ c, candidateOf group = some c ∧
        ¬ ((discovered [plugged "camera"]).discoverFromScan (plugged "keyboard")).Covers c := by
  refine ⟨by decide +kernel, plugged "keyboard", by decide +kernel,
    scanDevice boardSha256 (board "keyboard"), by decide +kernel, by decide +kernel⟩

/-- The same board at a free address is found. -/
theorem first_board_found :
    (discoverFromScan {} (plugged "camera")).Covers (scanDevice boardSha256 (board "camera")) := by
  apply ((discovery_covers_iff {} (plugged "camera") (by decide +kernel) _).2
    (by decide +kernel)).mpr
  exact .inr ⟨plugged "camera", by decide +kernel, scanDevice boardSha256 (board "camera"),
    by decide +kernel, rfl, by decide +kernel⟩

end Registry
end IdfRemote.DesktopRegistry
