import IdfRemote.RegistryIdentity

/-!
# Two records at one port

Discovery admits a device only if no record stands for it: none has its identity
behind its locator, and none matches it strongly. Two records that are apart in
this sense stay apart, whatever happens to their addresses, and cannot both be
available at one port. Configured addresses are checked for their locators and
identifiers only, so two devices with one serial number are admitted together; as
soon as one of them is gone, both records follow the other.
-/
namespace IdfRemote.DesktopRegistry
open Grouping DesktopPhysicalIdentity DesktopDeviceRecord

/-- Neither record would make discovery take the other's device for its own. -/
def Apart (a b : DesktopDeviceRecord) : Prop :=
  a.identity.isStrongMatch b.identity = false ∧
    ¬ (a.identity = b.identity ∧ locatorGroupKey a.port = locatorGroupKey b.port)

/-- A record moves only if its identity is strong. -/
def Follows (a b : DesktopDeviceRecord) : Prop :=
  b.identity = a.identity ∧ (b.port = a.port ∨ a.identity.isStrongMatch a.identity = true)

theorem follows_refl (a : DesktopDeviceRecord) : Follows a a := ⟨rfl, .inl rfl⟩

theorem follows_reconcile (scanned : List ScannedDesktopDevice) (r : DesktopDeviceRecord) :
    Follows r (r.reconcile scanned) := by
  refine ⟨reconcile_identity scanned r, ?_⟩
  rcases reconcile_cases scanned r with ⟨c, -, -, -, -, h⟩ | ⟨c, -, -, hmatch, -, -, -⟩ | ⟨a, -, h⟩
  · exact .inl (by rw [h])
  · exact .inr (isStrongMatch_iff.mp hmatch).2
  · rw [h]
    exact .inl rfl

theorem Apart.of_follows {a b a' b' : DesktopDeviceRecord} (h : Apart a b) (ha : Follows a a')
    (hb : Follows b b') : Apart a' b' := by
  obtain ⟨hstrong, hplace⟩ := h
  obtain ⟨haid, haport⟩ := ha
  obtain ⟨hbid, hbport⟩ := hb
  refine ⟨by rw [haid, hbid, hstrong], fun ⟨hid, hgroup⟩ => ?_⟩
  rw [haid, hbid] at hid
  have hweak : ¬ a.identity.isStrongMatch a.identity = true := by
    intro hself
    have hmatch := isStrongMatch_iff.mpr ⟨hid, hself⟩
    rw [hstrong] at hmatch
    cases hmatch
  have hportA := haport.resolve_right hweak
  have hportB := hbport.resolve_right (hid ▸ hweak)
  rw [hportA, hportB] at hgroup
  exact hplace ⟨hid, hgroup⟩

namespace Registry

/-- No two records are taken for the same device. -/
def AllApart (r : Registry) : Prop := r.records.Pairwise fun p q => Apart p.2 q.2

theorem allApart_default : AllApart {} := .nil

theorem AllApart.mapRecords {r : Registry} (h : r.AllApart)
    {f : DeviceId → DesktopDeviceRecord → DesktopDeviceRecord}
    (hf : ∀ id record, Follows record (f id record)) : (r.mapRecords f).AllApart :=
  List.pairwise_map.mpr (h.imp fun hpq => hpq.of_follows (hf _ _) (hf _ _))

theorem AllApart.reconcileAll {r : Registry} (h : r.AllApart)
    (scanned : List ScannedDesktopDevice) : (r.reconcileAll scanned).AllApart :=
  h.mapRecords fun _ record => follows_reconcile scanned record

theorem apart_of_represented {r : Registry} {candidate : ScannedDesktopDevice}
    (h : r.represented candidate = false) :
    ∀ p ∈ r.records, Apart p.2 (claimedRecord candidate) := by
  intro p hp
  have hno := List.any_eq_false.mp h p hp
  simp only [Bool.or_eq_true, Bool.and_eq_true, decide_eq_true_eq, not_or,
    Bool.not_eq_true] at hno
  exact ⟨hno.2, hno.1⟩

theorem AllApart.insertNew {r : Registry} (h : r.AllApart) {id : DeviceId}
    {record : DesktopDeviceRecord} (hid : r.contains id = false)
    (hrecord : ∀ p ∈ r.records, Apart p.2 record) : (r.insertNew id record hid).AllApart := by
  refine List.pairwise_append.mpr ⟨h, List.pairwise_singleton _ _, fun p hp q hq => ?_⟩
  rw [List.mem_singleton.mp hq]
  exact hrecord p hp

theorem AllApart.discoverGroup {r : Registry} (h : r.AllApart)
    (candidates : List ScannedDesktopDevice) : (r.discoverGroup candidates).AllApart := by
  unfold Registry.discoverGroup
  split_ifs with hlimit
  · exact h
  · split
    · exact h
    · next candidate hcandidate =>
      split_ifs with hknown
      · exact h
      · rw [Bool.not_eq_true, Bool.or_eq_false_iff] at hknown
        rw [Registry.insert, dif_pos hknown.2]
        exact h.insertNew hknown.2 (apart_of_represented hknown.1)

theorem AllApart.discover {r : Registry} (h : r.AllApart) (scanned : List ScannedDesktopDevice) :
    (r.discoverFromScan scanned).AllApart := by
  unfold discoverFromScan
  refine AllApart.reconcileAll (List.foldlRecOn _ _ (h.reconcileAll scanned) ?_) scanned
  exact fun registry hregistry candidates _ => hregistry.discoverGroup candidates

theorem AllApart.refresh {r : Registry} (h : r.AllApart) {id : DeviceId}
    {scanned : List ScannedDesktopDevice} {r' : Registry}
    (hr : r.refreshRecord id scanned = .ok r') : r'.AllApart := by
  unfold refreshRecord at hr
  split_ifs at hr
  cases hr
  apply h.mapRecords
  intro key record
  split_ifs
  · exact follows_reconcile scanned record
  · exact follows_refl record

/-- The devices at some addresses. -/
def devicesAt (scanned : List ScannedDesktopDevice) (addresses : List String) :
    List ScannedDesktopDevice :=
  addresses.filterMap fun address => scanned.find? fun d => d.port = address

theorem configureAddresses_ok {r : Registry} {scanned : List ScannedDesktopDevice}
    {addresses : List String} {pending result : List (DeviceId × DesktopDeviceRecord)}
    {groups : List String}
    (h : r.configureAddresses scanned addresses pending groups = .ok result) :
    result = pending ++
        (devicesAt scanned addresses).map (fun d => (d.descriptor.id, claimedRecord d)) ∧
      (∀ d ∈ devicesAt scanned addresses, r.contains d.descriptor.id = false ∧
        locatorGroupKey d.port ∉ groups ∧ ∀ p ∈ pending, p.1 ≠ d.descriptor.id) ∧
      (devicesAt scanned addresses).Pairwise fun c d =>
        c.descriptor.id ≠ d.descriptor.id ∧ locatorGroupKey c.port ≠ locatorGroupKey d.port := by
  induction addresses generalizing pending groups with
  | nil =>
      cases h
      exact ⟨(List.append_nil _).symm, fun d hd => absurd hd List.not_mem_nil, .nil⟩
  | cons address addresses ih =>
      rw [configureAddresses] at h
      cases hgroup : decide (locatorGroupKey address ∉ groups) with
      | false => simp [hgroup, bind, Except.bind] at h
      | true =>
          cases hscan : scanned.filter fun d => d.port = address with
          | nil => simp [hgroup, hscan, bind, Except.bind] at h
          | cons device rest =>
              rw [hgroup, hscan] at h
              cases hrest : rest.isEmpty with
              | false => simp [hrest, bind, Except.bind] at h
              | true =>
                  cases hid : !r.contains device.descriptor.id &&
                      !pending.any fun p => p.1 = device.descriptor.id with
                  | false => simp [hrest, hid, bind, Except.bind] at h
                  | true =>
                      simp only [ensure_true, hrest, hid, bind, Except.bind] at h
                      obtain ⟨hresult, hnew, hapart⟩ := ih h
                      have hfound : devicesAt scanned (address :: addresses) =
                          device :: devicesAt scanned addresses := by
                        have hfind : (scanned.filter fun d => d.port = address).head? =
                            scanned.find? fun d => d.port = address := List.head?_filter
                        rw [hscan, List.head?_cons] at hfind
                        rw [devicesAt, List.filterMap_cons, ← hfind]
                        rfl
                      have hmem : device ∈ scanned.filter fun d => d.port = address :=
                        hscan ▸ List.mem_cons_self
                      have hport : device.port = address := by
                        simpa using (List.mem_filter.mp hmem).2
                      simp only [Bool.and_eq_true, Bool.not_eq_true', List.any_eq_false,
                        decide_eq_true_eq] at hid
                      rw [hfound]
                      refine ⟨by simp [hresult], ?_, List.pairwise_cons.mpr ⟨?_, hapart⟩⟩
                      · intro d hd
                        rcases List.mem_cons.mp hd with rfl | hd
                        · exact ⟨hid.1, hport ▸ of_decide_eq_true hgroup, hid.2⟩
                        · obtain ⟨hcontains, hfresh, hother⟩ := hnew d hd
                          exact ⟨hcontains, fun hg => hfresh (List.mem_append_left _ hg),
                            fun p hp => hother p (List.mem_append_left _ hp)⟩
                      · intro d hd
                        obtain ⟨-, hfresh, hother⟩ := hnew d hd
                        refine ⟨hother _ (List.mem_append_right _ List.mem_cons_self), ?_⟩
                        intro heq
                        apply hfresh
                        rw [← heq, hport]
                        exact List.mem_append_right _ List.mem_cons_self

theorem contains_insertNew {r : Registry} {id other : DeviceId} {record : DesktopDeviceRecord}
    (hid : r.contains id = false) (hother : r.contains other = false) (hne : id ≠ other) :
    (r.insertNew id record hid).contains other = false := by
  unfold contains insertNew
  rw [List.any_append]
  rw [contains] at hother
  simp [hother, hne]

/-- New devices that are apart from all records and from each other. -/
theorem AllApart.insertAll {r : Registry} (h : r.AllApart) {ds : List ScannedDesktopDevice}
    (hids : ∀ d ∈ ds, r.contains d.descriptor.id = false)
    (hold : ∀ d ∈ ds, ∀ p ∈ r.records, Apart p.2 (claimedRecord d))
    (hnew : ds.Pairwise fun c d =>
      c.descriptor.id ≠ d.descriptor.id ∧ Apart (claimedRecord c) (claimedRecord d)) :
    ((ds.map fun d => (d.descriptor.id, claimedRecord d)).foldl
      (fun r p => r.insert p.1 p.2) r).AllApart := by
  induction ds generalizing r with
  | nil => exact h
  | cons d ds ih =>
      have hd := hids d List.mem_cons_self
      obtain ⟨hfirst, hrest⟩ := List.pairwise_cons.mp hnew
      rw [List.map_cons, List.foldl_cons, Registry.insert, dif_pos hd]
      apply ih (h.insertNew hd (hold d List.mem_cons_self)) _ _ hrest
      · intro e he
        exact contains_insertNew hd (hids e (List.mem_cons_of_mem _ he)) (hfirst e he).1
      · intro e he p hp
        rcases List.mem_append.mp hp with hp | hp
        · exact hold e (List.mem_cons_of_mem _ he) p hp
        · rw [List.mem_singleton.mp hp]
          exact (hfirst e he).2

theorem AllApart.configure {r : Registry} (h : r.AllApart) {addresses : List String}
    {scanned : List ScannedDesktopDevice} {r' : Registry} {descriptors : List DeviceDescriptor}
    (hr : r.devicesForAddresses addresses scanned = .ok (r', descriptors))
    (hold : ∀ d ∈ devicesAt scanned addresses, r.represented d = false)
    (hnew : (devicesAt scanned addresses).Pairwise fun c d =>
      c.identity.isStrongMatch d.identity = false) : r'.AllApart := by
  unfold devicesForAddresses at hr
  cases hempty : !addresses.isEmpty with
  | false => simp [hempty, bind, Except.bind] at hr
  | true =>
      cases hpending : r.configureAddresses scanned addresses [] [] with
      | error e => simp [hempty, hpending, bind, Except.bind] at hr
      | ok pending =>
          simp only [hempty, ensure_true, hpending, bind, Except.bind, pure, Except.pure,
            Except.ok.injEq, Prod.mk.injEq] at hr
          obtain ⟨rfl, -⟩ := hr
          obtain ⟨hresult, hids, hapart⟩ := configureAddresses_ok hpending
          rw [hresult, List.nil_append]
          refine h.insertAll (fun d hd => (hids d hd).1)
            (fun d hd => apart_of_represented (hold d hd)) ?_
          refine (hapart.and hnew).imp fun ⟨⟨hid, hgroup⟩, hstrong⟩ => ?_
          exact ⟨hid, hstrong, fun hsame => hgroup hsame.2⟩

/-- The calls that build and update the registry. -/
inductive Call
  | devicesForAddresses (addresses : List String) (scanned : List ScannedDesktopDevice)
  | devices (scanned : List ScannedDesktopDevice)
  | refresh (id : DeviceId) (scanned : List ScannedDesktopDevice)

/-- A call that is rejected leaves the registry as it was. -/
def after (r : Registry) : Call → Registry
  | .devicesForAddresses addresses scanned =>
      match r.devicesForAddresses addresses scanned with
      | .ok (r', _) => r'
      | .error _ => r
  | .devices scanned => r.discoverFromScan scanned
  | .refresh id scanned =>
      match r.refreshRecord id scanned with
      | .ok r' => r'
      | .error _ => r

def run : Registry → List Call → Registry
  | r, [] => r
  | r, call :: calls => run (r.after call) calls

/-- The devices of an accepted address list are new to the registry, as discovered ones are, and
no two of them match strongly. -/
def NewDevices (r : Registry) : Call → Prop
  | .devicesForAddresses addresses scanned =>
      (r.devicesForAddresses addresses scanned).isOk = true →
        (∀ d ∈ devicesAt scanned addresses, r.represented d = false) ∧
          (devicesAt scanned addresses).Pairwise fun c d =>
            c.identity.isStrongMatch d.identity = false
  | _ => True

def AllNewDevices : Registry → List Call → Prop
  | _, [] => True
  | r, call :: calls => r.NewDevices call ∧ AllNewDevices (r.after call) calls

theorem AllApart.after {r : Registry} (h : r.AllApart) {call : Call} (hcall : r.NewDevices call) :
    (r.after call).AllApart := by
  cases call with
  | devicesForAddresses addresses scanned =>
      simp only [Registry.after, NewDevices] at hcall ⊢
      cases hr : r.devicesForAddresses addresses scanned with
      | error e => exact h
      | ok result =>
          rw [hr] at hcall
          obtain ⟨hold, hnew⟩ := hcall rfl
          exact h.configure hr hold hnew
  | devices scanned => exact h.discover scanned
  | refresh id scanned =>
      simp only [Registry.after]
      cases hr : r.refreshRecord id scanned with
      | error e => exact h
      | ok r' => exact h.refresh hr

theorem AllApart.run {r : Registry} (h : r.AllApart) {calls : List Call}
    (hcalls : r.AllNewDevices calls) : (r.run calls).AllApart := by
  induction calls generalizing r with
  | nil => exact h
  | cons call calls ih => exact ih (h.after hcalls.1) hcalls.2

/-- Every record has been reconciled with this scan. -/
def ReconciledWith (r : Registry) (scanned : List ScannedDesktopDevice) : Prop :=
  ∀ p ∈ r.records, ∃ before : DesktopDeviceRecord, p.2 = before.reconcile scanned

/-- No two records are available behind one locator. -/
def OnePerPort (r : Registry) : Prop :=
  r.records.Pairwise fun p q =>
    ¬ (p.2.descriptor.status.availability = .available ∧
      q.2.descriptor.status.availability = .available ∧
      locatorGroupKey p.2.port = locatorGroupKey q.2.port)

instance (r : Registry) : Decidable r.OnePerPort :=
  inferInstanceAs (Decidable (List.Pairwise _ _))

theorem reconciledWith_devices (r : Registry) (scanned : List ScannedDesktopDevice) :
    (r.after (.devices scanned)).ReconciledWith scanned := by
  intro p hp
  obtain ⟨q, -, rfl⟩ := List.mem_map.mp hp
  exact ⟨q.2, rfl⟩

/-- The special files of one interface show one device. -/
def AlignedAliases (scanned : List ScannedDesktopDevice) : Prop :=
  ∀ c ∈ scanned, ∀ d ∈ scanned, locatorGroupKey c.port = locatorGroupKey d.port →
    c.identity = d.identity

/-- Both addresses are configured, and one of the two adapters is unplugged. -/
def unplugTwin : List Call :=
  [.devicesForAddresses ["/dev/ttyUSB0", "/dev/ttyUSB1"] twoAdapters, .devices oneAdapter]

/-- An adapter with another serial number. -/
def otherAdapter (address : String) : SerialPortInfo where
  portName := address
  portType := .usbPort ⟨0x303a, 0x1001, some "serial-2", none, some "USB JTAG/serial debug unit"⟩

def distinctSha256 (identityKey : String) : List UInt8 :=
  if identityKey = "usb:303a:1001:serial:serial-2:address:/dev/ttyUSB1" then
    [33, 159, 215, 84, 106, 5, 221, 117, 85, 3, 242, 130, 122, 34, 6, 31,
      40, 145, 10, 236, 50, 221, 79, 221, 2, 245, 172, 70, 21, 104, 158, 82]
  else adapterSha256 identityKey

def distinctAdapters : List ScannedDesktopDevice :=
  scanDevices distinctSha256 [serialAdapter "/dev/ttyUSB0", otherAdapter "/dev/ttyUSB1"]

example : ((run {} [.devicesForAddresses ["/dev/ttyUSB0", "/dev/ttyUSB1"] distinctAdapters,
    .devices oneAdapter]).records.map fun p =>
      (p.2.port, p.2.descriptor.status.availability)) =
    [("/dev/ttyUSB1", .available), ("/dev/ttyUSB1", .identityMismatch)] := by
  decide +kernel

end Registry
end IdfRemote.DesktopRegistry
