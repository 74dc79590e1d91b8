import IdfRemote.Device
import IdfRemote.Grouping
import Mathlib.Data.List.Infix

/-!
# The registry of desktop serial devices

A scan lists the serial ports of the host with the USB identities behind them. The
registry keeps a record for each device that has been configured or discovered,
under an identifier that was made from the identity and the address at that time.
A record stays when its device is gone, and follows it to a new address when the
identity is strong. Digests are taken by a function that is a parameter.
-/
namespace IdfRemote.DesktopRegistry
open Grouping

def maxDiscoveredDevices : ℕ := 64

structure UsbPortInfo where
  vid : UInt16
  pid : UInt16
  serialNumber : Option String
  manufacturer : Option String
  product : Option String
deriving DecidableEq, Repr

inductive SerialPortType
  | usbPort (info : UsbPortInfo)
  | bluetoothPort
  | pciPort
  | unknown
deriving DecidableEq, Repr

structure SerialPortInfo where
  portName : String
  portType : SerialPortType
deriving DecidableEq, Repr

inductive DesktopPhysicalIdentity
  | usb (vid pid : UInt16) (serialNumber manufacturer product : Option String)
  | addressBound (kind address : String)
deriving DecidableEq, Repr

namespace DesktopPhysicalIdentity

def fromUsb (info : UsbPortInfo) : DesktopPhysicalIdentity :=
  .usb info.vid info.pid info.serialNumber info.manufacturer info.product

def isUsb : DesktopPhysicalIdentity → Bool
  | .usb .. => true
  | .addressBound .. => false

/-- Only USB identities with a serial number can be recognised at another address. -/
def isStrongMatch : DesktopPhysicalIdentity → DesktopPhysicalIdentity → Bool
  | .usb leftVid leftPid (some leftSerial) leftManufacturer leftProduct,
    .usb rightVid rightPid (some rightSerial) rightManufacturer rightProduct =>
      if leftSerial ≠ "" ∧ rightSerial ≠ "" then
        leftVid = rightVid && leftPid = rightPid && leftSerial = rightSerial &&
          leftManufacturer = rightManufacturer && leftProduct = rightProduct
      else false
  | _, _ => false

end DesktopPhysicalIdentity

structure ScannedDesktopDevice where
  descriptor : DeviceDescriptor
  port : String
  usb : UsbPortInfo
  identity : DesktopPhysicalIdentity
deriving DecidableEq, Repr

structure DesktopDeviceRecord where
  descriptor : DeviceDescriptor
  port : String
  usb : UsbPortInfo
  identity : DesktopPhysicalIdentity
  locatorGeneration : ℕ
deriving DecidableEq, Repr

def stripPrefix (start text : String) : Option String :=
  if start.toList <+: text.toList then some (String.ofList (text.toList.drop start.length))
  else none

inductive MacosSerialAddressKind
  | callout
  | dialin
deriving DecidableEq, Repr

def macosSerialAlias (address : String) : Option (MacosSerialAddressKind × String) :=
  ((stripPrefix "/dev/cu." address).map fun name => (.callout, name)).or
    ((stripPrefix "/dev/tty." address).map fun name => (.dialin, name))

def aliasKind (address : String) : Option MacosSerialAddressKind :=
  (macosSerialAlias address).map Prod.fst

/-- The two special files of a macOS serial interface are one locator. -/
def locatorGroupKey (address : String) : String :=
  match macosSerialAlias address with
  | some (_, name) => "macos:" ++ name
  | none => "address:" ++ address

/-- The order of strings by their code points. -/
def precedes : List Char → List Char → Bool
  | [], _ => true
  | _ :: _, [] => false
  | a :: as, b :: bs => a.toNat < b.toNat || (a = b && precedes as bs)

def keyLe (a b : String) : Bool := precedes a.toList b.toList

def locatorGroups (devices : List ScannedDesktopDevice) :
    List (String × List ScannedDesktopDevice) :=
  groupBy keyLe (fun d => locatorGroupKey d.port) devices

def selectLocatorAlias (previous : String) (candidates : List ScannedDesktopDevice) :
    Option ScannedDesktopDevice :=
  match aliasKind previous with
  | some kind => candidates.find? fun c => aliasKind c.port = some kind
  | none => if candidates.length = 1 then candidates.head? else none

def hexDigits (width n : ℕ) : String :=
  String.ofList ((Nat.toDigits 16 n).leftpad width (Char.ofNat 48))

def usbIdentityKey (vid pid : UInt16) (serial : Option String) (address : String) : String :=
  "usb:" ++ hexDigits 4 vid.toNat ++ ":" ++ hexDigits 4 pid.toNat ++ ":serial:" ++
    serial.getD "<none>" ++ ":address:" ++ address

def deviceId (sha256 : String → List UInt8) (identityKey : String) : DeviceId :=
  "dev_" ++ String.join (((sha256 identityKey).take 12).map fun byte => hexDigits 2 byte.toNat)

def reopenAfterBootEntry (info : UsbPortInfo) : Bool :=
  info.vid = 0x303a && info.pid = 0x1001 &&
    info.product.any fun product => "JTAG/serial".toList <:+: product.toList

def unknownUsb : UsbPortInfo := ⟨0, 0, none, none, none⟩

def optionalEntry (key : String) (value : Option String) (m : Metadata) : Metadata :=
  value.elim m fun v => m.insert key v

def usbMetadata (info : UsbPortInfo) : Metadata :=
  let m := Metadata.insert "port_type" "usb" []
  let m := if reopenAfterBootEntry info then m.insert "reopen_after_boot_entry" "true" else m
  let m := m.insert "identity_strength"
    (if info.serialNumber.any (· ≠ "") then "strong" else "weak")
  let m := (m.insert "vid" (hexDigits 4 info.vid.toNat)).insert "pid" (hexDigits 4 info.pid.toNat)
  optionalEntry "manufacturer" info.manufacturer
    (optionalEntry "product" info.product (optionalEntry "serial_number" info.serialNumber m))

/-- A port that is no USB device is known by its address only. -/
def addressBound (kind name address : String) :
    Metadata × String × String × UsbPortInfo × DesktopPhysicalIdentity :=
  (Metadata.insert "port_type" kind [], kind ++ ":" ++ address, name ++ " (" ++ address ++ ")",
    unknownUsb, .addressBound kind address)

/-- The metadata, identity key, display name, USB information and identity of a port. -/
def describe (port : SerialPortInfo) :
    Metadata × String × String × UsbPortInfo × DesktopPhysicalIdentity :=
  match port.portType with
  | .usbPort info =>
      (usbMetadata info, usbIdentityKey info.vid info.pid info.serialNumber port.portName,
        info.product.getD "USB serial device" ++ " (" ++
          info.serialNumber.getD port.portName ++ ")",
        info, .fromUsb info)
  | .bluetoothPort => addressBound "bluetooth" "Bluetooth serial" port.portName
  | .pciPort => addressBound "pci" "PCI serial" port.portName
  | .unknown => addressBound "unknown" "Serial device" port.portName

def scanDevice (sha256 : String → List UInt8) (port : SerialPortInfo) : ScannedDesktopDevice :=
  let (metadata, identityKey, displayName, usb, identity) := describe port
  { descriptor :=
      { id := deviceId sha256 identityKey
        displayName := displayName
        transport :=
          { kind := "desktop_serial", address := some port.portName, metadata := metadata }
        status := .availableIdle
        capabilities := [.probe, .flash, .readFlash, .eraseFlash, .serialWrite, .reset, .monitor] }
    port := port.portName
    usb := usb
    identity := identity }

def scanDevices (sha256 : String → List UInt8) (ports : List SerialPortInfo) :
    List ScannedDesktopDevice :=
  (ports.map (scanDevice sha256)).insertionSort fun a b => keyLe a.port b.port

namespace DesktopDeviceRecord

def setAvailability (r : DesktopDeviceRecord) (availability : DeviceAvailability) :
    DesktopDeviceRecord :=
  { r with
    descriptor :=
      { r.descriptor with status := { r.descriptor.status with availability := availability } } }

/-- A descriptor from a scan under the identifier, activity and generation of the record. -/
def describedBy (r : DesktopDeviceRecord) (candidate : ScannedDesktopDevice) (generation : ℕ) :
    DeviceDescriptor :=
  { candidate.descriptor with
    id := r.descriptor.id
    status := { availability := .available, activity := r.descriptor.status.activity }
    transport :=
      { candidate.descriptor.transport with
        metadata := candidate.descriptor.transport.metadata.insert "locator_generation"
          (toString generation) } }

def adoptLocator (r : DesktopDeviceRecord) (candidate : ScannedDesktopDevice) :
    DesktopDeviceRecord :=
  { descriptor := r.describedBy candidate (r.locatorGeneration + 1)
    port := candidate.port
    usb := candidate.usb
    identity := candidate.identity
    locatorGeneration := r.locatorGeneration + 1 }

def strongMatches (r : DesktopDeviceRecord) (scanned : List ScannedDesktopDevice) :
    List ScannedDesktopDevice :=
  scanned.filter fun c => r.identity.isStrongMatch c.identity

def reconcile (scanned : List ScannedDesktopDevice) (r : DesktopDeviceRecord) :
    DesktopDeviceRecord :=
  match scanned.find? fun c => c.port = r.port with
  | some candidate =>
      if candidate.identity = r.identity then
        if 1 < ((r.strongMatches scanned).map fun c => locatorGroupKey c.port).dedup.length then
          r.setAvailability .ambiguous
        else { r with descriptor := r.describedBy candidate r.locatorGeneration }
      else r.setAvailability .identityMismatch
  | none =>
      match locatorGroups (r.strongMatches scanned) with
      | [] => r.setAvailability .disconnected
      | [(_, candidates)] =>
          match selectLocatorAlias r.port candidates with
          | some candidate => r.adoptLocator candidate
          | none => r.setAvailability .disconnected
      | _ => r.setAvailability .ambiguous

end DesktopDeviceRecord

def claimedRecord (candidate : ScannedDesktopDevice) : DesktopDeviceRecord :=
  { descriptor :=
      { candidate.descriptor with
        transport :=
          { candidate.descriptor.transport with
            metadata := candidate.descriptor.transport.metadata.insert "locator_generation" "0" } }
    port := candidate.port
    usb := candidate.usb
    identity := candidate.identity
    locatorGeneration := 0 }

/-- The records under their identifiers, which are distinct. -/
structure Registry where
  records : List (DeviceId × DesktopDeviceRecord) := []
  nodup : (records.map Prod.fst).Nodup := by simp

namespace Registry

def contains (r : Registry) (id : DeviceId) : Bool := r.records.any fun p => p.1 = id

/-- A new record under an identifier that is not in use. -/
def insertNew (r : Registry) (id : DeviceId) (record : DesktopDeviceRecord)
    (h : r.contains id = false) : Registry where
  records := r.records ++ [(id, record)]
  nodup := by
    rw [List.map_append, List.nodup_append]
    refine ⟨r.nodup, List.nodup_singleton _, fun a ha b hb => ?_⟩
    obtain ⟨p, hp, rfl⟩ := List.mem_map.mp ha
    rw [List.map_singleton, List.mem_singleton] at hb
    have hne := List.any_eq_false.mp h p hp
    rw [hb]
    simpa using hne

/-- A change of each record by its identifier. -/
def mapRecords (r : Registry) (f : DeviceId → DesktopDeviceRecord → DesktopDeviceRecord) :
    Registry where
  records := r.records.map fun p => (p.1, f p.1 p.2)
  nodup := by
    rw [List.map_map]
    exact r.nodup

/-- A record replaces the one under its identifier, if there is one. -/
def insert (r : Registry) (id : DeviceId) (record : DesktopDeviceRecord) : Registry :=
  if h : r.contains id = false then r.insertNew id record h
  else r.mapRecords fun key old => if key = id then record else old

def reconcileAll (r : Registry) (scanned : List ScannedDesktopDevice) : Registry :=
  r.mapRecords fun _ record => record.reconcile scanned

/-- A group of the scan is tried at its callout address first. -/
def candidateOf (candidates : List ScannedDesktopDevice) : Option ScannedDesktopDevice :=
  (candidates.find? fun c => aliasKind c.port = some .callout).or candidates.head?

/-- A device that some record already stands for. -/
def represented (r : Registry) (candidate : ScannedDesktopDevice) : Bool :=
  r.records.any fun p =>
    (p.2.identity = candidate.identity &&
        locatorGroupKey p.2.port = locatorGroupKey candidate.port) ||
      p.2.identity.isStrongMatch candidate.identity

def discoverGroup (r : Registry) (candidates : List ScannedDesktopDevice) : Registry :=
  if maxDiscoveredDevices ≤ r.records.length then r
  else
    match candidateOf candidates with
    | none => r
    | some candidate =>
        if r.represented candidate || r.contains candidate.descriptor.id then r
        else r.insert candidate.descriptor.id (claimedRecord candidate)

def discoverFromScan (r : Registry) (scanned : List ScannedDesktopDevice) : Registry :=
  let groups := locatorGroups (scanned.filter fun c => c.identity.isUsb)
  ((groups.map Prod.snd).foldl discoverGroup (r.reconcileAll scanned)).reconcileAll scanned

/-- The descriptors that a discovery returns, in the order of the identifiers. -/
def descriptors (r : Registry) : List DeviceDescriptor :=
  (r.records.map fun p => p.2.descriptor).insertionSort fun a b => keyLe a.id b.id

/-- The loop over the allowed addresses, with the records configured so far. -/
def configureAddresses (r : Registry) (scanned : List ScannedDesktopDevice) :
    List String → List (DeviceId × DesktopDeviceRecord) → List String →
      Result (List (DeviceId × DesktopDeviceRecord))
  | [], pending, _ => return pending
  | address :: addresses, pending, groups => do
      ensure (locatorGroupKey address ∉ groups)
        ("the same serial interface was configured more than once: " ++ address)
      match scanned.filter fun d => d.port = address with
      | [] => .error (.msg ("allowed serial port is not present: " ++ address))
      | device :: rest =>
          ensure rest.isEmpty ("allowed serial port is ambiguous: " ++ address)
          let id := device.descriptor.id
          ensure (!r.contains id && !pending.any fun p => p.1 = id)
            ("device was configured more than once: " ++ id)
          configureAddresses r scanned addresses (pending ++ [(id, claimedRecord device)])
            (groups ++ [locatorGroupKey address])

/-- The records of the allowed addresses are added if all of them are accepted. -/
def devicesForAddresses (r : Registry) (addresses : List String)
    (scanned : List ScannedDesktopDevice) : Result (Registry × List DeviceDescriptor) := do
  ensure (!addresses.isEmpty) "at least one allowed serial port is required"
  let pending ← r.configureAddresses scanned addresses [] []
  return (pending.foldl (fun r p => r.insert p.1 p.2) r, pending.map fun p => p.2.descriptor)

/-- The reconciliation of one record. -/
def refreshRecord (r : Registry) (id : DeviceId) (scanned : List ScannedDesktopDevice) :
    Result Registry :=
  if r.contains id then
    .ok (r.mapRecords fun key record => if key = id then record.reconcile scanned else record)
  else .error (.msg "device is not configured in this backend")

end Registry
end IdfRemote.DesktopRegistry
