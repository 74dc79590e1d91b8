import IdfRemote.Error

/-!
# Device descriptors

What the daemon publishes about a device. The identifier names the device for
its clients; the address is for display and never an identity.
-/
namespace IdfRemote

inductive DeviceAvailability
  | available
  | permissionRequired
  | disconnected
  | identityMismatch
  | ambiguous
deriving DecidableEq, Repr

inductive DeviceActivity
  | idle
  | busy
  | monitoring
  | reconnecting
  | error
deriving DecidableEq, Repr

structure DeviceStatus where
  availability : DeviceAvailability
  activity : DeviceActivity
deriving DecidableEq, Repr

def DeviceStatus.availableIdle : DeviceStatus := ⟨.available, .idle⟩

inductive DeviceCapability
  | probe
  | flash
  | readFlash
  | eraseFlash
  | serialWrite
  | reset
  | monitor
deriving DecidableEq, Repr

/-- A map from names to values. The order of its entries is never observed. -/
abbrev Metadata := List (String × String)

namespace Metadata

def insert (key value : String) : Metadata → Metadata
  | [] => [(key, value)]
  | entry :: rest => if entry.1 = key then (key, value) :: rest else entry :: insert key value rest

@[simp] theorem lookup_insert (key value : String) (m : Metadata) :
    (m.insert key value).lookup key = some value := by
  induction m with
  | nil => simp [insert]
  | cons entry rest ih =>
      unfold insert
      split_ifs with h
      · simp
      · have hne : (key == entry.1) = false := beq_eq_false_iff_ne.mpr (Ne.symm h)
        rw [List.lookup_cons, hne]
        exact ih

end Metadata

structure TransportDescriptor where
  kind : String
  address : Option String
  metadata : Metadata
deriving DecidableEq, Repr

abbrev DeviceId := String

structure DeviceDescriptor where
  id : DeviceId
  displayName : String
  transport : TransportDescriptor
  status : DeviceStatus
  capabilities : List DeviceCapability
deriving DecidableEq, Repr

def DeviceDescriptor.supports (d : DeviceDescriptor) (capability : DeviceCapability) : Bool :=
  d.capabilities.contains capability

end IdfRemote
