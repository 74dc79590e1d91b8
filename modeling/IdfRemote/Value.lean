import IdfRemote.Error

/-!
# JSON values

The document type of the host's JSON library, with its three kinds of numbers.
The library itself is not part of the repository: what the host uses of it to
read, write and display documents are the fields of `Serde`.
-/
namespace IdfRemote

/-- A non-negative integer, a negative integer, or a finite float given by its bits. -/
inductive Number
  | posInt (n : UInt64)
  | negInt (n : Int64)
  | float (bits : UInt64)
deriving DecidableEq, Repr

/-- The magnitude as a float is at most `2 ^ 53 - 1`. Magnitudes of floats are
ordered like their bits without the sign. -/
def Number.interoperable : Number → Bool
  | .posInt n => n.toNat ≤ 9007199254740991
  | .negInt n => n.toInt.natAbs ≤ 9007199254740991
  | .float bits => (bits &&& 0x7fffffffffffffff) ≤ 0x433fffffffffffff

inductive Value
  | null
  | bool (b : Bool)
  | number (n : Number)
  | string (text : String)
  | array (values : List Value)
  | object (fields : List (String × Value))

namespace Value

def get (value : Value) (key : String) : Option Value :=
  match value with
  | .object fields => fields.lookup key
  | _ => none

def asU64 : Value → Option UInt64
  | .number (.posInt n) => some n
  | _ => none

end Value

/-- The application command of a request. -/
structure Command where
  method : String
  params : Value

structure Serde where
  toVec : Command → Result (List UInt8)
  fromSlice : List UInt8 → Result Value
  display : Value → String

end IdfRemote
