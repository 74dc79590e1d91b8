import IdfRemote.CArray
import Mathlib.Logic.Function.Iterate

/-!
# The firmware's codec

The C functions `mux_crc32`, `mux_encode` and `mux_feed` over arrays of fixed
size. `none` is an access outside of an array. Local arrays start with arbitrary
contents, and `mux_feed` writes the frame it completes into the caller's buffer.
-/
namespace IdfRemote.MuxCodec
open CArray

def muxMaxPayload : ℕ := 1024
def muxMaxBody : ℕ := 14 + muxMaxPayload + 4
def muxMaxWire : ℕ := muxMaxBody * 2 + 2

structure MuxFrame where
  kind : UInt8
  session : UInt64
  request : UInt32
  size : ℕ
  data : Vector UInt8 muxMaxPayload

structure MuxDecoder where
  inside : Bool
  escaped : Bool
  overflow : Bool
  size : ℕ
  data : Vector UInt8 muxMaxBody

/-- `mux_decoder_t decoder = {0}`. -/
def MuxDecoder.zeroed : MuxDecoder :=
  { inside := false, escaped := false, overflow := false, size := 0
    data := Vector.replicate muxMaxBody 0 }

def crcBit (crc : UInt32) : UInt32 := (crc >>> 1) ^^^ (0xedb88320 &&& (0 - (crc &&& 1)))

def muxCrc32 {n : ℕ} (data : Vector UInt8 n) (size : ℕ) : Option UInt32 :=
  (loadLoop data 0 (fun crc _ b => crcBit^[8] (crc ^^^ b.toUInt32)) size (~~~ 0)).map (~~~ ·)

def get {n : ℕ} (data : Vector UInt8 n) (offset count : ℕ) : Option UInt64 :=
  loadLoop data offset (fun value i b => value ||| (b.toUInt64 <<< UInt64.ofNat (8 * i))) count 0

def put {n : ℕ} (a : Vector UInt8 n) (offset : ℕ) (value : UInt64) (count : ℕ) :
    Option (Vector UInt8 n) :=
  storeLoop offset (fun i => some (value >>> UInt64.ofNat (8 * i)).toUInt8) count a

/-- One iteration of the escaping loop. -/
def escapeInto (body : Vector UInt8 muxMaxBody) (state : ℕ × Vector UInt8 muxMaxWire) (i : ℕ) :
    Option (ℕ × Vector UInt8 muxMaxWire) := do
  let (out, wire) := state
  let b ← load body i
  if b = 0x7e ∨ b = 0x7d then
    let wire ← store wire out 0x7d
    let wire ← store wire (out + 1) (b ^^^ 0x20)
    return (out + 2, wire)
  else
    let wire ← store wire out b
    return (out + 1, wire)

/-- The count of bytes written to `wire`; zero refuses the frame. -/
def muxEncode (f : MuxFrame) (body : Vector UInt8 muxMaxBody) (wire : Vector UInt8 muxMaxWire) :
    Option (ℕ × Vector UInt8 muxMaxWire) :=
  if f.size > muxMaxPayload ∨ f.session = 0 ∨ f.kind < 1 ∨ f.kind > 7 then some (0, wire)
  else do
    let body ← store body 0 1
    let body ← store body 1 f.kind
    let body ← put body 2 f.session 8
    let body ← put body 10 f.request.toUInt64 4
    let body ← copy body 14 f.data 0 f.size
    let size := 14 + f.size
    let crc ← muxCrc32 body size
    let body ← put body size crc.toUInt64 4
    let size := size + 4
    let wire ← store wire 0 0x7e
    let (out, wire) ← (List.range size).foldlM (escapeInto body) (1, wire)
    let wire ← store wire out 0x7e
    return (out + 1, wire)

/-- `&&`: the right operand is evaluated only where the left one holds. -/
def andThen (a b : Option Bool) : Option Bool := a.bind fun x => if x then b else some false

/-- The test that a delimiter completes a frame. -/
def complete (d : MuxDecoder) : Option Bool :=
  andThen (some (!d.overflow && !d.escaped && d.size ≥ 18)) <|
  andThen ((load d.data 0).map (· == 1)) <|
  andThen ((load d.data 1).map fun kind => kind ≥ 1 && kind ≤ 7) <|
  andThen ((get d.data 2 8).map (· != 0)) <| do
    let crc ← muxCrc32 d.data (d.size - 4)
    let expected ← get d.data (d.size - 4) 4
    return crc.toUInt64 == expected

def readFrame (d : MuxDecoder) (f : MuxFrame) : Option MuxFrame := do
  let kind ← load d.data 1
  let session ← get d.data 2 8
  let request ← get d.data 10 4
  let size := d.size - 18
  let data ← copy f.data 0 d.data 14 size
  return { kind, session, request := request.toUInt32, size, data }

/-- 1 is a complete frame, 2 a raw byte, 0 incomplete and -1 corrupt. -/
def muxFeed (d : MuxDecoder) (b : UInt8) (f : MuxFrame) : Option (ℤ × MuxDecoder × MuxFrame) :=
  if b = 0x7e then do
    let restarted := { d with inside := true, size := 0, escaped := false, overflow := false }
    if d.inside && (d.size != 0 || d.overflow || d.escaped) then
      if ← complete d then
        let f ← readFrame d f
        return (1, restarted, f)
      else return (-1, restarted, f)
    else return (0, restarted, f)
  else if !d.inside || (d.size == 0 && !d.escaped && !d.overflow && b != 1) then
    some (2, { d with inside := false }, f)
  else if d.overflow then some (0, d, f)
  else if !d.escaped && b == 0x7d then some (0, { d with escaped := true }, f)
  else
    let b := if d.escaped then b ^^^ 0x20 else b
    let d := { d with escaped := false }
    if d.size = muxMaxBody then some (0, { d with overflow := true, size := 0 }, f)
    else do
      let data ← store d.data d.size b
      return (0, { d with data, size := d.size + 1 }, f)

end IdfRemote.MuxCodec
