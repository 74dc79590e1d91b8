import IdfRemote.Error
import IdfRemote.LittleEndian
import IdfRemote.StreamMachine

/-!
# The host's serial framing

A frame body is a version byte, the kind, the session nonce, the request number,
the payload and a checksum of all of these. On the wire the body is escaped and
delimited by `0x7e` on both sides. The decoder separates frames from unframed
console output and reports damaged frames. `feed` is the loop of the source, with
its local accumulators; `step` is one byte of it seen as a stream machine, where
unframed output leaves one byte at a time.
-/
namespace IdfRemote.Mux
open LittleEndian StreamMachine

def maxPayload : ℕ := 1024
def maxBody : ℕ := 14 + maxPayload + 4
def hello : UInt8 := 1
def helloAck : UInt8 := 2
def console : UInt8 := 3
def request : UInt8 := 4
def response : UInt8 := 5
def event : UInt8 := 6
def error : UInt8 := 7

structure Frame where
  kind : UInt8
  session : UInt64
  request : UInt32
  payload : List UInt8
deriving DecidableEq, Repr

/-- One of the eight shifts for each byte of the checksum. -/
def crcShift (crc : UInt32) : UInt32 := (crc >>> 1) ^^^ (0xedb88320 &&& (0 - (crc &&& 1)))

def crcByte (crc : UInt32) (byte : UInt8) : UInt32 := crcShift^[8] (crc ^^^ byte.toUInt32)

def crc32 (bytes : List UInt8) : UInt32 := ~~~ bytes.foldl crcByte (~~~ 0)

/-- Delimiters and the escape byte itself never occur inside a body on the wire. -/
def escapeByte (b : UInt8) : List UInt8 :=
  if b = 0x7e ∨ b = 0x7d then [0x7d, b ^^^ 0x20] else [b]

namespace Frame

/-- The checksummed part of the body. -/
def header (f : Frame) : List UInt8 :=
  [1, f.kind] ++ toLeBytes 8 f.session.toNat ++ toLeBytes 4 f.request.toNat ++ f.payload

def body (f : Frame) : List UInt8 := f.header ++ toLeBytes 4 (crc32 f.header).toNat

def wire (f : Frame) : List UInt8 := 0x7e :: f.body.flatMap escapeByte ++ [0x7e]

def encode (f : Frame) : Result (List UInt8) := do
  ensure (f.payload.length ≤ maxPayload) "mux payload exceeds 1024 bytes"
  ensure (hello ≤ f.kind ∧ f.kind ≤ error) "invalid frame kind"
  ensure (f.session ≠ 0) "zero session nonce"
  return f.wire

def decode (body : List UInt8) : Option Frame :=
  if body.length < 18 ∨ body[0]? ≠ some 1 ∨
      ¬ (hello ≤ body.getD 1 0 ∧ body.getD 1 0 ≤ error) then none
  else
    let finish := body.length - 4
    if (crc32 (body.take finish)).toNat ≠ fromLeBytes (body.drop finish) then none
    else
      let session := UInt64.ofNat (fromLeBytes ((body.drop 2).take 8))
      if session ≠ 0 then
        some
          { kind := body.getD 1 0
            session := session
            request := UInt32.ofNat (fromLeBytes ((body.drop 10).take 4))
            payload := (body.take finish).drop 14 }
      else none

end Frame

inductive Decoded
  | frame (f : Frame)
  | raw (data : List UInt8)
  | corrupt
deriving DecidableEq, Repr

structure Decoder where
  inFrame : Bool := false
  escaped : Bool := false
  overflow : Bool := false
  body : List UInt8 := []
deriving DecidableEq, Repr

namespace Decoder

/-- What a delimiter completes: nothing, a frame, or a damaged frame. -/
def finish (d : Decoder) : List Decoded :=
  if d.inFrame then
    if d.overflow || d.escaped then [.corrupt]
    else if d.body ≠ [] then [(Frame.decode d.body).elim .corrupt .frame]
    else []
  else []

/-- A delimiter ends whatever came before it and starts a segment. -/
def restart (d : Decoder) : Decoder :=
  if d.inFrame then { inFrame := true, escaped := false, overflow := false, body := [] }
  else { d with inFrame := true }

/-- A byte outside a frame, or the first byte of a segment that is not a version byte. -/
def unframed (d : Decoder) (b : UInt8) : Bool :=
  !d.inFrame || (d.body.isEmpty && !d.escaped && !d.overflow && b != 1)

def unescape (d : Decoder) (b : UInt8) : Decoder :=
  if d.escaped then { d with body := d.body ++ [b ^^^ 0x20], escaped := false }
  else if b = 0x7d then { d with escaped := true }
  else { d with body := d.body ++ [b] }

/-- The length is tested after the byte has been stored. -/
def limit (d : Decoder) : Decoder :=
  if maxBody < d.body.length then { d with body := [], overflow := true } else d

/-- A byte inside a frame. -/
def push (d : Decoder) (b : UInt8) : Decoder :=
  if d.overflow then d else (d.unescape b).limit

/-- The decoder and the local variables of one call of `feed`. -/
structure Loop where
  decoder : Decoder
  raw : List UInt8 := []
  result : List Decoded := []

def Loop.flush (s : Loop) : List Decoded :=
  if s.raw ≠ [] then s.result ++ [.raw s.raw] else s.result

def Loop.byte (s : Loop) (b : UInt8) : Loop :=
  if b = 0x7e then
    { decoder := s.decoder.restart, raw := [], result := s.flush ++ s.decoder.finish }
  else if s.decoder.unframed b then
    { s with decoder := { s.decoder with inFrame := false }, raw := s.raw ++ [b] }
  else { s with decoder := s.decoder.push b }

def feed (d : Decoder) (bytes : List UInt8) : Decoder × List Decoded :=
  let s := bytes.foldl Loop.byte { decoder := d }
  (s.decoder, s.flush)

/-- Successive calls of `feed` on the reads of one stream. -/
def feedAll : Decoder → List (List UInt8) → Decoder × List Decoded
  | d, [] => (d, [])
  | d, c :: cs =>
      let r := d.feed c
      let t := feedAll r.1 cs
      (t.1, r.2 ++ t.2)

end Decoder
end IdfRemote.Mux
