import IdfRemote.Store

/-!
# Lines of device output

The decoder cuts received bytes into lines. A line that grows too long is cut into
fragments. How a line becomes text and how the header of a log line is found is up
to the text libraries, whose answers are arguments here, and so is the host time
of a record.
-/
namespace IdfRemote

def maxLineBytes : ℕ := 16 * 1024

structure LogHeader where
  level : String
  espTimeMs : Option ℕ
  tag : String

/-- What the decoder asks of the text libraries. -/
structure LogText where
  clean : List UInt8 → String
  captures : String → Option LogHeader

structure LogRecord where
  seq : ℕ
  hostTimeMs : ℕ
  text : String
  fragment : Bool
  level : Option String
  tag : Option String
  espTimeMs : Option ℕ

/-- The document of a record; what its header does not tell is not written. -/
def LogRecord.toValue (r : LogRecord) : Value :=
  .object ([("seq", natValue r.seq), ("host_time_ms", natValue r.hostTimeMs),
    ("text", .string r.text), ("fragment", .bool r.fragment)] ++
    (r.level.toList.map fun level => ("level", .string level)) ++
    (r.tag.toList.map fun tag => ("tag", .string tag)) ++
    r.espTimeMs.toList.map fun time => ("esp_time_ms", natValue time))

structure LineDecoder where
  pending : List UInt8 := []
  seq : ℕ := 0

namespace LineDecoder

/-- The pending bytes become a record. -/
def finish (t : LogText) (hostTime : ℕ → ℕ) (d : LineDecoder) (fragment : Bool) :
    LineDecoder × LogRecord :=
  let text := t.clean d.pending
  let header := t.captures text
  ({ pending := [], seq := d.seq + 1 },
    { seq := d.seq + 1
      hostTimeMs := hostTime (d.seq + 1)
      text := text
      fragment := fragment
      level := header.map (·.level)
      tag := header.map (·.tag)
      espTimeMs := header.bind (·.espTimeMs) })

def feed (t : LogText) (hostTime : ℕ → ℕ) (d : LineDecoder) :
    List UInt8 → LineDecoder × List LogRecord
  | [] => (d, [])
  | byte :: bytes =>
      if byte = 0x0a then
        let (d, record) := d.finish t hostTime false
        let (d, records) := feed t hostTime d bytes
        (d, record :: records)
      else
        let d := { d with pending := d.pending ++ [byte] }
        if d.pending.length = maxLineBytes then
          let (d, record) := d.finish t hostTime true
          let (d, records) := feed t hostTime d bytes
          (d, record :: records)
        else feed t hostTime d bytes

def pendingText (t : LogText) (d : LineDecoder) : String := t.clean d.pending

end LineDecoder
end IdfRemote
