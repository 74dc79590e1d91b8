import IdfRemote.Firmware

/-!
# Console output in chunks

`console_write` translates newlines while it fills a chunk, and hands the chunk on
when it has 192 bytes. A newline may become two bytes, so a chunk may have one more,
for which its array has room. The function is given here as its loop; the turns of a
task that calls it hand on the same chunks.
-/
namespace IdfRemote.Firmware
open CArray

/-- The bytes of a chunk that are in use. -/
def ConsoleChunk.bytes (chunk : ConsoleChunk) : List UInt8 := chunk.data.toList.take chunk.size

/-- A buffer with its newlines as the configuration wants them. -/
def LineEnding.translated : LineEnding → List UInt8 → List UInt8
  | .crlf, bytes => bytes.flatMap fun b => if b = 0x0a then [0x0d, 0x0a] else [b]
  | .cr, bytes => bytes.map fun b => if b = 0x0a then 0x0d else b
  | .lf, bytes => bytes

/-- The loop of `console_write` with its frame, and the chunks it passes to `enqueue_console`. -/
def consoleWriteLoop (ending : LineEnding) (frame : ConsoleChunk) :
    List UInt8 → Option (List ConsoleChunk)
  | [] => some (if 0 < frame.size then [frame] else [])
  | byte :: bytes => do
      let frame ← frame.translate ending byte
      if 192 ≤ frame.size then
        let chunks ← consoleWriteLoop ending { frame with size := 0 } bytes
        return frame :: chunks
      else consoleWriteLoop ending frame bytes

def consoleWrite (ending : LineEnding) (data : List UInt8) : Option (List ConsoleChunk) :=
  consoleWriteLoop ending .zeroed data

/-- The chunk holds these bytes. -/
structure Holding (chunk : ConsoleChunk) (xs : List UInt8) : Prop where
  size : chunk.size = xs.length
  data : Holds chunk.data xs

theorem Holding.bytes {chunk : ConsoleChunk} {xs : List UInt8} (h : Holding chunk xs) :
    chunk.bytes = xs := by
  rw [ConsoleChunk.bytes, h.size, h.data.take]

theorem holding_empty (chunk : ConsoleChunk) : Holding { chunk with size := 0 } [] :=
  ⟨rfl, holds_nil _⟩

theorem holding_bytes {chunk : ConsoleChunk} (h : chunk.size ≤ chunkCapacity) :
    Holding chunk chunk.bytes where
  size := by
    rw [ConsoleChunk.bytes, List.length_take, Vector.length_toList, Nat.min_eq_left h]
  data := List.take_prefix _ _

theorem Holding.push {chunk : ConsoleChunk} {xs : List UInt8} (h : Holding chunk xs)
    (hroom : xs.length < chunkCapacity) (b : UInt8) :
    ∃ chunk', chunk.push b = some chunk' ∧ Holding chunk' (xs ++ [b]) := by
  obtain ⟨data, hstore, hdata⟩ := h.data.store hroom b
  refine ⟨{ size := chunk.size + 1, data := data }, ?_, ?_, hdata⟩
  · rw [ConsoleChunk.push, h.size, hstore]
    rfl
  · rw [h.size, List.length_append, List.length_singleton]

theorem translated_append (ending : LineEnding) (xs ys : List UInt8) :
    ending.translated (xs ++ ys) = ending.translated xs ++ ending.translated ys := by
  cases ending with
  | crlf => exact List.flatMap_append
  | cr => exact List.map_append
  | lf => rfl

theorem translated_single (ending : LineEnding) (b : UInt8) :
    1 ≤ (ending.translated [b]).length ∧ (ending.translated [b]).length ≤ 2 := by
  cases ending with
  | crlf => by_cases hb : b = 0x0a <;> simp [LineEnding.translated, hb]
  | cr => simp [LineEnding.translated]
  | lf => simp [LineEnding.translated]

/-- Two bytes at most, so a chunk below 192 has room for them. -/
theorem Holding.translate {chunk : ConsoleChunk} {xs : List UInt8} (h : Holding chunk xs)
    (hroom : xs.length < 192) (ending : LineEnding) (b : UInt8) :
    ∃ chunk', chunk.translate ending b = some chunk' ∧
      Holding chunk' (xs ++ ending.translated [b]) := by
  have hcapacity : xs.length < chunkCapacity := Nat.lt_trans hroom (by decide)
  unfold ConsoleChunk.translate
  cases ending with
  | crlf =>
      by_cases hb : b = 0x0a
      · obtain ⟨chunk₁, hpush₁, hholding₁⟩ := h.push hcapacity 0x0d
        obtain ⟨chunk₂, hpush₂, hholding₂⟩ := hholding₁.push (by simp [chunkCapacity]; omega) b
        refine ⟨chunk₂, ?_, ?_⟩
        · simp only [if_pos hb, hpush₁, Option.bind_some, hpush₂]
        · simpa [LineEnding.translated, hb] using hholding₂
      · obtain ⟨chunk', hpush, hholding⟩ := h.push hcapacity b
        exact ⟨chunk', by simp only [if_neg hb, hpush],
          by simpa [LineEnding.translated, hb] using hholding⟩
  | cr => exact h.push hcapacity _
  | lf => exact h.push hcapacity b

theorem translate_size (ending : LineEnding) {chunk : ConsoleChunk} (h : chunk.size < 192)
    (b : UInt8) : ∃ chunk', chunk.translate ending b = some chunk' ∧
      chunk'.size ≤ chunkCapacity := by
  have hholding := holding_bytes (show chunk.size ≤ chunkCapacity from
    Nat.le_trans (Nat.le_of_lt h) (by decide))
  have hlength := hholding.size
  obtain ⟨chunk', htranslate, hnext⟩ := hholding.translate (by omega) ending b
  refine ⟨chunk', htranslate, ?_⟩
  have htwo := (translated_single ending b).2
  rw [hnext.size, List.length_append]
  simp only [chunkCapacity]
  omega

/-- From a chunk with room, the loop passes on what the chunk holds and the rest of the buffer. -/
theorem consoleWriteLoop_spec (ending : LineEnding) {frame : ConsoleChunk} {xs : List UInt8}
    (h : Holding frame xs) (hroom : xs.length < 192) (data : List UInt8) :
    ∃ chunks, consoleWriteLoop ending frame data = some chunks ∧
      chunks.flatMap ConsoleChunk.bytes = xs ++ ending.translated data ∧
      ∀ chunk ∈ chunks, 1 ≤ chunk.size ∧ chunk.size ≤ chunkCapacity := by
  induction data generalizing frame xs with
  | nil =>
      have hnil : ending.translated [] = [] := by cases ending <;> rfl
      refine ⟨_, rfl, ?_, ?_⟩
      · rw [h.size, hnil, List.append_nil]
        split_ifs with hpos
        · rw [List.flatMap_singleton, h.bytes]
        · exact (List.eq_nil_of_length_eq_zero (Nat.eq_zero_of_not_pos hpos)).symm
      · intro chunk hchunk
        split_ifs at hchunk with hpos
        · rw [List.mem_singleton.mp hchunk]
          have hsize := h.size
          simp only [chunkCapacity]
          omega
        · exact absurd hchunk List.not_mem_nil
  | cons byte data ih =>
      obtain ⟨frame', htranslate, hholding⟩ := h.translate hroom ending byte
      have hone := translated_single ending byte
      have hlength := hholding.size
      rw [List.length_append] at hlength
      have hsplit : ending.translated (byte :: data) =
          ending.translated [byte] ++ ending.translated data :=
        translated_append ending [byte] data
      rw [consoleWriteLoop, htranslate, hsplit, ← List.append_assoc]
      simp only [Option.bind_eq_bind, Option.bind_some]
      by_cases hfull : 192 ≤ frame'.size
      · obtain ⟨chunks, hloop, hflat, hsizes⟩ := ih (holding_empty frame') (by decide)
        rw [if_pos hfull, hloop]
        refine ⟨frame' :: chunks, rfl, ?_, ?_⟩
        · rw [List.flatMap_cons, hflat, hholding.bytes, List.nil_append]
        · intro chunk hchunk
          rcases List.mem_cons.mp hchunk with rfl | hchunk
          · simp only [chunkCapacity]
            omega
          · exact hsizes chunk hchunk
      · rw [if_neg hfull]
        exact ih hholding (by rw [List.length_append]; omega)

/-- For each line ending and each buffer, the chunks are the translated buffer in pieces of 1 to
193 bytes, and no byte is stored outside of a chunk. -/
theorem console_chunks (ending : LineEnding) (data : List UInt8) :
    ∃ chunks, consoleWrite ending data = some chunks ∧
      chunks.flatMap ConsoleChunk.bytes = ending.translated data ∧
      ∀ chunk ∈ chunks, 1 ≤ chunk.size ∧ chunk.size ≤ 193 ∧
        chunk.bytes.length = chunk.size := by
  obtain ⟨chunks, hloop, hflat, hsizes⟩ :=
    consoleWriteLoop_spec ending (holding_empty .zeroed) (by decide) data
  refine ⟨chunks, hloop, hflat, fun chunk hchunk => ?_⟩
  have hsize := hsizes chunk hchunk
  exact ⟨hsize.1, hsize.2, (holding_bytes hsize.2).size.symm⟩

namespace Writer

/-- The chunks that the call is still to pass on. -/
def rest (config : Config) (t : Writer) : Option (List ConsoleChunk) :=
  match t.place with
  | .idle => some []
  | .copy => consoleWriteLoop config.ending t.chunk t.bytes
  | .send =>
      (consoleWriteLoop config.ending { t.chunk with size := 0 } t.bytes).map (t.chunk :: ·)
  | .drop | .give => consoleWriteLoop config.ending { t.chunk with size := 0 } t.bytes
  | .lost => none

/-- The chunk that a turn passes to the queue. -/
def handed (t : Writer) : List ConsoleChunk :=
  match t.place with
  | .send => [t.chunk]
  | _ => []

/-- The turns of a call, with what they find; a new call does not begin. -/
def turns (config : Config) : Writer → List (Inputs × Shared) → Writer × List ConsoleChunk
  | t, [] => (t, [])
  | t, (i, s) :: steps =>
      match t.place with
      | .idle => (t, [])
      | _ =>
          let r := turns config (turn config i s t).own steps
          (r.1, t.handed ++ r.2)

theorem rest_turn (config : Config) (i : Inputs) (s : Shared) {t : Writer}
    (hbusy : t.place ≠ .idle) {chunks : List ConsoleChunk} (h : t.rest config = some chunks) :
    ∃ later, (turn config i s t).own.rest config = some later ∧ chunks = t.handed ++ later := by
  obtain ⟨bytes, chunk, place⟩ := t
  cases place with
  | idle => exact absurd rfl hbusy
  | copy =>
      cases bytes with
      | nil =>
          have hlast : some (if 0 < chunk.size then [chunk] else []) = some chunks := h
          cases hlast
          unfold turn
          dsimp only
          split_ifs with hpos
          · exact ⟨[chunk], by simp [rest, consoleWriteLoop], rfl⟩
          · exact ⟨[], rfl, rfl⟩
      | cons b bytes =>
          have hloop : consoleWriteLoop config.ending chunk (b :: bytes) = some chunks := h
          rw [consoleWriteLoop] at hloop
          obtain ⟨frame, htranslate, hloop⟩ := Option.bind_eq_some_iff.mp hloop
          refine ⟨chunks, ?_, rfl⟩
          unfold turn
          dsimp only
          rw [htranslate]
          dsimp only
          split_ifs at hloop ⊢ with hfull
          · obtain ⟨later, hlater, hchunks⟩ := Option.bind_eq_some_iff.mp hloop
            cases hchunks
            exact Option.map_eq_some_iff.mpr ⟨later, hlater, rfl⟩
          · exact hloop
  | send =>
      obtain ⟨later, hlater, rfl⟩ := Option.map_eq_some_iff.mp h
      refine ⟨later, ?_, rfl⟩
      unfold turn
      dsimp only
      split
      · exact hlater
      · exact hlater
  | drop => exact ⟨chunks, h, rfl⟩
  | give => exact ⟨chunks, h, rfl⟩
  | lost => cases h

theorem rest_turns (config : Config) {t : Writer} {chunks : List ConsoleChunk}
    (h : t.rest config = some chunks) (steps : List (Inputs × Shared))
    (hend : (turns config t steps).1.place = .idle) : chunks = (turns config t steps).2 := by
  induction steps generalizing t chunks with
  | nil =>
      rw [rest, show t.place = .idle from hend] at h
      exact (Option.some.inj h).symm
  | cons step steps ih =>
      obtain ⟨i, s⟩ := step
      by_cases hidle : t.place = .idle
      · rw [rest, hidle] at h
        rw [turns, hidle]
        exact (Option.some.inj h).symm
      · obtain ⟨later, hlater, rfl⟩ := rest_turn config i s hidle h
        have hstep : turns config t ((i, s) :: steps) =
            ((turns config (turn config i s t).own steps).1,
              t.handed ++ (turns config (turn config i s t).own steps).2) := by
          rw [turns]
          split
          · exact absurd ‹t.place = .idle› hidle
          · rfl
        rw [hstep] at hend ⊢
        rw [ih hlater hend]

/-- A call that has come to its end has passed on the chunks of `console_write`, whatever the
other tasks did between its turns. -/
theorem turns_consoleWrite (config : Config) (data : List UInt8) (steps : List (Inputs × Shared))
    (hend : (turns config { bytes := data, place := .copy } steps).1.place = .idle) :
    consoleWrite config.ending data =
      some (turns config { bytes := data, place := .copy } steps).2 := by
  obtain ⟨chunks, hloop, -⟩ :=
    consoleWriteLoop_spec config.ending (holding_empty .zeroed) (by decide) data
  have hrest : rest config { bytes := data, place := .copy } = some chunks := hloop
  rw [← rest_turns config hrest steps hend]
  exact hloop

end Writer
end IdfRemote.Firmware
