import IdfRemote.SectorLayout

/-!
# NOR flash

Erasing a sector sets all of its bits, and programming only clears bits: data can be read back
where the memory was erased before. Writing a block erases the sectors it touches and programs
it. Blocks without a common sector leave each other alone.
-/
namespace IdfRemote.NorFlash
open Checked SectorLayout

/-- The bytes by their addresses. -/
abbrev Memory := ℕ → UInt8

def erase (start stop : ℕ) (memory : Memory) : Memory := fun a =>
  if start ≤ a ∧ a < stop then 0xff else memory a

def program (offset : ℕ) (data : List UInt8) (memory : Memory) : Memory := fun a =>
  if offset ≤ a then
    match data[a - offset]? with
    | some byte => memory a &&& byte
    | none => memory a
  else memory a

/-- The bytes from `offset` on. -/
def read (memory : Memory) (offset size : ℕ) : List UInt8 :=
  (List.range size).map fun i => memory (offset + i)

/-- Data and the address it is written to. -/
structure Block where
  offset : ℕ
  data : List UInt8

def Block.extent (b : Block) : Extent := ⟨b.offset, b.data.length⟩

variable {sector : ℕ}

def write (sector : ℕ) (b : Block) (memory : Memory) : Memory :=
  program b.offset b.data
    (erase (roundDown sector b.offset) (roundUp sector (b.offset + b.data.length)) memory)

def writeAll (sector : ℕ) (blocks : List Block) (memory : Memory) : Memory :=
  blocks.foldl (fun memory b => write sector b memory) memory

/-- The block is in the memory. -/
def Holds (memory : Memory) (b : Block) : Prop := read memory b.offset b.data.length = b.data

theorem holds_iff {memory : Memory} {b : Block} :
    Holds memory b ↔ ∀ i byte, b.data[i]? = some byte → memory (b.offset + i) = byte := by
  constructor
  · intro h i byte hi
    have hlt := (List.getElem?_eq_some_iff.mp hi).1
    have hread := congrArg (·[i]?) h
    simp only [read, List.getElem?_map, List.getElem?_range hlt, Option.map_some, hi,
      Option.some.injEq] at hread
    exact hread
  · intro h
    apply List.ext_getElem?
    intro i
    by_cases hlt : i < b.data.length
    · rw [read, List.getElem?_map, List.getElem?_range hlt, List.getElem?_eq_getElem hlt,
        Option.map_some, h i _ (List.getElem?_eq_getElem hlt)]
    · rw [List.getElem?_eq_none (by simpa [read] using hlt),
        List.getElem?_eq_none (not_lt.mp hlt)]

theorem Holds.initial {memory : Memory} {offset : ℕ} {data front : List UInt8}
    (h : Holds memory ⟨offset, data⟩) (hfront : front <+: data) : Holds memory ⟨offset, front⟩ := by
  obtain ⟨rest, rfl⟩ := hfront
  refine holds_iff.mpr fun i byte hi => holds_iff.mp h i byte ?_
  exact (List.getElem?_append_left (List.getElem?_eq_some_iff.mp hi).1).trans hi

theorem read_of_holds {memory : Memory} {b : Block} (h : Holds memory b) {start size : ℕ}
    (hsize : start + size ≤ b.data.length) :
    read memory (b.offset + start) size = (b.data.drop start).take size := by
  apply List.ext_getElem?
  intro i
  by_cases hlt : i < size
  · have hin : start + i < b.data.length := by omega
    rw [read, List.getElem?_map, List.getElem?_range hlt, Option.map_some,
      List.getElem?_take_of_lt hlt, List.getElem?_drop, List.getElem?_eq_getElem hin,
      Nat.add_assoc, holds_iff.mp h _ _ (List.getElem?_eq_getElem hin)]
  · rw [List.getElem?_eq_none (by simpa [read] using hlt), List.getElem?_eq_none]
    rw [List.length_take]
    omega

section Write
variable {b : Block} {memory : Memory} {a : ℕ}

theorem write_outside (h : a ∉ b.extent.erased sector) (hs : 0 < sector) :
    write sector b memory a = memory a := by
  have hlow := roundDown_le sector b.offset
  have hhigh := le_roundUp hs (b.offset + b.data.length)
  have hsector : ¬ (roundDown sector b.offset ≤ a ∧
      a < roundUp sector (b.offset + b.data.length)) := h
  unfold write program
  split
  · rw [List.getElem?_eq_none (by omega)]
    exact if_neg hsector
  · exact if_neg hsector

theorem write_holds (hs : 0 < sector) : Holds (write sector b memory) b := by
  rw [holds_iff]
  intro i byte hi
  have hlt := (List.getElem?_eq_some_iff.mp hi).1
  have hlow := roundDown_le sector b.offset
  have hhigh := le_roundUp hs (b.offset + b.data.length)
  unfold write program
  rw [if_pos (Nat.le_add_right _ _), Nat.add_sub_cancel_left, hi]
  change erase _ _ memory (b.offset + i) &&& byte = byte
  rw [erase, if_pos ⟨by omega, by omega⟩]
  exact UInt8.neg_one_and

end Write

section WriteAll
variable {blocks : List Block} {memory : Memory} {a : ℕ}

theorem writeAll_outside (hs : 0 < sector) (h : ∀ b ∈ blocks, a ∉ b.extent.erased sector) :
    writeAll sector blocks memory a = memory a := by
  induction blocks generalizing memory with
  | nil => rfl
  | cons b blocks ih =>
      rw [writeAll, List.foldl_cons]
      exact (ih fun c hc => h c (List.mem_cons_of_mem _ hc)).trans
        (write_outside (h b List.mem_cons_self) hs)

theorem writeAll_inside (hs : 0 < sector) (h : Disjointed sector (blocks.map Block.extent))
    (memory : Memory) {b : Block} (hb : b ∈ blocks) :
    ∃ memory', ∀ a ∈ b.extent.erased sector,
      writeAll sector blocks memory a = write sector b memory' a := by
  induction blocks generalizing memory with
  | nil => cases hb
  | cons c blocks ih =>
      rw [List.map_cons, Disjointed, List.pairwise_cons] at h
      rcases List.mem_cons.mp hb with rfl | hb
      · refine ⟨memory, fun a ha => ?_⟩
        rw [writeAll, List.foldl_cons]
        refine writeAll_outside hs fun c hc hmem => ?_
        exact Set.disjoint_left.mp (h.1 _ (List.mem_map_of_mem hc)) ha hmem
      · exact ih h.2 _ hb

theorem writeAll_holds (hs : 0 < sector) (h : Disjointed sector (blocks.map Block.extent))
    {b : Block} (hb : b ∈ blocks) : Holds (writeAll sector blocks memory) b := by
  obtain ⟨memory', hinside⟩ := writeAll_inside hs h memory hb
  rw [holds_iff]
  intro i byte hi
  have hlt := (List.getElem?_eq_some_iff.mp hi).1
  have hlow := roundDown_le sector b.offset
  have hhigh := le_roundUp hs (b.offset + b.data.length)
  have hmem : b.offset + i ∈ b.extent.erased sector :=
    ⟨show roundDown sector b.offset ≤ _ by omega,
      show _ < roundUp sector (b.offset + b.data.length) by omega⟩
  rw [hinside _ hmem]
  exact holds_iff.mp (write_holds hs) i byte hi

end WriteAll
end IdfRemote.NorFlash
