import LayeredMemory.Heap.Basic

/-!
# Heaps — walks over blocks

A walk follows the blocks of a segment from its first header to its epilogue. It believes no header
before it has checked it, so on damaged memory it ends with a `Damage` that says where and what, and
never leaves the segment.

* `Heap.blocks` is the list of all blocks.
* `Heap.validate` adds up what the walks meet; the cursor must be one of the blocks or an epilogue.
* `Heap.checkLive` decides whether a pointer is the payload of an allocated block.
-/

namespace LayeredMemory

/-- What is wrong with the tags of a heap. -/
inductive Damage where
  | epilogue (addr : Nat)
  | epiloguePrev (addr : Nat)
  | size (addr size : Nat)
  | prev (addr : Nat)
  | adjacentFree (addr : Nat)
  | footer (addr footer size : Nat)
  | sum (addr total usable : Nat)
  | cursor (addr : Nat)
  deriving DecidableEq, Repr

namespace Damage

/-- Where the damage is. -/
def addr : Damage → Nat
  | epilogue a | epiloguePrev a | size a _ | prev a | adjacentFree a | footer a _ _ | sum a _ _
  | cursor a => a

/-- The text of a damage. -/
def details : Damage → String
  | epilogue _ => "malformed epilogue"
  | epiloguePrev _ => "epilogue PREV_ALLOC does not match last block"
  | size _ n => s!"block size {n} out of bounds"
  | prev _ => "PREV_ALLOC does not match predecessor"
  | adjacentFree _ => "adjacent free blocks"
  | footer _ found n => s!"footer {found} does not match header {n}"
  | sum _ total usable => s!"blocks sum to {total}, pool holds {usable}"
  | cursor _ => "cursor is not at a block boundary"

/-- Damage as a fault. -/
def fault (d : Damage) : Fault :=
  .corruptHeap "dynmem" d.addr d.details

end Damage

/-- A block as a walk meets it. -/
structure BlockInfo where
  addr : Nat
  size : Nat
  allocated : Bool
  deriving DecidableEq, Repr

/-- The bytes of some blocks together. -/
def BlockInfo.total : List BlockInfo → Nat
  | [] => 0
  | b :: bs => b.size + total bs

/-- What a heap reports about itself. -/
structure HeapStats where
  segments : Nat := 0
  totalBytes : Nat := 0
  allocatedBytes : Nat := 0
  freeBytes : Nat := 0
  allocatedBlocks : Nat := 0
  freeBlocks : Nat := 0
  largestFree : Nat := 0
  deriving DecidableEq, Repr

namespace HeapStats

/-- How little of the free bytes the largest free block has, in percent. -/
def fragmentationPercent (s : HeapStats) : Float :=
  if s.freeBytes = 0 then 0.0
  else
    (1.0 - (UInt64.ofNat s.largestFree).toFloat / (UInt64.ofNat s.freeBytes).toFloat) * 100.0

/-- The report with one more block. -/
def count (s : HeapStats) (b : BlockInfo) : HeapStats :=
  if b.allocated then
    { s with allocatedBlocks := s.allocatedBlocks + 1, allocatedBytes := s.allocatedBytes + b.size }
  else
    { s with
      freeBlocks := s.freeBlocks + 1
      freeBytes := s.freeBytes + b.size
      largestFree := max s.largestFree b.size }

end HeapStats

namespace Heap

variable {γ : Type}

/-- Checks the header at `stop`, after a block that is allocated or not. -/
def checkEpilogue (m : Memory) (addr : Nat) (prevAllocated : Bool) : Except Damage Unit :=
  let tag := m.readWord addr
  if Tag.isEpilogue tag = false then .error (.epilogue addr)
  else if Tag.isPrevAllocated tag ≠ prevAllocated then .error (.epiloguePrev addr)
  else .ok ()

/-- Checks the flags of a block, after a block that is allocated or not, and the footer of a free
block. -/
def checkBlock (m : Memory) (addr : Nat) (prevAllocated : Bool) : Except Damage Unit :=
  let tag := m.readWord addr
  let size := Tag.size tag
  let footer := m.readWord (addr + (size - Word.bytes))
  if Tag.isPrevAllocated tag ≠ prevAllocated then .error (.prev addr)
  else if Tag.isAllocated tag = true then .ok ()
  else if prevAllocated = false then .error (.adjacentFree addr)
  else if footer ≠ size then .error (.footer addr footer size)
  else .ok ()

/-- The block whose header is at `addr`. -/
def blockAt (m : Memory) (addr : Nat) : BlockInfo :=
  ⟨addr, Tag.size (m.readWord addr), Tag.isAllocated (m.readWord addr)⟩

/-- The blocks from `addr` to the epilogue at `stop`. -/
def walk (m : Memory) (stop addr : Nat) (prevAllocated : Bool) : Except Damage (List BlockInfo) :=
  if addr = stop then do
    checkEpilogue m addr prevAllocated
    return []
  else if _ : minBlock ≤ (blockAt m addr).size ∧ (blockAt m addr).size ≤ stop - addr then do
    checkBlock m addr prevAllocated
    let rest ← walk m stop (addr + (blockAt m addr).size) (blockAt m addr).allocated
    return blockAt m addr :: rest
  else .error (.size addr (blockAt m addr).size)
termination_by stop - addr
decreasing_by
  have : 0 < minBlock := by decide
  omega

/-- The blocks of a segment. -/
def segmentBlocks (m : Memory) (s : Segment) : Except Damage (List BlockInfo) := do
  let blocks ← walk m s.stop s.first true
  if BlockInfo.total blocks = s.usable then return blocks
  else .error (.sum s.first (BlockInfo.total blocks) s.usable)

/-- The blocks of a list of segments, each segment's apart. -/
def blocksOf (m : Memory) : List Segment → Except Damage (List (List BlockInfo))
  | [] => .ok []
  | s :: rest => do
    let blocks ← segmentBlocks m s
    let others ← blocksOf m rest
    return blocks :: others

/-- The blocks of all segments. -/
def blocks (h : Heap γ) (m : Memory) : Except Damage (List BlockInfo) := do
  let perSegment ← blocksOf m h.segments
  return perSegment.flatten

/-- The cursor, if there is one, is at one of the blocks or at an epilogue. -/
def cursorFound (h : Heap γ) (blocks : List BlockInfo) : Bool :=
  match h.cursor with
  | none => true
  | some c => blocks.any (·.addr == c) || h.segments.any (·.stop == c)

/-- The report of a heap whose tags are in order. -/
def validate (h : Heap γ) (m : Memory) : Except Damage HeapStats := do
  let blocks ← h.blocks m
  if h.cursorFound blocks then
    let start : HeapStats :=
      { segments := h.segments.length, totalBytes := Segment.total h.segments }
    return blocks.foldl HeapStats.count start
  else .error (.cursor (h.cursor.getD 0))

/-- The reason, if any, why a pointer is not the payload of an allocated block. -/
def checkLive (h : Heap γ) (m : Memory) (ptr : Nat) : Except Fault Unit :=
  if Align.isMultiple ptr granule = false then .error (.invalidFree ptr "misaligned pointer")
  else
    match h.segments.find? fun s => s.first < ptr && ptr < s.stop with
    | none => .error (.invalidFree ptr "outside every pool")
    | some s =>
      match segmentBlocks m s with
      | .error d => .error d.fault
      | .ok blocks =>
        match blocks.find? fun b => payload b.addr == ptr with
        | none => .error (.invalidFree ptr "not a block payload")
        | some b =>
          if b.allocated then .ok () else .error (.invalidFree ptr "block is already free")

end Heap

end LayeredMemory
