import LayeredMemory.Heap.Config
import LayeredMemory.Heap.Growth

/-!
# Heaps — blocks of any size

A heap serves requests of any size from *segments*: extents that were registered with it. Each
segment is cut without gaps into blocks with boundary tags. Where the blocks are is written in
memory alone; a heap itself holds its segments, in the order in which they were registered, and a
*cursor*, the block at which the next search starts.

This module holds the structure and what can be read off it. `LayeredMemory.Heap.Walk` follows the
blocks of a segment, `LayeredMemory.Heap.Fit` searches for a free one, and
`LayeredMemory.Heap.Exchange` hands blocks out and takes them back.
-/

namespace LayeredMemory

/-- A registered extent. -/
structure Segment where
  extent : Extent
  /-- Address of the first header. -/
  first : Nat
  /-- Bytes in all blocks together, the epilogue left out. -/
  usable : Nat
  deriving DecidableEq, Repr

namespace Segment

/-- Address of the epilogue. -/
def stop (s : Segment) : Nat :=
  s.first + s.usable

/-- The address is that of a block or of the epilogue, or between two. -/
def spans (s : Segment) (a : Nat) : Bool :=
  decide (s.first ≤ a ∧ a ≤ s.stop)

/-- The address lies in a block. -/
def holds (s : Segment) (a : Nat) : Bool :=
  decide (s.first ≤ a ∧ a < s.stop)

/-- The usable bytes of some segments together. -/
def total : List Segment → Nat
  | [] => 0
  | s :: rest => s.usable + total rest

/-- The segment that uses as much of an extent as it can. Headers sit one word below a multiple of
the granule, so that payloads are multiples of it. -/
def of? (e : Extent) : Option Segment := do
  let top ← Word.add? e.start Word.bytes
  let payload ← Align.ceil? top granule
  let first := payload - Word.bytes
  let unused := first - e.start + Word.bytes
  if e.len < unused then none
  else
    let usable := Align.floorMask (e.len - unused) granule
    if usable < minBlock then none else some ⟨e, first, usable⟩

end Segment

/-- A heap that grows from a source. -/
structure Heap (γ : Type) where
  config : HeapConfig := {}
  segments : List Segment := []
  /-- Where the next search starts. -/
  cursor : Option Nat := none
  growth : γ
  /-- How often the heap has grown. -/
  growths : Nat := 0

namespace Heap

variable {γ : Type}

/-- The payload of a block starts after its header. -/
def payload (block : Nat) : Nat :=
  block + Word.bytes

/-- The block of a payload. -/
def ofPayload (ptr : Nat) : Nat :=
  ptr - Word.bytes

/-- The address lies in a block of the heap. -/
def owns (h : Heap γ) (a : Nat) : Bool :=
  h.segments.any (·.holds a)

/-- The bytes that a live block can hold. -/
def usableSize (m : Memory) (ptr : Nat) : Checked Nat :=
  Word.sub (Tag.size (m.readWord (ofPayload ptr))) Word.bytes

/-- The text of a heap. -/
def describe (h : Heap γ) : String :=
  s!"DynMem \x7b config: {h.config.describe}, pools: {h.segments.length}, " ++
    s!"growths: {h.growths}, .. \x7d"

/-- Runs an action on the growth source. -/
def onGrowth {β : Type} (x : Action γ β) : Action (Heap γ) β :=
  Action.within (fun h => h.growth) (fun g h => { h with growth := g }) x

end Heap

end LayeredMemory
