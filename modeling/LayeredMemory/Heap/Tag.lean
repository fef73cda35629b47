import LayeredMemory.Action
import LayeredMemory.Align

/-!
# Boundary tags — the words around a block

A heap cuts its segments into blocks without gaps. A block starts with a *header*, a word that
holds its size and two flags: whether the block is allocated, and whether the block before it is.
Sizes are multiples of `granule`, which leaves the low bits of a header to the flags. A free block
repeats its size in its last word, the *footer*, so that the block after it finds its start. A
header of size zero that is allocated is the *epilogue*: it ends a segment.

`blockSizeFor` is the size of the block that serves a request.
-/

namespace LayeredMemory

/-- The unit of block sizes and the alignment of payloads. -/
def granule : Nat := 2 * Word.bytes

/-- The smallest block: a header and room for a footer. -/
def minBlock : Nat := granule

/-- The size of the block that serves `n` bytes, if a block can be that large. -/
def blockSizeFor (n : Nat) : Option Nat := do
  let withHeader ← Word.add? n Word.bytes
  let rounded ← Align.ceil? withHeader granule
  if Word.signedMax < rounded then none else some (max rounded minBlock)

namespace Tag

/-- The header of a block. -/
def make (size : Nat) (allocated prevAllocated : Bool) : Nat :=
  size + allocated.toNat + 2 * prevAllocated.toNat

/-- The size in a header. -/
def size (tag : Nat) : Nat :=
  tag / granule * granule

/-- The block is allocated. -/
def isAllocated (tag : Nat) : Bool :=
  tag % 2 == 1

/-- The block before it is allocated. -/
def isPrevAllocated (tag : Nat) : Bool :=
  tag / 2 % 2 == 1

/-- The header ends a segment. -/
def isEpilogue (tag : Nat) : Bool :=
  size tag == 0 && isAllocated tag

/-- The header with the second flag set as told and every other bit as it was. -/
def withPrev (tag : Nat) (prevAllocated : Bool) : Nat :=
  tag - 2 * (isPrevAllocated tag).toNat + 2 * prevAllocated.toNat

/-- Writes the header and the footer of a free block. -/
def writeFree {σ : Type} (addr size : Nat) (prevAllocated : Bool) : Action σ Unit := do
  Action.writeWord addr (make size false prevAllocated)
  let toFooter ← Word.sub size Word.bytes
  Action.writeWord (Word.after addr toFooter) size

/-- Changes the second flag of the header at `addr`. -/
def setPrev {σ : Type} (addr : Nat) (prevAllocated : Bool) : Action σ Unit :=
  Action.modifyMemory fun m => m.writeWord addr (withPrev (m.readWord addr) prevAllocated)

end Tag

end LayeredMemory
