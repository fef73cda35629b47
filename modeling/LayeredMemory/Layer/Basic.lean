import LayeredMemory.Action
import LayeredMemory.Extent
import LayeredMemory.Layout

/-!
# Allocators — the interface of every layer

Every layer of the library draws memory from the layer below through one interface and offers the
same interface to the layer above. `acquire` is what an allocator must do. `resize` and `release`
are capabilities: an allocator without them refuses to resize and releases by doing nothing, and
says so through `canResize` and `canRelease`.

The contract between two layers: a block that was acquired is aligned as its layout asks, at least
as long, and overlaps no other block of the allocator; and a block is resized or released only with
the layout it was acquired with.
-/

namespace LayeredMemory

/-- A block of memory: `len` bytes from `ptr` on. -/
structure Block where
  ptr : Nat
  len : Nat
  deriving DecidableEq, Repr

/-- The bytes of a block. -/
def Block.extent (b : Block) : Extent :=
  ⟨b.ptr, b.len⟩

/-- A source of blocks. -/
class Allocator (α : Type) where
  /-- Hands out a block. -/
  acquire : Layout → Action α Block
  /-- Blocks can be resized. -/
  canResize : α → Bool := fun _ => false
  /-- Changes the layout of a block, from the first layout to the second; the block may move. -/
  resize : Nat → Layout → Layout → Action α Block :=
    fun _ _ _ => Action.fault (.unsupported "resize")
  /-- Blocks can be given back. -/
  canRelease : α → Bool := fun _ => false
  /-- Takes a block back. -/
  release : Nat → Layout → Action α Unit :=
    fun _ _ => pure ()

end LayeredMemory
