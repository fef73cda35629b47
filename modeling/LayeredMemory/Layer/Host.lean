import LayeredMemory.Layer.Basic

/-!
# Memory of the host

At the bottom of a hierarchy, memory comes from the host. A `Host` is whatever has a heap of blocks
and maps pages; each of its answers is an address or nothing.

* **`System`** hands out blocks of the host's heap. It leaves a resize to the host, but for one that
  changes the alignment: that is a new block, a copy, and the end of the old block.
* **`Pages`** maps pages, so that blocks may be longer than asked for, and does not resize.

Either refuses a layout for no bytes before it asks the host. What the host does not give is out of
memory.
-/

namespace LayeredMemory

/-- A source of memory from outside. -/
class Host (η : Type) where
  /-- A block of the heap. -/
  alloc : Layout → Action η (Option Nat)
  /-- The block of a layout gets another size, and may move. -/
  realloc : Nat → Layout → Nat → Action η (Option Nat)
  /-- A block goes back to the heap. -/
  dealloc : Nat → Layout → Action η Unit
  /-- A map of so many bytes. -/
  map : Nat → Action η (Option Nat)
  /-- The end of a map of so many bytes. It may fail, which nobody looks at. -/
  unmap : Nat → Nat → Action η Unit

/-- What the host gave for a layout. -/
def Layout.granted {σ : Type} (layout : Layout) : Option Nat → Action σ Nat
  | some addr => pure addr
  | none => Action.fault layout.outOfMemory

/-- The allocator over the heap of the host. -/
structure System (η : Type) where
  host : η

namespace System

variable {η : Type}

/-- Runs an action on the host. -/
def below {β : Type} (x : Action η β) : Action (System η) β :=
  Action.within (fun s => s.host) (fun h _ => ⟨h⟩) x

variable [Host η]

/-- Hands out a block. -/
def acquire (layout : Layout) : Action (System η) Block := do
  Action.ofExcept layout.validate
  let addr ← layout.granted (← below (Host.alloc layout))
  return ⟨addr, layout.size⟩

/-- Moves a block to a new one. -/
def move (ptr : Nat) (old new : Layout) : Action (System η) Block := do
  let block ← acquire new
  Action.modifyMemory fun m => m.copy ptr block.ptr (min old.size new.size)
  below (Host.dealloc ptr old)
  return block

instance : Allocator (System η) where
  acquire := acquire
  canResize _ := true
  resize ptr old new := do
    Action.ofExcept new.validate
    if old.align = new.align then
      let addr ← new.granted (← below (Host.realloc ptr old new.size))
      return ⟨addr, new.size⟩
    else move ptr old new
  canRelease _ := true
  release ptr layout := below (Host.dealloc ptr layout)

end System

/-- The allocator of whole pages. -/
structure Pages (η : Type) where
  host : η
  pageSize : Nat
  powerOfTwo : Align.isPowerOfTwo pageSize = true

namespace Pages

variable {η : Type}

/-- Pages of the size that the host reports, if it is one. -/
def of (host : η) (reported : Int) : Pages η :=
  if size : Align.isPowerOfTwo reported.toNat = true then ⟨host, reported.toNat, size⟩
  else ⟨host, 4096, rfl⟩

/-- Runs an action on the host. -/
def below {β : Type} (x : Action η β) : Action (Pages η) β :=
  Action.within (fun s => s.host) (fun h s => { s with host := h }) x

/-- The bytes of the pages for a layout. -/
def mapLength (s : Pages η) (layout : Layout) : Checked Nat :=
  Align.up layout.size s.pageSize

variable [Host η]

instance : Allocator (Pages η) where
  acquire layout := do
    Action.ofExcept layout.validate
    let s ← Action.part
    if s.pageSize < layout.align then
      Action.fault (.invalidAlignment layout.align s.pageSize)
    else
      let len ← s.mapLength layout
      let addr ← layout.granted (← below (Host.map len))
      -- No block is at the null address, also where the host maps it.
      if addr = 0 then Action.fault layout.outOfMemory else return ⟨addr, len⟩
  canRelease _ := true
  release ptr layout := do
    let s ← Action.part
    let len ← s.mapLength layout
    below (Host.unmap ptr len)

end Pages

end LayeredMemory
