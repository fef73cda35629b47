import LayeredMemory.Heap.Exchange
import LayeredMemory.Cache.Exchange

/-!
# Heaps and caches as allocators

A heap serves any layout whose alignment is no more than the granule. A cache serves layouts of at
most one object and an alignment of at most a word; its blocks are whole objects, and it does not
resize them. Either way a layout that cannot be served is refused before anything is touched.
-/

namespace LayeredMemory

/-- Refuses layouts for no bytes or with an alignment above `most`. -/
def Layout.validateUpTo (most : Nat) (l : Layout) : Except Fault Unit := do
  l.validate
  if most < l.align then .error (.invalidAlignment l.align most) else .ok ()

instance {γ : Type} [GrowthSource γ] : Allocator (Heap γ) where
  acquire layout := do
    Action.ofExcept (layout.validateUpTo granule)
    let ptr ← Heap.malloc layout.size
    return ⟨ptr, layout.size⟩
  canResize _ := true
  resize ptr _ new := do
    Action.ofExcept (new.validateUpTo granule)
    let moved ← Heap.realloc ptr new.size
    return ⟨moved, new.size⟩
  canRelease _ := true
  release ptr _ := Heap.free ptr

instance {α : Type} [Allocator α] : Allocator (Cache α) where
  acquire layout := do
    Action.ofExcept (layout.validateUpTo Word.bytes)
    let c ← Action.part
    if c.config.objectSize < layout.size then
      Action.fault (.invalidArgument
        s!"request of {layout.size} bytes exceeds cached object size {c.config.objectSize}")
    else
      let ptr ← Cache.alloc
      return ⟨ptr, c.config.objectSize⟩
  canRelease _ := true
  release ptr _ := Cache.free ptr

end LayeredMemory
