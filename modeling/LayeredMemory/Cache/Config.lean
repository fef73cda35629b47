import LayeredMemory.Pattern
import LayeredMemory.Slab.Basic

/-!
# Cache configurations

What a cache serves and how much it may hold. The size of a slot follows from the size of an
object: every object sits behind a one-word owner header.
-/

namespace LayeredMemory

/-- The parameters of a cache. -/
structure CacheConfig where
  /-- Bytes in an object. -/
  objectSize : Nat := 64
  /-- Bytes requested for one slab. -/
  pageSize : Nat := 4096
  /-- How many slabs there may be; zero sets no limit. -/
  maxSlabs : Nat := 0
  /-- How many empty slabs are kept. -/
  highWater : Nat := 1
  /-- What fills an object handed out. -/
  allocPattern : Pattern := Pattern.fresh
  /-- What fills an object taken back. -/
  deallocPattern : Pattern := Pattern.stale
  deriving DecidableEq

namespace CacheConfig

/-- Patterns on: the default. -/
def debug : CacheConfig := {}

/-- Patterns off. -/
def production : CacheConfig :=
  { allocPattern := none, deallocPattern := none }

/-- The default for objects of a given size. -/
def forObjects (objectSize : Nat) : CacheConfig :=
  { objectSize := objectSize }

/-- The distance between slots: header and object, in whole words. -/
def slotStride (c : CacheConfig) : Checked Nat :=
  Slab.strideFor (Word.saturatingAdd Word.bytes c.objectSize)

/-- Slots in one slab. -/
def objectsPerSlab (c : CacheConfig) : Checked Nat := do
  let stride ← c.slotStride
  return c.pageSize / stride

/-- Refuses parameters that no cache can work with. -/
def validate (c : CacheConfig) : Checked Unit := do
  if c.objectSize = 0 then
    Checked.fault (.invalidArgument "object_size must be non-zero")
  else if Word.signedMax / 2 < c.objectSize then
    Checked.fault (.invalidArgument "object_size too large")
  else
    let perSlab ← c.objectsPerSlab
    if perSlab = 0 then
      let stride ← c.slotStride
      Checked.fault (.invalidArgument
        s!"page_size {c.pageSize} cannot hold one {stride}-byte slot")
    else return ()

/-- The text of a configuration. -/
def describe (c : CacheConfig) : String :=
  s!"PoolCacheConfig \x7b object_size: {c.objectSize}, page_size: {c.pageSize}, " ++
    s!"max_pools: {c.maxSlabs}, high_water: {c.highWater}, alloc_pattern: {c.allocPattern.text}, " ++
    s!"dealloc_pattern: {c.deallocPattern.text} \x7d"

end CacheConfig

end LayeredMemory
