import LayeredMemory.Pattern

/-!
# Heap configurations

How much a heap checks and marks. Verified frees walk the heap before they believe a pointer.
-/

namespace LayeredMemory

/-- The parameters of a heap. -/
structure HeapConfig where
  /-- Check every pointer that comes back. -/
  verifyFrees : Bool := true
  /-- What fills a payload handed out. -/
  allocPattern : Pattern := Pattern.fresh
  /-- What fills a payload taken back. -/
  deallocPattern : Pattern := Pattern.stale
  deriving DecidableEq

namespace HeapConfig

/-- Checks and patterns on: the default. -/
def debug : HeapConfig := {}

/-- Checks and patterns off. -/
def production : HeapConfig :=
  { verifyFrees := false, allocPattern := none, deallocPattern := none }

/-- The text of a configuration. -/
def describe (c : HeapConfig) : String :=
  s!"DynMemConfig \x7b verify_frees: {c.verifyFrees}, alloc_pattern: {c.allocPattern.text}, " ++
    s!"dealloc_pattern: {c.deallocPattern.text} \x7d"

end HeapConfig

end LayeredMemory
