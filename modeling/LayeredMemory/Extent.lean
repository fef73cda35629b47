import LayeredMemory.Word

/-!
# Extents — spans of addresses

An extent is where a component may work: so many bytes from a first address on. It holds no bytes
itself; whoever hands an extent over leaves those bytes alone for as long as the component uses
them.
-/

namespace LayeredMemory

/-- The `len` bytes from `start` on. -/
structure Extent where
  start : Nat
  len : Nat
  deriving DecidableEq, Repr

namespace Extent

/-- The first address after the extent. -/
def stop (e : Extent) : Checked Nat :=
  Word.add e.start e.len

/-- There is no byte. -/
def isEmpty (e : Extent) : Bool :=
  e.len == 0

/-- The address is one of the extent's. Only addresses from `start` on look at the end. -/
def contains (e : Extent) (a : Nat) : Checked Bool :=
  if e.start ≤ a then do
    let stop ← e.stop
    return decide (a < stop)
  else return false

/-- The address is one of the extent's, for an extent whose end is a word. -/
def covers (e : Extent) (a : Nat) : Bool :=
  decide (e.start ≤ a ∧ a < e.start + e.len)

end Extent

end LayeredMemory
