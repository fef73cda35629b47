import LayeredMemory.Slab.Basic

/-!
# Slabs — taking and returning slots

`Slab.alloc` takes the first slot of the free list and `Slab.free` puts a slot in front of it, so
that the slot returned last is the next to be taken. `Slab.free` checks its argument: an address
that is no slot, or a slot that is free already, stops the call before anything is written.

`Slab.validate` follows the free list and compares it with the bookkeeping, on any memory.
-/

namespace LayeredMemory.Slab

/-- Takes a slot. -/
def alloc : Action Slab Nat := do
  let s ← Action.part
  if s.freeHead = 0 then Action.fault (.exhausted "pool" s.capacity)
  else
    let m ← Action.memory
    Action.modifyPart fun t =>
      { t with freeHead := m.readWord s.freeHead, allocated := s.allocated + 1 }
    return s.freeHead

/-- Returns a slot. -/
def free (a : Nat) : Action Slab Unit := do
  let s ← Action.part
  let m ← Action.memory
  if s.owns a = false then Action.stop (.foreignSlot a)
  else if s.isFree m a = true then Action.stop (.doubleFree a)
  else
    Action.writeWord a s.freeHead
    Action.modifyPart fun t => { t with freeHead := a }
    let left ← Word.sub s.allocated 1
    Action.modifyPart fun t => { t with allocated := left }

/-- Counts nodes from `count` on, if they are different slots; bit `i` of `seen` is set if slot `i`
was met before. -/
def inspect (s : Slab) : (count seen : Nat) → List Nat → Except Fault Nat
  | count, _, [] => .ok count
  | count, seen, node :: rest =>
    match s.slotIndex node with
    | none => .error (.corruptHeap "pool" node "free-list entry is not a slot of this pool")
    | some i =>
      if seen.testBit i then
        .error (.corruptHeap "pool" node s!"slot {i} appears twice on the free list")
      else s.inspect (count + 1) (seen ||| 1 <<< i) rest

/-- The free list runs through different slots, as many as the bookkeeping says. -/
def validate (s : Slab) (m : Memory) : Checked Unit := do
  let count ← Checked.ofExcept (s.inspect 0 0 (s.freeChain m))
  let expected ← s.freeSlots
  if count = expected then return ()
  else
    Checked.fault (.corruptHeap "pool" s.first
      s!"free list holds {count} slots, bookkeeping says {expected}")

end LayeredMemory.Slab
