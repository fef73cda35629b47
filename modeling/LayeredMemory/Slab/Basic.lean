import LayeredMemory.Action
import LayeredMemory.Align
import LayeredMemory.Extent

/-!
# Slabs — equal slots cut from one extent

A slab cuts an extent into `capacity` slots of `stride` bytes each; slot `i` starts at
`first + i * stride`. A slot that is not handed out is on the *free list*, which lives in the slots
themselves: the first word of a free slot is the address of the next one, and zero ends the list.
There is no side table, so a slot is at least one word and starts on a word boundary.

`Slab.init` builds a slab over an extent, lowest slot first on the free list. What the slots and
the free list mean is in `Slab.slotIndex` and `Slab.freeChain`; taking and returning slots is in
`LayeredMemory.Slab.Exchange`.
-/

namespace LayeredMemory

/-- Equal slots over one extent. -/
structure Slab where
  extent : Extent
  /-- Address of slot 0. -/
  first : Nat
  /-- Distance from one slot to the next. -/
  stride : Nat
  capacity : Nat
  allocated : Nat
  /-- Address of the first free slot; zero if there is none. -/
  freeHead : Nat
  deriving DecidableEq, Repr

namespace Slab

/-- The distance between slots that hold `slotSize` bytes: whole words, and at least one. -/
def strideFor (slotSize : Nat) : Checked Nat :=
  Align.up (max slotSize Word.bytes) Word.bytes

/-- How many slots of `slotSize` bytes an extent holds. -/
def maxCapacity (e : Extent) (slotSize : Nat) : Checked Nat :=
  if slotSize = 0 then return 0
  else
    match Align.ceil? e.start Word.bytes with
    | none => return 0
    | some first => do
      let stop ← e.stop
      if stop ≤ first then return 0
      else
        let stride ← strideFor slotSize
        return (stop - first) / stride

/-- The address of slot `i`. -/
def slotAddr (s : Slab) (i : Nat) : Nat :=
  s.first + i * s.stride

/-- The number of the slot that starts at `a`, if one does. -/
def slotIndex (s : Slab) (a : Nat) : Option Nat :=
  if s.first ≤ a ∧ (a - s.first) % s.stride = 0 ∧ (a - s.first) / s.stride < s.capacity then
    some ((a - s.first) / s.stride)
  else none

/-- A slot starts at `a`. -/
def owns (s : Slab) (a : Nat) : Bool :=
  (s.slotIndex a).isSome

/-- At most `n` nodes of the chain of links from `node` on. -/
def chain (m : Memory) (node : Nat) : Nat → List Nat
  | 0 => []
  | n + 1 => if node = 0 then [] else node :: chain m (m.readWord node) n

/-- The free list, cut off after one node more than there are slots: a list that long repeats a
slot or leaves the slab. -/
def freeChain (s : Slab) (m : Memory) : List Nat :=
  chain m s.freeHead (s.capacity + 1)

/-- The free list meets `a`. -/
def isFree (s : Slab) (m : Memory) (a : Nat) : Bool :=
  (s.freeChain m).contains a

/-- Links slots `n - 1` down to `0` in front of `next`; answers with the new front. -/
def thread (first stride : Nat) : (n next : Nat) → Memory → Nat × Memory
  | 0, next, m => (next, m)
  | n + 1, next, m => thread first stride n (first + n * stride) (m.writeWord (first + n * stride) next)

/-- Puts every slot on the free list, lowest first. -/
def reset : Action Slab Unit
  | ⟨s, m⟩ =>
    match thread s.first s.stride s.capacity 0 m with
    | (head, m) => .ok () ⟨{ s with freeHead := head, allocated := 0 }, m⟩

/-- A slab of `capacity` slots for `slotSize` bytes each, all of them free. -/
def init {σ : Type} (e : Extent) (slotSize capacity : Nat) : Action σ Slab := do
  if slotSize = 0 then Action.fault (.invalidArgument "slot_size must be non-zero")
  else if capacity = 0 then Action.fault (.invalidArgument "capacity must be non-zero")
  else
    let fits ← maxCapacity e slotSize
    if fits < capacity then
      Action.fault (.invalidArgument
        s!"{capacity} slots of {slotSize} bytes do not fit in {e.len} bytes (max {fits})")
    else
      let first ← Align.up e.start Word.bytes
      let stride ← strideFor slotSize
      fun ⟨p, m⟩ =>
        match thread first stride capacity 0 m with
        | (head, m) => .ok ⟨e, first, stride, capacity, 0, head⟩ ⟨p, m⟩

/-- How many slots are not handed out. -/
def freeSlots (s : Slab) : Checked Nat :=
  Word.sub s.capacity s.allocated

/-- Every slot is handed out. -/
def isFull (s : Slab) : Bool :=
  s.allocated == s.capacity

/-- No slot is handed out. -/
def isEmpty (s : Slab) : Bool :=
  s.allocated == 0

/-- The text of a slab. -/
def describe (s : Slab) : String :=
  s!"Pool \x7b start: {addressText s.first}, slot_size: {s.stride}, capacity: {s.capacity}, " ++
    s!"allocated: {s.allocated} \x7d"

end Slab

end LayeredMemory
