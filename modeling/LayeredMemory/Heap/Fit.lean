import LayeredMemory.Heap.Walk

/-!
# Heaps — the search for a free block

The search is *next fit*. It starts at the cursor, goes to the end of the cursor's segment, goes on
through the other segments in the order of their registration, round to the cursor's segment, and
ends where it started. It takes the first free block that is large enough.

Unlike a walk, the search believes every header. On damaged memory it may leave its segment, or go
back: a header as large as the address space is a step backward. So it may also go round for ever,
which is not the same as finding nothing (`Search`).
-/

namespace LayeredMemory.Heap

variable {γ : Type}

/-- How a search comes out: it ends, with a block or without one, or it never does. -/
inductive Search where
  | ended (found : Option Nat)
  | endless
  deriving DecidableEq, Repr

namespace Search

/-- The block that a search has found. -/
def found? : Search → Option Nat
  | ended found => found
  | endless => none

/-- Searches on where the first search ended without a block. -/
def orElse : Search → (Unit → Search) → Search
  | ended none, next => next ()
  | s, _ => s

end Search

/-- How many addresses a block can have: one in every granule. -/
def maxBlocks : Nat :=
  Word.bound / granule

/-- The address of the block that follows the one at `addr`. -/
def nextBlock (m : Memory) (addr : Nat) : Nat :=
  Word.after addr (blockAt m addr).size

/-- The first free block of at least `need` bytes from `addr` on, before `stop` and before the
epilogue. The scan is over when it has passed `room` blocks, or at a free block of size zero, which
is followed by itself. -/
def scan (m : Memory) (need : Nat) (stop : Option Nat) : (room addr : Nat) → Search
  | 0, _ => .endless
  | room + 1, addr =>
    if stop = some addr ∨ Tag.isEpilogue (m.readWord addr) = true then .ended none
    else if (blockAt m addr).allocated = false ∧ need ≤ (blockAt m addr).size then
      .ended (some addr)
    else if (blockAt m addr).size = 0 then .endless
    else scan m need stop room (nextBlock m addr)

/-- Scans segments one after the other, each from its first block on. -/
def scanEach (m : Memory) (need room : Nat) : List Segment → Search
  | [] => .ended none
  | s :: rest =>
    (scan m need none room s.first).orElse fun _ => scanEach m need room rest

/-- Where a search starts: the number of a segment, and an address in it. -/
def searchStart (h : Heap γ) : Option (Nat × Nat) :=
  match h.segments with
  | [] => none
  | s :: _ =>
    match h.cursor with
    | none => some (0, s.first)
    | some c =>
      match h.segments.findIdx? (·.spans c) with
      | none => some (0, s.first)
      | some i => some (i, c)

/-- The search for a free block of at least `need` bytes, with scans of `room` blocks. -/
def searchWithin (room : Nat) (h : Heap γ) (m : Memory) (need : Nat) : Search :=
  match h.searchStart with
  | none => .ended none
  | some (i, start) =>
    match h.segments[i]? with
    | none => .ended none
    | some home =>
      let others := h.segments.drop (i + 1) ++ h.segments.take i
      (scan m need none room start).orElse fun _ =>
        (scanEach m need room others).orElse fun _ => scan m need (some start) room home.first

/-- The search for a free block of at least `need` bytes. Steps are whole granules, so a scan that
has passed `maxBlocks` blocks is back at one of them, and goes on like that. -/
def search (h : Heap γ) (m : Memory) (need : Nat) : Search :=
  h.searchWithin maxBlocks m need

/-- The first free block of at least `need` bytes in the order of the search. -/
def findFit (h : Heap γ) (m : Memory) (need : Nat) : Option Nat :=
  (h.search m need).found?

end LayeredMemory.Heap
