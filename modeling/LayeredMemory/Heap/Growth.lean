import LayeredMemory.Heap.Tag
import LayeredMemory.Layer.Basic

/-!
# Growth — where a heap gets more room

When no free block fits a request, a heap asks its growth source for one more extent, of at least
so many bytes. A source that has none is a heap that does not grow.

* **`NoGrowth`** never has one.
* **`Scripted`** answers from a list that was written beforehand, and keeps what it was asked.
* **`Chunked`** acquires chunks from an allocator, remembers them, and gives all of them back when
  the heap ends.
-/

namespace LayeredMemory

/-- A source of extents. -/
class GrowthSource (γ : Type) where
  /-- An extent of at least so many bytes, if there is one. -/
  request : Nat → Action γ (Option Extent)

/-- The source that has nothing. -/
structure NoGrowth where
  deriving DecidableEq, Repr

instance : GrowthSource NoGrowth where
  request _ := return none

/-- A source that answers as written. -/
structure Scripted where
  /-- The answers to come. -/
  answers : List (Option Extent)
  /-- The lengths asked for so far, the latest first. -/
  asked : List Nat := []

instance : GrowthSource Scripted where
  request minLen := do
    let s ← Action.part
    Action.modifyPart fun s => { s with answers := s.answers.tail, asked := minLen :: s.asked }
    return s.answers.head?.join

/-- A chunk that was acquired: where it starts and its layout. -/
structure Chunk where
  ptr : Nat
  layout : Layout

/-- A source that acquires chunks of an allocator. -/
structure Chunked (α : Type) where
  allocator : α
  /-- The least length of a chunk. -/
  chunk : Nat
  /-- The chunks so far, in the order in which they were acquired. -/
  acquired : List Chunk := []

namespace Chunked

variable {α : Type}

/-- A source of chunks of at least `chunk` bytes, and at least a granule. -/
def new (allocator : α) (chunk : Nat) : Chunked α :=
  { allocator, chunk := max chunk granule }

/-- How many chunks were acquired. -/
def chunks (g : Chunked α) : Nat :=
  g.acquired.length

/-- The text of a source of chunks. -/
def describe (g : Chunked α) : String :=
  s!"AllocatorGrowth \x7b chunk: {g.chunk}, chunks: {g.chunks}, .. \x7d"

/-- The layout of a chunk of at least `minLen` bytes, if there is one. -/
def chunkLayout? (g : Chunked α) (minLen : Nat) : Option Layout := do
  let len ← Align.ceil? (max minLen g.chunk) granule
  Layout.of? len granule

/-- Runs an action on the allocator below. -/
def below {β : Type} (x : Action α β) : Action (Chunked α) β :=
  Action.within (fun g => g.allocator) (fun a g => { g with allocator := a }) x

variable [Allocator α]

instance : GrowthSource (Chunked α) where
  request minLen := do
    let g ← Action.part
    match g.chunkLayout? minLen with
    | none => return none
    | some layout =>
      match ← Action.attempt (below (Allocator.acquire layout)) with
      | .error _ => return none
      | .ok block =>
        Action.modifyPart fun g => { g with acquired := g.acquired ++ [⟨block.ptr, layout⟩] }
        return some block.extent

/-- Releases chunks one after the other. -/
def releaseAll : List Chunk → Action (Chunked α) Unit
  | [] => return ()
  | c :: cs => do
    below (Allocator.release c.ptr c.layout)
    releaseAll cs

/-- Ends the source: gives back every chunk, the first one first, if the allocator takes any. -/
def close : Action (Chunked α) Unit := do
  let g ← Action.part
  if Allocator.canRelease g.allocator then
    releaseAll g.acquired

end Chunked

end LayeredMemory
