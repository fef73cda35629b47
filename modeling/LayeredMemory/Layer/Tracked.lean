import LayeredMemory.Layer.Basic
import LayeredMemory.Pattern

/-!
# Tracked allocators

A tracked allocator passes every call on and keeps books: how many calls of each kind succeeded,
how many failed, and how many bytes are live. It may fill fresh and released blocks with patterns.

* A successful acquire adds its size to the live bytes, a release takes it away, and a successful
  resize accounts for the difference.
* A failure counts as a failure and changes nothing else.
* `peakBytes` is the most that `liveBytes` has been.
-/

namespace LayeredMemory

/-- The books of a tracked allocator. -/
structure AllocStats where
  acquires : Nat := 0
  releases : Nat := 0
  resizes : Nat := 0
  failures : Nat := 0
  liveBytes : Nat := 0
  peakBytes : Nat := 0
  deriving DecidableEq, Repr

namespace AllocStats

/-- Acquires that no release has followed. -/
def outstanding (s : AllocStats) : Nat :=
  s.acquires - s.releases

/-- Some acquire has no release. -/
def hasLeaks (s : AllocStats) : Bool :=
  decide (0 < s.outstanding)

/-- Raises the peak to the live bytes. -/
def settle (s : AllocStats) : AllocStats :=
  { s with peakBytes := max s.peakBytes s.liveBytes }

/-- The books after a successful acquire. -/
def acquired (s : AllocStats) (size : Nat) : Checked AllocStats := do
  let live ← Word.add s.liveBytes size
  return settle { s with acquires := s.acquires + 1, liveBytes := live }

/-- The books after a successful resize. -/
def resized (s : AllocStats) (oldSize newSize : Nat) : Checked AllocStats := do
  let rest ← Word.sub s.liveBytes oldSize
  let live ← Word.add rest newSize
  return settle { s with resizes := s.resizes + 1, liveBytes := live }

/-- The books after a release. -/
def released (s : AllocStats) (size : Nat) : AllocStats :=
  settle { s with releases := s.releases + 1, liveBytes := s.liveBytes - size }

/-- The books after a failure. -/
def failed (s : AllocStats) : AllocStats :=
  settle { s with failures := s.failures + 1 }

/-- Fresh books that keep the live bytes. -/
def reset (s : AllocStats) : AllocStats :=
  { liveBytes := s.liveBytes, peakBytes := s.liveBytes }

end AllocStats

/-- An allocator that keeps books of another. -/
structure Tracked (α : Type) where
  inner : α
  stats : AllocStats := {}
  allocPattern : Pattern := none
  deallocPattern : Pattern := none

namespace Tracked

variable {α : Type}

/-- Runs an action on the allocator below. -/
def below {β : Type} (x : Action α β) : Action (Tracked α) β :=
  Action.within (fun t => t.inner) (fun a t => { t with inner := a }) x

/-- Changes the books. An update that stops leaves them as they were. -/
def update (f : AllocStats → Checked AllocStats) : Action (Tracked α) Unit := do
  let t ← Action.part
  let stats ← f t.stats
  Action.modifyPart fun t => { t with stats := stats }

/-- Starts the books anew. -/
def resetStats (t : Tracked α) : Tracked α :=
  { t with stats := t.stats.reset }

instance [Allocator α] : Allocator (Tracked α) where
  acquire layout := do
    match ← Action.attempt (below (Allocator.acquire layout)) with
    | .ok block =>
      let t ← Action.part
      t.allocPattern.fill block.ptr layout.size
      update fun s => s.acquired layout.size
      return block
    | .error f =>
      update fun s => return s.failed
      Action.fault f
  canResize t := Allocator.canResize t.inner
  resize ptr old new := do
    match ← Action.attempt (below (Allocator.resize ptr old new)) with
    | .ok block =>
      update fun s => s.resized old.size new.size
      return block
    | .error f =>
      update fun s => return s.failed
      Action.fault f
  canRelease t := Allocator.canRelease t.inner
  release ptr layout := do
    let t ← Action.part
    t.deallocPattern.fill ptr layout.size
    below (Allocator.release ptr layout)
    update fun s => return s.released layout.size

end Tracked

end LayeredMemory
