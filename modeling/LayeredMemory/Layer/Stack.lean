import LayeredMemory.Layer.Borrowed
import LayeredMemory.Layer.Exhaustion
import LayeredMemory.Layer.Hosted
import LayeredMemory.Layer.Tracked

/-!
# Stacks — layers over layers

Every layer is an allocator over an allocator, so layers nest without end. A *stack* is such a
nesting over a base allocator, and its kind is the list of the kinds of its layers, outermost
first. Every stack is an allocator.
-/

namespace LayeredMemory

/-- The kinds of layers. -/
inductive LayerKind where
  /-- A shared reference. -/
  | shared
  /-- An exclusive reference, or a box that owns. -/
  | exclusive
  | tracked
  | signal
  | abort
  /-- A heap that grows by chunks of the layer below. -/
  | heap
  /-- A cache over blocks of the layer below. -/
  | cache
  deriving DecidableEq, Repr

/-- A layer of a kind over an allocator. -/
def Layer (α : Type) : LayerKind → Type
  | .shared | .exclusive => Borrowed α
  | .tracked => Tracked α
  | .signal => Signal α
  | .abort => Abort α
  | .heap => Heap (Chunked α)
  | .cache => Cache α

/-- The allocator that a layer is. -/
instance {α : Type} [Allocator α] : (k : LayerKind) → Allocator (Layer α k)
  | .shared | .exclusive => inferInstanceAs (Allocator (Borrowed α))
  | .tracked => inferInstanceAs (Allocator (Tracked α))
  | .signal => inferInstanceAs (Allocator (Signal α))
  | .abort => inferInstanceAs (Allocator (Abort α))
  | .heap => inferInstanceAs (Allocator (Heap (Chunked α)))
  | .cache => inferInstanceAs (Allocator (Cache α))

namespace Layer

variable {α : Type}

/-- The allocator that a layer draws from. -/
def inner : (k : LayerKind) → Layer α k → α
  | .shared | .exclusive => fun l : Borrowed α => l.inner
  | .tracked => fun l : Tracked α => l.inner
  | .signal => fun l : Signal α => l.inner
  | .abort => fun l : Abort α => l.inner
  | .heap => fun l : Heap (Chunked α) => l.growth.allocator
  | .cache => fun l : Cache α => l.allocator

end Layer

/-- Layers of some kinds over a base, outermost first. -/
def Stack (β : Type) : List LayerKind → Type
  | [] => β
  | k :: ks => Layer (Stack β ks) k

/-- The allocator that a stack is. -/
instance Stack.allocator {β : Type} [Allocator β] : (ks : List LayerKind) → Allocator (Stack β ks)
  | [] => inferInstanceAs (Allocator β)
  | k :: ks =>
    have : Allocator (Stack β ks) := Stack.allocator ks
    inferInstanceAs (Allocator (Layer (Stack β ks) k))

namespace Stack

variable {β : Type}

/-- The base of a stack. -/
def base : (ks : List LayerKind) → Stack β ks → β
  | [], s => s
  | k :: ks, s => base ks (Layer.inner k s)

end Stack

end LayeredMemory
