import LayeredMemory.Layer.Basic

/-!
# Borrowed allocators

An allocator that is lent out is reached through a reference, and one that was moved to a box
through the box. Either is an allocator too, and it changes nothing.
-/

namespace LayeredMemory

/-- An allocator reached through a reference or a box. -/
structure Borrowed (α : Type) where
  inner : α

namespace Borrowed

variable {α : Type}

/-- Runs an action on the allocator behind the reference. -/
def below {β : Type} (x : Action α β) : Action (Borrowed α) β :=
  Action.within (fun b => b.inner) (fun a _ => ⟨a⟩) x

instance [Allocator α] : Allocator (Borrowed α) where
  acquire layout := below (Allocator.acquire layout)
  canResize b := Allocator.canResize b.inner
  resize ptr old new := below (Allocator.resize ptr old new)
  canRelease b := Allocator.canRelease b.inner
  release ptr layout := below (Allocator.release ptr layout)

end Borrowed

end LayeredMemory
