import LayeredMemory.Layer.Basic

/-!
# Exhaustion policies

Two wrappers decide what it means that there is no room.

* **`Abort`** treats it as fatal. It runs a hook and then stops, so that the caller never sees the
  fault.
* **`Signal`** counts it and answers with one fault for all kinds of exhaustion: out of memory, with
  the layout that was asked for. Together with `Action.recover` it makes a recovery boundary: code
  inside the boundary passes faults on, and the boundary decides what to do instead.

Other faults pass both wrappers unchanged.
-/

namespace LayeredMemory

/-- Runs `body`; where it ends for want of room, `fallback` decides. -/
def Action.recover {σ β : Type} (body : Action σ β) (fallback : Fault → Action σ β) :
    Action σ β := do
  match ← Action.attempt body with
  | .ok b => return b
  | .error f => if f.isExhaustion then fallback f else Action.fault f

/-- What runs before exhaustion becomes fatal. -/
inductive Hook where
  /-- Returns without doing anything. -/
  | quiet
  /-- Does not return. -/
  | named (name : String)
  deriving DecidableEq, Repr

/-- Runs a hook. -/
def Hook.run (layout : Layout) (f : Fault) : Hook → Checked Unit
  | quiet => return ()
  | named name => Checked.stop (.hook name layout.size layout.align f)

/-- An allocator whose exhaustion is fatal. -/
structure Abort (α : Type) where
  inner : α
  hook : Hook := .quiet

namespace Abort

variable {α : Type}

/-- Runs an action on the allocator below. -/
def below {β : Type} (x : Action α β) : Action (Abort α) β :=
  Action.within (fun t => t.inner) (fun a t => { t with inner := a }) x

/-- Passes a call on; exhaustion runs the hook and stops. -/
def guard (layout : Layout) (x : Action α Block) : Action (Abort α) Block :=
  Action.recover (below x) fun f => do
    let t ← Action.part
    t.hook.run layout f
    Action.stop (.fatal layout.size)

/-- The text of such an allocator over one with the text `inner`. -/
def describe (inner : String) : String :=
  s!"AbortOnExhaustion \x7b inner: {inner}, .. \x7d"

/-- Replaces the hook; answers with the previous one. -/
def setHook (hook : Hook) : Action (Abort α) Hook := do
  let t ← Action.part
  Action.modifyPart fun t => { t with hook := hook }
  return t.hook

instance [Allocator α] : Allocator (Abort α) where
  acquire layout := guard layout (Allocator.acquire layout)
  canResize t := Allocator.canResize t.inner
  resize ptr old new := guard new (Allocator.resize ptr old new)
  canRelease t := Allocator.canRelease t.inner
  release ptr layout := below (Allocator.release ptr layout)

end Abort

/-- An allocator that counts its exhaustion. -/
structure Signal (α : Type) where
  inner : α
  signals : Nat := 0

namespace Signal

variable {α : Type}

/-- Runs an action on the allocator below. -/
def below {β : Type} (x : Action α β) : Action (Signal α) β :=
  Action.within (fun t => t.inner) (fun a t => { t with inner := a }) x

/-- Passes a call on; exhaustion is counted and becomes out of memory. -/
def guard (layout : Layout) (x : Action α Block) : Action (Signal α) Block :=
  Action.recover (below x) fun _ => do
    Action.modifyPart fun t => { t with signals := t.signals + 1 }
    Action.fault layout.outOfMemory

instance [Allocator α] : Allocator (Signal α) where
  acquire layout := guard layout (Allocator.acquire layout)
  canResize t := Allocator.canResize t.inner
  resize ptr old new := guard new (Allocator.resize ptr old new)
  canRelease t := Allocator.canRelease t.inner
  release ptr layout := below (Allocator.release ptr layout)

end Signal

end LayeredMemory
