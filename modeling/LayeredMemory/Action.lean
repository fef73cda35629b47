import LayeredMemory.Memory

/-!
# Actions — work on a component and on memory

Every component of the library (a slab, a cache, a heap, an allocator) keeps some of its state in
its own fields and some in the bytes of memory. A `Store` holds both, and an `Action` works on them:
it ends with an answer or a failure, and in either case with a store. A failure does not undo what
was done before it.

* **`attempt`** turns a fault of an action into its answer. Stops pass through.
* **`within`** runs an action on a component of a larger one; what it did stays done, however it
  ended.
-/

namespace LayeredMemory

/-- A component together with the memory it works on. -/
structure Store (σ : Type) where
  part : σ
  memory : Memory

/-- A computation on a component and memory. -/
abbrev Action (σ : Type) : Type → Type :=
  EStateM Failure (Store σ)

/-- Checked arithmetic inside an action. -/
instance {σ : Type} : MonadLift (Except Failure) (Action σ) where
  monadLift
    | .ok a => fun s => .ok a s
    | .error e => fun s => .error e s

namespace Action

variable {σ τ α : Type}

/-- The component. -/
def part : Action σ σ :=
  fun s => .ok s.part s

/-- The memory. -/
def memory : Action σ Memory :=
  fun s => .ok s.memory s

/-- Changes the component. -/
def modifyPart (f : σ → σ) : Action σ Unit
  | ⟨p, m⟩ => .ok () ⟨f p, m⟩

/-- Changes the memory. -/
def modifyMemory (f : Memory → Memory) : Action σ Unit
  | ⟨p, m⟩ => .ok () ⟨p, f m⟩

/-- Ends with a fault. -/
def fault (f : Fault) : Action σ α :=
  fun s => .error (.fault f) s

/-- Ends with a stop. -/
def stop (k : Stop) : Action σ α :=
  fun s => .error (.stop k) s

/-- An answer or a fault, as the end of an action. -/
def ofExcept : Except Fault α → Action σ α
  | .ok a => fun s => .ok a s
  | .error f => fault f

/-- Runs an action; its fault, if any, is an answer. -/
def attempt (x : Action σ α) : Action σ (Except Fault α) := fun s =>
  match x s with
  | .ok a s => .ok (.ok a) s
  | .error (.fault f) s => .ok (.error f) s
  | .error (.stop k) s => .error (.stop k) s

/-- Runs an action on the component that `get` finds and `put` places. -/
def within (get : σ → τ) (put : τ → σ → σ) (x : Action τ α) : Action σ α
  | ⟨p, m⟩ =>
    match x ⟨get p, m⟩ with
    | .ok a ⟨t, m⟩ => .ok a ⟨put t p, m⟩
    | .error e ⟨t, m⟩ => .error e ⟨put t p, m⟩

/-- Writes one word. -/
def writeWord (a w : Nat) : Action σ Unit :=
  modifyMemory fun m => m.writeWord a w

end Action

end LayeredMemory
