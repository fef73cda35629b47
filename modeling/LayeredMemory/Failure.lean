import LayeredMemory.Fault

/-!
# Failures — faults and stops

A call comes out in one of three ways: with an answer, with a `Fault`, or with a `Stop`. A stop means
that the call could not go on: a sum left the range of machine words, a precondition was broken, or
a hook refused to return. No layer handles a stop; it ends every call on its way out. A call that
never comes back counts as one that stops.

`Checked` is the shape of a computation that reads and may fail but changes nothing.
-/

namespace LayeredMemory

/-- The ways in which a call ends without an answer and without a fault. -/
inductive Stop where
  /-- A sum is no machine word. -/
  | addOverflow
  /-- A difference is negative. -/
  | subOverflow
  /-- A product is no machine word. -/
  | mulOverflow
  /-- An alignment is not a power of two. -/
  | notPowerOfTwo
  /-- A freed address is no slot of the slab. -/
  | foreignSlot (addr : Nat)
  /-- A freed slot is free already. -/
  | doubleFree (addr : Nat)
  /-- A freed object's owner header names no slab. -/
  | ownerless (addr header : Nat)
  /-- A verified free met a fault. -/
  | heapFree (fault : Fault)
  /-- A verified resize met a fault. -/
  | heapRealloc (fault : Fault)
  /-- A search goes round for ever. -/
  | endless
  /-- An index is outside a table. -/
  | outOfBounds (size index : Nat)
  /-- A table is larger than an object can be. -/
  | tooLarge
  /-- A slab that joins a list is on one already. -/
  | listed (id : Nat)
  /-- A named exhaustion hook ran and did not return. -/
  | hook (name : String) (size align : Nat) (fault : Fault)
  /-- Exhaustion was fatal and no hook prevented it. -/
  | fatal (size : Nat)
  deriving DecidableEq, Repr

/-- The text of a stop. -/
def Stop.message : Stop → String
  | addOverflow => "attempt to add with overflow"
  | subOverflow => "attempt to subtract with overflow"
  | mulOverflow => "attempt to multiply with overflow"
  | notPowerOfTwo => "assertion failed: alignment.is_power_of_two()"
  | foreignSlot addr => s!"Pool::free: {addressText addr} is not a slot of this pool"
  | doubleFree addr => s!"Pool::free: double free of {addressText addr}"
  | ownerless addr header =>
      s!"PoolCache::free: {addressText addr} has no owning pool (header {header})"
  | heapFree fault => s!"DynMem::free: {fault.message}"
  | heapRealloc fault => s!"DynMem::realloc: {fault.message}"
  | endless => "the search for a free block does not end"
  | outOfBounds size index =>
      s!"index out of bounds: the len is {size} but the index is {index}"
  | tooLarge => "capacity overflow"
  | listed id => s!"pool {id} is already listed"
  | hook name size align fault => s!"hook {name}: {size} {align} {fault.code}"
  | fatal size => s!"memory allocation of {size} bytes failed"

/-- The two ways in which a call fails. -/
inductive Failure where
  | fault (f : Fault)
  | stop (s : Stop)
  deriving DecidableEq, Repr

/-- A computation that reads, may fail, and changes nothing. -/
abbrev Checked (α : Type) : Type :=
  Except Failure α

namespace Checked

/-- End with a fault. -/
def fault {α : Type} (f : Fault) : Checked α :=
  .error (.fault f)

/-- End with a stop. -/
def stop {α : Type} (s : Stop) : Checked α :=
  .error (.stop s)

/-- An answer or a fault, as a computation that may also stop. -/
def ofExcept {α : Type} : Except Fault α → Checked α
  | .ok a => .ok a
  | .error f => .error (.fault f)

end Checked

end LayeredMemory
