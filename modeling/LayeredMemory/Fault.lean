/-!
# Faults — ordinary failures

A fault is an answer, not an accident: the caller sees it as a value and may try something else.
Three classes matter to callers.

* *Exhaustion* (`exhausted`, `cacheExhausted`, `outOfMemory`): there is no room. The first two are
  *retryable*, since growing or asking elsewhere may help.
* *Argument faults* (`invalidArgument`, `unsupported`): the request makes no sense here.
* *Corruption* (`invalidFree`, `corruptHeap`): somebody broke the rules, now or earlier.

`Fault.message` is the text of a fault and `Fault.code` its category.
-/

namespace LayeredMemory

/-- The text of an address: lower-case hexadecimal with its mark. -/
def addressText (a : Nat) : String :=
  "0x" ++ String.ofList (Nat.toDigits 16 a)

/-- The ordinary ways in which a request fails. -/
inductive Fault where
  /-- A component of fixed capacity has nothing left. -/
  | exhausted (component : String) (capacity : Nat)
  /-- A cache has reached its limit of slabs and all of them are full. -/
  | cacheExhausted (maxSlabs perSlab : Nat)
  /-- No memory of this size and alignment can be had. -/
  | outOfMemory (size align : Nat)
  /-- The request is malformed. -/
  | invalidArgument (reason : String)
  /-- The allocator lacks this capability. -/
  | unsupported (capability : String)
  /-- The address does not name a live block. -/
  | invalidFree (addr : Nat) (reason : String)
  /-- The bookkeeping that lies in memory is damaged. -/
  | corruptHeap (component : String) (addr : Nat) (details : String)
  deriving DecidableEq, Repr

namespace Fault

/-- A request for no bytes is malformed. -/
def zeroSize : Fault :=
  .invalidArgument "zero-size request"

/-- An alignment above what the allocator serves. -/
def invalidAlignment (align max : Nat) : Fault :=
  .invalidArgument s!"alignment {align} exceeds supported {max}"

/-- Growing, or asking elsewhere, may help. -/
def isRetryable : Fault → Bool
  | exhausted .. | cacheExhausted .. => true
  | _ => false

/-- There is no room. -/
def isExhaustion : Fault → Bool
  | exhausted .. | cacheExhausted .. | outOfMemory .. => true
  | _ => false

/-- Somebody broke the rules. -/
def isCorruption : Fault → Bool
  | invalidFree .. | corruptHeap .. => true
  | _ => false

/-- The category of a fault. -/
def code : Fault → String
  | exhausted .. => "MEM:POOL:EXHAUSTED"
  | cacheExhausted .. => "MEM:CACHE:EXHAUSTED"
  | outOfMemory .. => "MEM:ALLOC:OOM"
  | invalidArgument .. => "MEM:ARG:INVALID"
  | unsupported .. => "MEM:ARG:UNSUPPORTED"
  | invalidFree .. => "MEM:HEAP:INVALID_FREE"
  | corruptHeap .. => "MEM:HEAP:CORRUPT"

/-- The text of a fault. -/
def message : Fault → String
  | exhausted component capacity => s!"{component} exhausted (capacity: {capacity})"
  | cacheExhausted maxSlabs perSlab =>
      s!"pool cache exhausted: {maxSlabs} pools of {perSlab} objects in use"
  | outOfMemory size align => s!"out of memory: {size} bytes with {align} byte alignment"
  | invalidArgument reason => s!"invalid argument: {reason}"
  | unsupported capability => s!"capability not supported: {capability}"
  | invalidFree addr reason => s!"invalid free of {addressText addr}: {reason}"
  | corruptHeap component addr details =>
      s!"heap corruption in {component} at {addressText addr}: {details}"

theorem isExhaustion_of_isRetryable {f : Fault} (h : f.isRetryable = true) :
    f.isExhaustion = true := by
  cases f <;> simp_all [isRetryable, isExhaustion]

theorem isCorruption_eq_false_of_isExhaustion {f : Fault} (h : f.isExhaustion = true) :
    f.isCorruption = false := by
  cases f <;> simp_all [isCorruption, isExhaustion]

end Fault

end LayeredMemory
