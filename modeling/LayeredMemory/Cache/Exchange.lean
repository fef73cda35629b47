import LayeredMemory.Cache.Basic

/-!
# Caches — handing objects out and taking them back

`Cache.alloc` takes an object from the first available slab, else from the slab that was emptied
last, else from a new one. `Cache.free` believes the owner header; `Cache.tryFree` searches for the
slab and checks everything before it frees. A slab that becomes empty is kept while no more than
`highWater` slabs are empty; above that the slab that was emptied first is given back.

`Cache.close` is the end of a cache: it gives back every slab.
-/

namespace LayeredMemory.Cache

variable {α : Type}

/-- Runs an action on the allocator below. -/
def below {β : Type} (x : Action α β) : Action (Cache α) β :=
  Action.within (fun c => c.allocator) (fun a c => { c with allocator := a }) x

/-- Runs an action on a slab, with what is known of its occupancy afterwards. -/
def onSlab {β : Type} (id : Nat) (e : CacheEntry) (x : Action Slab β) :
    Action (Cache α) (β × Occupancy) :=
  Action.within (fun _ => e.slab) (setSlab id) do
    let answer ← x
    let s ← Action.part
    return (answer, Occupancy.classify s.allocated s.capacity)

variable [Allocator α]

/-- Gives the block of a slab back, or abandons it where the allocator takes none. -/
def releaseBlock (block : Nat) : Action (Cache α) Unit := do
  let c ← Action.part
  if Allocator.canRelease c.allocator then
    below (Allocator.release block c.extentLayout)
    Action.modifyPart fun c =>
      { c with counters := { c.counters with released := c.counters.released + 1 } }
  else
    Action.modifyPart fun c =>
      { c with counters := { c.counters with abandoned := c.counters.abandoned + 1 } }

/-- Strikes a slab off and gives its block back. -/
def releaseSlab (id : Nat) : Action (Cache α) Unit := do
  Action.modifyPart fun c => { c with roster := c.roster.remove id }
  let c ← Action.part
  match c.lookup? id with
  | none => return ()
  | some e =>
    Action.modifyPart fun c =>
      { c with slabs := c.slabs.setIfInBounds id none, vacant := id :: c.vacant }
    releaseBlock e.block

/-- Gives back up to `n` empty slabs, the one emptied first to begin with. -/
def evict : Nat → Action (Cache α) Unit
  | 0 => return ()
  | n + 1 => do
    let c ← Action.part
    match c.roster.front .empty with
    | none => return ()
    | some id =>
      releaseSlab id
      evict n

/-- Gives back empty slabs until `keep` are left. -/
def evictAbove (keep : Nat) : Action (Cache α) Unit := do
  let c ← Action.part
  evict (c.roster.length .empty - keep)

/-- Gives back every empty slab. -/
def shrink : Action (Cache α) Unit :=
  evictAbove 0

/-- A block for one more slab. Whatever the allocator's fault, the cache is out of memory. -/
def acquireBlock : Action (Cache α) Block := do
  let c ← Action.part
  match ← Action.attempt (below (Allocator.acquire c.extentLayout)) with
  | .ok block => return block
  | .error _ => Action.fault c.extentLayout.outOfMemory

/-- Cuts a block into slots; a block that does not serve is given back. -/
def initSlab (block : Block) : Action (Cache α) Slab := do
  let c ← Action.part
  match ← Action.attempt (Slab.init block.extent c.stride c.perSlab) with
  | .ok slab => return slab
  | .error f =>
    if Allocator.canRelease c.allocator then
      below (Allocator.release block.ptr c.extentLayout)
    Action.fault f

/-- Gives a slab a number and lists it as empty. -/
def register (e : CacheEntry) : Action (Cache α) Nat := do
  let c ← Action.part
  let id := c.vacant.headD c.slabs.size
  Action.modifyPart fun c =>
    { c with
      slabs := if id < c.slabs.size then c.slabs.setIfInBounds id (some e) else c.slabs.push (some e)
      vacant := c.vacant.tail
      roster := c.roster.pushBack id .empty
      counters := { c.counters with acquired := c.counters.acquired + 1 } }
  return id

/-- Adds a slab, unless the limit is reached; answers with its number. -/
def grow : Action (Cache α) Nat := do
  let c ← Action.part
  if c.config.maxSlabs ≠ 0 ∧ c.config.maxSlabs ≤ c.slabCount then
    Action.fault (.cacheExhausted c.config.maxSlabs c.perSlab)
  else
    let block ← acquireBlock
    let slab ← initSlab block
    register ⟨slab, block.ptr⟩

/-- The slab to take the next object from. -/
def chooseSlab : Action (Cache α) Nat := do
  let c ← Action.part
  match c.roster.front .available <|> c.roster.back .empty with
  | some id => return id
  | none => grow

/-- Hands out an object. -/
def alloc : Action (Cache α) Nat := do
  let id ← chooseSlab
  let c ← Action.part
  match c.lookup? id with
  | none => Action.fault (.corruptHeap "pool_cache" id "listed pool id is vacant")
  | some e =>
    let (slot, state) ← onSlab id e Slab.alloc
    Action.writeWord slot id
    c.config.allocPattern.fill (slot + header) c.config.objectSize
    Action.modifyPart fun c =>
      { c with
        roster := c.roster.relink id state
        live := c.live + 1
        counters := { c.counters with allocs := c.counters.allocs + 1 } }
    return slot + header

/-- Takes back an object whose owner header is right. -/
def free (ptr : Nat) : Action (Cache α) Unit := do
  let c ← Action.part
  let m ← Action.memory
  let slot := ptr - header
  let id := m.readWord slot
  match c.lookup? id with
  | none => Action.stop (.ownerless ptr id)
  | some e =>
    c.config.deallocPattern.fill ptr c.config.objectSize
    let ((), state) ← onSlab id e (Slab.free slot)
    Action.modifyPart fun c => { c with roster := c.roster.relink id state }
    let live ← Word.sub c.live 1
    Action.modifyPart fun c =>
      { c with live := live, counters := { c.counters with frees := c.counters.frees + 1 } }
    match state with
    | .empty => evictAbove c.config.highWater
    | _ => return ()

/-- The reason, if any, why an address is not an object that can be taken back. -/
def refusal? (c : Cache α) (m : Memory) (ptr : Nat) : Option String :=
  if Align.isMultiple ptr Word.bytes = false ∨ ptr < header then some "misaligned object pointer"
  else
    match c.ownerOf? (ptr - header) with
    | none => some "not owned by this cache"
    | some (id, e) =>
      if e.slab.owns (ptr - header) = false then some "not an object boundary"
      else if e.slab.isFree m (ptr - header) = true then some "object is not allocated"
      else if m.readWord (ptr - header) ≠ id then some "owner header overwritten"
      else none

/-- Takes back whatever is an object, and refuses every other address. -/
def tryFree (ptr : Nat) : Action (Cache α) Unit := do
  let c ← Action.part
  let m ← Action.memory
  match c.refusal? m ptr with
  | some reason => Action.fault (.invalidFree ptr reason)
  | none => free ptr

/-- Releases blocks one after the other. -/
def releaseAll (layout : Layout) : List Nat → Action (Cache α) Unit
  | [] => return ()
  | block :: blocks => do
    below (Allocator.release block layout)
    releaseAll layout blocks

/-- Ends the cache: gives back the block of every slab, lowest number first. -/
def close : Action (Cache α) Unit := do
  let c ← Action.part
  if Allocator.canRelease c.allocator then
    releaseAll c.extentLayout (c.slabs.toList.filterMap fun e => e.map (·.block))

end LayeredMemory.Cache
