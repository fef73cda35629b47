import LayeredMemory.Cache.Config
import LayeredMemory.Cache.Roster
import LayeredMemory.Layer.Basic
import LayeredMemory.Slab.Exchange

/-!
# Caches — objects of one size

A cache serves objects of one size from slabs, which it builds on demand over blocks of an
allocator. Every slot starts with an *owner header*, one word that holds the number of the slab;
the object follows it. So a returned object finds its slab without a search.

Slabs are numbered; the number of a slab that was given back is used again, the latest first. The
roster keeps the numbers apart by occupancy. This module holds the structure of a cache and what
can be read off it; `LayeredMemory.Cache.Exchange` hands objects out and takes them back.
-/

namespace LayeredMemory

/-- A slab of a cache and the block it lies in. -/
structure CacheEntry where
  slab : Slab
  /-- Where the block starts. -/
  block : Nat

/-- What a cache has done so far. -/
structure CacheCounters where
  allocs : Nat := 0
  frees : Nat := 0
  acquired : Nat := 0
  released : Nat := 0
  abandoned : Nat := 0
  deriving DecidableEq, Repr

/-- A cache over an allocator. -/
structure Cache (α : Type) where
  config : CacheConfig
  allocator : α
  /-- The layout of a slab's block. -/
  extentLayout : Layout
  stride : Nat
  /-- Slots in one slab. -/
  perSlab : Nat
  /-- The slabs by number; a vacant number has none. -/
  slabs : Array (Option CacheEntry) := #[]
  /-- The vacant numbers, the latest first. -/
  vacant : List Nat := []
  roster : Roster := {}
  /-- Objects handed out and not taken back. -/
  live : Nat := 0
  counters : CacheCounters := {}

/-- What a cache reports about itself. -/
structure CacheStats where
  slabs : Nat := 0
  available : Nat := 0
  full : Nat := 0
  empty : Nat := 0
  liveObjects : Nat := 0
  capacityPerSlab : Nat := 0
  totalAllocs : Nat := 0
  totalFrees : Nat := 0
  acquired : Nat := 0
  released : Nat := 0
  abandoned : Nat := 0
  deriving DecidableEq, Repr

namespace CacheStats

/-- The share of slots that are handed out, between 0 and 1. -/
def utilization (s : CacheStats) : Checked Float := do
  let capacity ← Word.mul s.slabs s.capacityPerSlab
  if capacity = 0 then return 0.0
  else return (UInt64.ofNat s.liveObjects).toFloat / (UInt64.ofNat capacity).toFloat

/-- The text of a report. -/
def describe (s : CacheStats) : String :=
  s!"PoolCacheStats \x7b pools: {s.slabs}, available: {s.available}, full: {s.full}, " ++
    s!"empty: {s.empty}, live_objects: {s.liveObjects}, capacity_per_pool: {s.capacityPerSlab}, " ++
    s!"total_allocs: {s.totalAllocs}, total_frees: {s.totalFrees}, extents_acquired: {s.acquired}, " ++
    s!"extents_released: {s.released}, extents_abandoned: {s.abandoned} \x7d"

end CacheStats

namespace Cache

variable {α : Type}

/-- Bytes in an owner header. -/
def header : Nat := Word.bytes

/-- A cache without slabs. -/
def new (config : CacheConfig) (allocator : α) : Checked (Cache α) := do
  config.validate
  match Layout.of? config.pageSize Word.bytes with
  | none => Checked.fault (.invalidArgument "page_size overflows a layout")
  | some extentLayout =>
    let stride ← config.slotStride
    let perSlab ← config.objectsPerSlab
    return { config, allocator, extentLayout, stride, perSlab }

/-- The slab of a number. -/
def lookup? (c : Cache α) (id : Nat) : Option CacheEntry :=
  (c.slabs[id]?).join

/-- Puts back a slab under its number. -/
def setSlab (id : Nat) (s : Slab) (c : Cache α) : Cache α :=
  { c with slabs := c.slabs.modify id fun e => e.map fun e => { e with slab := s } }

/-- The numbers in order, each with its slab. -/
def entries (c : Cache α) : List (Option CacheEntry × Nat) :=
  c.slabs.toList.zipIdx

/-- How many slabs there are. -/
def slabCount (c : Cache α) : Nat :=
  c.slabs.size - c.vacant.length

/-- The number of the slab whose block holds the address, and the slab. -/
def ownerOf? (c : Cache α) (a : Nat) : Option (Nat × CacheEntry) :=
  c.entries.findSome? fun
    | (some e, id) => if e.slab.extent.covers a then some (id, e) else none
    | (none, _) => none

/-- The occupancy of the slab that an object lies in. -/
def stateOf (c : Cache α) (ptr : Nat) : Option Occupancy :=
  if ptr < header then none
  else (c.ownerOf? (ptr - header)).bind fun (id, _) => c.roster.placeOf id

/-- The report of a cache. -/
def stats (c : Cache α) : CacheStats where
  slabs := c.slabCount
  available := c.roster.length .available
  full := c.roster.length .full
  empty := c.roster.length .empty
  liveObjects := c.live
  capacityPerSlab := c.perSlab
  totalAllocs := c.counters.allocs
  totalFrees := c.counters.frees
  acquired := c.counters.acquired
  released := c.counters.released
  abandoned := c.counters.abandoned

/-- Slabs on all sequences of the roster. -/
def listed (c : Cache α) : Nat :=
  c.roster.length .available + c.roster.length .full + c.roster.length .empty

/-- The text of a place on the roster. -/
def placeText : Option Occupancy → String
  | some o => s!"Some({o.name})"
  | none => "None"

/-- Checks the numbers of a list; answers with `live` and the slots that their slabs have handed
out. -/
def inspect (c : Cache α) (m : Memory) (live : Nat) :
    List (Option CacheEntry × Nat) → Checked Nat
  | [] => return live
  | (none, id) :: rest =>
    if (c.roster.placeOf id).isSome then
      Checked.fault (.corruptHeap "pool_cache" id "vacant pool id is listed")
    else c.inspect m live rest
  | (some e, id) :: rest => do
    e.slab.validate m
    let expected := Occupancy.classify e.slab.allocated e.slab.capacity
    if c.roster.placeOf id = some expected then
      c.inspect m (live + e.slab.allocated) rest
    else
      Checked.fault (.corruptHeap "pool_cache" e.block
        s!"pool {id} is on {placeText (c.roster.placeOf id)} but should be on {expected.name}")

/-- The roster, the slabs and the counts agree. -/
def validate (c : Cache α) (m : Memory) : Checked Unit := do
  Checked.ofExcept c.roster.validate
  if c.listed = c.slabCount then
    let live ← c.inspect m 0 c.entries
    if live = c.live then return ()
    else
      Checked.fault (.corruptHeap "pool_cache" 0 s!"{live} live slots, {c.live} counted")
  else
    Checked.fault (.corruptHeap "pool_cache" 0
      s!"{c.listed} pools listed, {c.slabCount} registered")

/-- The text of a cache. -/
def describe (c : Cache α) : String :=
  s!"PoolCache \x7b config: {c.config.describe}, stats: {c.stats.describe}, .. \x7d"

end Cache

end LayeredMemory
