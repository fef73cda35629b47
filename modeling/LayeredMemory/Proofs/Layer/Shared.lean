import LayeredMemory.Proofs.Cache.Session

/-!
# Caches over shared heaps — the layers compose

A cache draws its slabs from a heap through a reference, and the heap has direct clients as well. A
session is all of this: the cache with the heap behind it, their memory, the objects that clients of
the cache hold, and the blocks that direct clients hold. Either side makes requests, and both write
into what they hold, in any order and any number.

Two views make one invariant. To the cache the heap is an allocator that honours its contract,
whatever direct clients hold (`Sound.upper`); to the heap the cache is one more client, which holds
the payloads that the slabs lie in (`Sound.lower`). What one side does is a frame to the other.

* `Session.serve_spec`: every legal request is served, or refused with a fault, and keeps the
  invariant.
* `Reachable.sound`: so the invariant holds after every run.
* `Session.Sound.backed`, `Session.Sound.disjoint`: where the slabs lie, and that nothing overlaps.
* `Session.Sound.close`: closing the cache leaves the heap to its direct clients.
* `reachable_composed`: all of this, after every run.
-/

namespace LayeredMemory.Shared

/-- A cache over a borrowed heap, their memory, and what is held of either. -/
structure Session (γ : Type) where
  cache : Cache (Borrowed (Heap γ))
  memory : Memory
  objects : List Nat := []
  blocks : List Heap.Held := []

/-- What a client can ask of the cache, or of the heap. -/
inductive Request where
  | cache (r : Cache.Request)
  | heap (r : Heap.Request)
  deriving DecidableEq, Repr

/-- The block that a request frees or resizes. -/
def Request.target : Request → Option Nat
  | .cache _ => none
  | .heap r => r.target

namespace Session

variable {γ : Type}

/-- The heap behind the cache. -/
def heap (σ : Session γ) : Heap γ :=
  σ.cache.allocator.inner

/-- What clients of the cache see. -/
def upper (σ : Session γ) : Cache.Session (Borrowed (Heap γ)) :=
  ⟨σ.cache, σ.memory, σ.objects⟩

/-- What direct clients of the heap see. -/
def lower (σ : Session γ) : Heap.Session γ :=
  ⟨σ.heap, σ.memory, σ.blocks⟩

/-- Serves a request, unless the cache or the heap stops. -/
def serve [GrowthSource γ] (σ : Session γ) : Request → Except Stop (Session γ)
  | .cache r => (σ.upper.serve r).map fun τ => ⟨τ.cache, τ.memory, τ.live, σ.blocks⟩
  | .heap r =>
    (σ.lower.serve r).map fun τ =>
      ⟨{ σ.cache with allocator := ⟨τ.heap⟩ }, τ.memory, σ.objects, τ.live⟩

/-- A client writes a byte. -/
def write (σ : Session γ) (a : Nat) (b : UInt8) : Session γ :=
  { σ with memory := σ.memory.write a b }

/-- A slab lies at the start of the payload of a live block of the heap, in which a page fits, and
which is none of those that direct clients hold. -/
structure Backed (σ : Session γ) (e : CacheEntry) : Prop where
  start : e.slab.extent.start = e.block
  len : e.slab.extent.len = σ.cache.config.pageSize
  live : σ.heap.checkLive σ.memory e.block = .ok ()
  usable : ∃ n, Heap.usableSize σ.memory e.block = .ok n ∧ σ.cache.config.pageSize ≤ n
  apart : ∀ b ∈ σ.blocks, ∀ x ∈ e.slab.extent, x ∉ b.room

/-- What is held does not overlap, and neither do slabs. -/
structure Disjoint (σ : Session γ) : Prop where
  slabs : ∀ id j e d, σ.cache.lookup? id = some e → σ.cache.lookup? j = some d → id ≠ j →
    e.slab.extent.Apart d.slab.extent
  objects : ∀ p ∈ σ.objects, ∀ q ∈ σ.objects, p ≠ q → ∀ x ∈ σ.cache.room p, x ∉ σ.cache.room q
  mixed : ∀ p ∈ σ.objects, ∀ b ∈ σ.blocks, ∀ x ∈ σ.cache.room p, x ∉ b.room
  blocks : (σ.blocks.map Heap.Held.room).Pairwise Extent.Apart

end Session

section Contract

variable {γ : Type} [GrowthSource γ] (C : GrowthContract γ)

/-- Requests that a client may make. -/
def Request.Legal (σ : Session γ) : Request → Prop
  | .cache r => r.Legal σ.upper
  | .heap r => r.Legal C σ.lower

/-- The sessions that come about: from a new cache over a heap that direct clients have used, by
requests and writes of either side in any order. -/
inductive Reachable : Session γ → Prop
  | start {τ : Heap.Session γ} {config : CacheConfig} {cache : Cache (Borrowed (Heap γ))}
      (before : Heap.Reachable C τ) (made : Cache.new config ⟨τ.heap⟩ = .ok cache) :
      Reachable ⟨cache, τ.memory, [], τ.live⟩
  | serve {σ σ' : Session γ} {r : Request} (before : Reachable σ) (legal : r.Legal C σ)
      (served : σ.serve r = .ok σ') : Reachable σ'
  | write {σ : Session γ} {a : Nat} {b : UInt8} (before : Reachable σ)
      (usable : σ.upper.Usable a ∨ σ.lower.Usable a) : Reachable (σ.write a b)

/-- The cache is in order, and the heap lends the payloads of its slabs' blocks and what direct
clients hold. -/
structure Session.Sound (σ : Session γ) : Prop where
  order : σ.cache.InOrder σ.memory σ.objects
  empties : σ.cache.roster.length .empty ≤ σ.cache.config.highWater
  serves : σ.heap.Serves C σ.memory (σ.lower.rooms + σ.cache.leases.map Lease.payload)
  leases : Heap.Sized σ.cache.leases
  sized : ∀ b ∈ σ.blocks, ∃ size, blockSizeFor b.size = some size

/-- What a request leaves alone: the bytes of objects that are held before and after, of all blocks
but its target, and what the heap leaves alone for direct clients. -/
structure Session.Spares (σ : Session γ) (r : Request) (σ' : Session γ) : Prop where
  objects : ∀ p ∈ σ.objects, p ∈ σ'.objects → ∀ x ∈ σ.cache.room p,
    σ'.memory.read x = σ.memory.read x
  blocks : ∀ b ∈ σ.blocks, r.target ≠ some b.ptr → ∀ x ∈ b.room, σ'.memory.read x = σ.memory.read x
  direct : ∀ s, r = .heap s → σ.lower.Spares s σ'.lower

variable {C} {σ σ' : Session γ} {r : Request}

/-- The heap, as the allocator that the cache draws from. -/
abbrev lender (C : GrowthContract γ) (σ : Session γ) : AllocatorContract (Borrowed (Heap γ)) :=
  Borrowed.contract (Heap.contract C σ.lower.rooms σ.memory)

namespace Session

/-- **The cache's view**: its allocator honours the contract. -/
theorem Sound.upper (sound : σ.Sound C) : σ.upper.Sound (lender C σ) := by
  have hosts : σ.heap.Hosts C σ.lower.rooms σ.memory σ.memory σ.cache.leases :=
    ⟨add_comm σ.lower.rooms _ ▸ sound.serves, .refl _ _, sound.leases⟩
  refine ⟨⟨sound.order, 0, ?_, fun _ => rfl⟩, sound.empties⟩
  rw [zero_add]
  exact hosts

/-- **The heap's view**: the cache is one more client. -/
theorem Sound.lower (sound : σ.Sound C) : σ.lower.Sound C (σ.cache.leases.map Lease.payload) :=
  ⟨sound.serves, sound.sized⟩

/-- Back from the cache's view: what direct clients hold is as it was. -/
theorem Sound.of_upper {τ : Cache.Session (Borrowed (Heap γ))} {blocks : List Heap.Held}
    {m₀ : Memory} (upper : τ.Sound
      (Borrowed.contract (Heap.contract C (blocks.map Heap.Held.room : List Extent) m₀)))
    (sized : ∀ b ∈ blocks, ∃ size, blockSizeFor b.size = some size) :
    Sound C ⟨τ.cache, τ.memory, τ.live, blocks⟩ ∧
      m₀.Keeps τ.memory (blocks.map Heap.Held.room : List Extent) := by
  obtain ⟨gone, hosts, none⟩ := upper.serves.ready
  -- A heap takes every block back, so no lease is lost.
  rw [none fun _ _ _ _ => rfl, zero_add] at hosts
  have hosts : τ.cache.allocator.inner.Hosts C (blocks.map Heap.Held.room : List Extent) m₀ τ.memory
      τ.cache.leases := hosts
  refine ⟨⟨upper.serves.toInOrder, upper.empties, ?_, hosts.sized, sized⟩, hosts.direct⟩
  exact add_comm (_ : Multiset Extent) _ ▸ hosts.serves

/-- Back from the heap's view, if the leases of the cache are as they were. -/
theorem Sound.of_lower (sound : σ.Sound C) {τ : Heap.Session γ}
    (lower : τ.Sound C (σ.cache.leases.map Lease.payload))
    (kept : σ.memory.Keeps τ.memory (σ.cache.leases.map Lease.payload)) :
    Sound C ⟨{ σ.cache with allocator := ⟨τ.heap⟩ }, τ.memory, σ.objects, τ.live⟩ ∧
      σ.memory.Keeps τ.memory (σ.cache.rooms σ.objects) := by
  have leased : σ.memory.Keeps τ.memory (leased σ.cache.leases) :=
    sound.leases.keeps (D := 0) (by rwa [add_zero])
  have order := (sound.order.kept leased).with_allocator ⟨τ.heap⟩
  exact ⟨⟨order, sound.empties, lower.serves, sound.leases, lower.sized⟩,
    Cache.keeps_rooms (sound.order.keeps leased)⟩

/-- **Every legal request** of either side is served or refused with a fault, and keeps the
invariant. -/
theorem serve_spec (sound : σ.Sound C) (legal : r.Legal C σ) :
    ∃ σ', σ.serve r = .ok σ' ∧ σ'.Sound C ∧ σ.Spares r σ' := by
  cases r with
  | cache r =>
    obtain ⟨τ, run, upper, steps⟩ := Cache.Session.serve_spec sound.upper legal
    obtain ⟨after, kept⟩ := Sound.of_upper upper sound.sized
    refine ⟨_, congrArg (Except.map _) run, after, fun p hp hp' => ?_, fun b hb _ => ?_, nofun⟩
    · have stays : p ∈ σ.upper.staying τ := Cache.Session.mem_staying.mpr ⟨hp, hp'⟩
      exact Cache.keeps_rooms steps.keeps _ (Cache.mem_rooms stays)
    · exact kept _ (Heap.Session.mem_rooms (σ := σ.lower) hb)
  | heap r =>
    obtain ⟨τ, run, steps⟩ := Heap.Session.serve_spec sound.lower legal
    obtain ⟨after, kept⟩ := sound.of_lower steps.sound steps.others
    refine ⟨_, congrArg (Except.map _) run, after, fun p hp _ => ?_, steps.spares.payloads, ?_⟩
    · exact kept _ (Cache.mem_rooms hp)
    · rintro _ ⟨⟩
      exact steps.spares

/-- What a client writes into what it holds is its own matter. -/
theorem Sound.write (sound : σ.Sound C) {a : Nat} {b : UInt8}
    (usable : σ.upper.Usable a ∨ σ.lower.Usable a) : (σ.write a b).Sound C := by
  rcases usable with usable | usable
  · exact (Sound.of_upper (sound.upper.write usable) sound.sized).1
  · obtain ⟨lower, kept⟩ := sound.lower.write usable
    exact (sound.of_lower lower kept).1

/-! ### What is held -/

theorem Sound.backed (sound : σ.Sound C) {id : Nat} {e : CacheEntry}
    (he : σ.cache.lookup? id = some e) : σ.Backed e := by
  have housed := sound.order.housed
  have configured := sound.order.booked.configured
  have mem : σ.cache.lease e ∈ σ.cache.leases :=
    Multiset.mem_map_of_mem _ (Cache.mem_registered.mpr ⟨id, he⟩)
  have lends := sound.serves.lends
  rw [add_comm] at lends
  have lent : (σ.cache.lease e).payload ∈ σ.cache.leases.map Lease.payload + σ.lower.rooms :=
    Multiset.mem_add.mpr (.inl (Multiset.mem_map_of_mem _ mem))
  have extent := Cache.lease_extent housed he
  have len : (σ.cache.lease e).extent.len = σ.cache.config.pageSize :=
    (sound.leases _ mem).1.trans configured.size_eq
  have live := lends.checkLive_eq lent
  have usable := lends.usableSize_eq lent
  obtain ⟨start, large⟩ := sound.leases.len_le mem
  rw [← start, extent, (housed.cut he).start] at live usable
  rw [len] at large
  refine ⟨(housed.cut he).start, extent ▸ len, live, ⟨_, usable, large⟩, fun b hb x hx => ?_⟩
  have off := (lends.off_lease sound.leases mem (extent ▸ hx)).1
  exact off _ (Heap.Session.mem_rooms (σ := σ.lower) hb)

theorem Sound.disjoint (sound : σ.Sound C) : σ.Disjoint := by
  refine ⟨fun id j e d he hd ne => sound.order.housed.apart he hd ne,
    fun p hp q hq ne x hx => sound.order.apart hp hq ne hx, fun p hp b hb x hx => ?_, ?_⟩
  · -- An object lies in a slab, and slabs are apart from blocks.
    obtain ⟨id, e, he, -, inside⟩ := sound.order.mem_extent hp hx
    exact (sound.backed he).apart b hb x inside
  · exact sound.serves.lends.pairwise (Multiset.le_add_right ..)

/-- **The heap counts** the slabs and what direct clients hold. -/
theorem Sound.validate_eq (sound : σ.Sound C) : ∃ report, σ.heap.validate σ.memory = .ok report ∧
    report.allocatedBlocks = σ.cache.slabCount + σ.blocks.length := by
  obtain ⟨report, run, -, -, -, -, count⟩ := sound.serves.lends.validate_eq
  refine ⟨report, run, ?_⟩
  rw [count, sound.order.booked.slabCount_eq, Multiset.card_add, Multiset.card_map, add_comm]
  unfold Cache.leases Heap.Session.rooms
  rw [Multiset.card_map, Multiset.coe_card, List.length_map]
  rfl

/-- **Closing the cache** gives back what it leased, and leaves the heap to its direct clients. -/
theorem Sound.close (sound : σ.Sound C) :
    ∃ c m, Cache.close ⟨σ.cache, σ.memory⟩ = .ok () ⟨c, m⟩ ∧
      Heap.Session.Sound C 0 ⟨c.allocator.inner, m, σ.blocks⟩ ∧ σ.memory.Keeps m σ.lower.rooms := by
  have closed := Cache.close_spec sound.upper.serves fun _ _ _ _ => rfl
  rcases closed.cases with ⟨u, ⟨_, m⟩, run, x, -, rfl, -, ready, -⟩ | ⟨_, _, -, never⟩
  · have hosts : x.inner.Hosts C σ.lower.rooms σ.memory m 0 := ready
    refine ⟨_, m, run, ⟨?_, sound.sized⟩, hosts.direct⟩
    exact add_comm (0 : Multiset Extent) _ ▸ hosts.serves
  · exact never.elim

end Session

/-! ### Whole runs -/

/-- **The invariant of every run.** -/
theorem Reachable.sound (reachable : Reachable C σ) : σ.Sound C := by
  induction reachable with
  | @start τ config cache before made =>
    have lower := before.sound
    obtain ⟨serves, empties, -⟩ :=
      Cache.new_serves (K := Borrowed.contract (Heap.contract C τ.rooms τ.memory)) made lower.hosts
    have few : cache.roster.length .empty ≤ cache.config.highWater := empties ▸ Nat.zero_le _
    exact (Session.Sound.of_upper (τ := ⟨cache, τ.memory, []⟩) ⟨serves, few⟩ lower.sized).1
  | serve before legal served ih =>
    obtain ⟨σ', run, sound, -⟩ := Session.serve_spec ih legal
    rw [served] at run
    cases run
    exact sound
  | write before usable ih => exact ih.write usable

/-- **The layers compose.** After every run of requests and writes of both sides, every legal
request is served or refused with a fault, and spares what others hold. Both validations succeed,
and the heap's counts the slabs and the blocks of direct clients; every slab lies in a live block of
its own, and nothing that is held overlaps. When the cache is closed then, direct clients' blocks
are all that the heap has allocated, as they were, and no two free ones between them are
adjacent. -/
theorem reachable_composed (reachable : Reachable C σ) :
    (∀ r : Request, r.Legal C σ → ∃ σ', σ.serve r = .ok σ') ∧
      (∀ (r : Request) (σ' : Session γ), r.Legal C σ → σ.serve r = .ok σ' → σ.Spares r σ') ∧
      σ.cache.validate σ.memory = .ok () ∧
      (∃ report, σ.heap.validate σ.memory = .ok report ∧
        report.allocatedBlocks = σ.cache.slabCount + σ.blocks.length) ∧
      (∀ id e, σ.cache.lookup? id = some e → σ.Backed e) ∧
      σ.Disjoint ∧
      ∃ c m, Cache.close ⟨σ.cache, σ.memory⟩ = .ok () ⟨c, m⟩ ∧
        (∀ b ∈ σ.blocks, ∀ x ∈ b.room, m.read x = σ.memory.read x) ∧
        (∃ report, c.allocator.inner.validate m = .ok report ∧
          report.allocatedBlocks = σ.blocks.length) ∧
        ∃ parts, c.allocator.inner.InOrder m parts ∧
          c.allocator.inner.blocks m = .ok (blocksIn parts) ∧
          lent (blocksIn parts) = (σ.blocks.map Heap.Held.room : List Extent) ∧
          ∀ t ∈ parts, t.2.IsChain fun b d => b.allocated = true ∨ d.allocated = true := by
  have sound := reachable.sound
  obtain ⟨c, m, run, after, kept⟩ := sound.close
  refine ⟨fun r legal => ?_, fun r σ' legal served => ?_,
    Cache.validate_eq sound.order.booked sound.order.housed, sound.validate_eq,
    fun id e he => sound.backed he, sound.disjoint, c, m, run,
    fun b hb => kept _ (Heap.Session.mem_rooms (σ := σ.lower) hb), ?_, after.alone.lends.tiled⟩
  · obtain ⟨σ', served, -⟩ := Session.serve_spec sound legal
    exact ⟨σ', served⟩
  · obtain ⟨τ, run, -, spares⟩ := Session.serve_spec sound legal
    rw [served] at run
    cases run
    exact spares
  · obtain ⟨report, valid, -, -, -, -, count⟩ := after.alone.lends.validate_eq
    refine ⟨report, valid, count.trans ?_⟩
    rw [Heap.Session.rooms, Multiset.coe_card, List.length_map]

/-- Two objects of one slab and a block of a direct client are held, another block went back. -/
theorem reachable_composed_one : ∃ σ : Session NoGrowth,
    σ.objects = [4184, 4152] ∧ σ.blocks = [⟨4416, 8⟩] ∧
    σ.cache.validate σ.memory = .ok () ∧
    (∃ report, σ.heap.validate σ.memory = .ok report ∧ report.allocatedBlocks = 2) ∧
    ∃ c m, Cache.close ⟨σ.cache, σ.memory⟩ = .ok () ⟨c, m⟩ ∧
      ∃ report, c.allocator.inner.validate m = .ok report ∧ report.allocatedBlocks = 1 := by
  let config : CacheConfig := { objectSize := 24, pageSize := 256 }
  let fresh : Heap.Session NoGrowth := ⟨{ growth := {} }, Memory.zero, []⟩
  have outcome : (do
      let τ ← (fresh.serve (.addPool ⟨4096, 1024⟩)).toOption
      let τ ← (τ.serve (.malloc 24)).toOption
      let cache ← (Cache.new config (⟨τ.heap⟩ : Borrowed (Heap NoGrowth))).toOption
      let σ ← (Session.serve ⟨cache, τ.memory, [], τ.live⟩ (.cache .alloc)).toOption
      let σ ← (σ.serve (.heap (.malloc 8))).toOption
      let σ ← (σ.serve (.cache .alloc)).toOption
      let τ ← (σ.serve (.heap (.tryFree 4112))).toOption
      return ((σ.blocks.map (·.ptr)), τ.cache.slabCount, τ.objects, τ.blocks)) =
        some ([4416, 4112], 1, [4184, 4152], [⟨4416, 8⟩]) := by
    decide +kernel
  obtain ⟨τ₁, before₁, outcome⟩ := Action.exists_of_bind outcome
  obtain ⟨τ₂, before₂, outcome⟩ := Action.exists_of_bind outcome
  obtain ⟨cache, made, outcome⟩ := Action.exists_of_bind outcome
  obtain ⟨σ₁, run₁, outcome⟩ := Action.exists_of_bind outcome
  obtain ⟨σ₂, run₂, outcome⟩ := Action.exists_of_bind outcome
  obtain ⟨σ₃, run₃, outcome⟩ := Action.exists_of_bind outcome
  obtain ⟨σ₄, run₄, outcome⟩ := Action.exists_of_bind outcome
  obtain ⟨held, slabs, objects, blocks⟩ : σ₃.blocks.map (·.ptr) = [4416, 4112] ∧
      σ₄.cache.slabCount = 1 ∧ σ₄.objects = [4184, 4152] ∧ σ₄.blocks = [⟨4416, 8⟩] := by
    simpa using Option.some.inj outcome
  have first : Heap.Request.Legal NoGrowth.contract fresh (.addPool ⟨4096, 1024⟩) :=
    ⟨⟨by decide, by decide⟩, fun _ => trivial⟩
  have last : Request.Legal NoGrowth.contract σ₃ (.heap (.tryFree 4112)) :=
    List.mem_map.mp (held ▸ by decide : 4112 ∈ σ₃.blocks.map (·.ptr))
  have direct :=
    ((Heap.Reachable.start trivial).serve first before₁).serve (r := .malloc 24) trivial before₂
  have shared : Reachable NoGrowth.contract σ₃ :=
    (((Reachable.start direct made).serve (r := .cache .alloc) trivial run₁).serve
      (r := .heap (.malloc 8)) trivial run₂).serve (r := .cache .alloc) trivial run₃
  obtain ⟨-, -, valid, ⟨report, run, count⟩, -, -, c, m, closed, -, ⟨rest, run', count'⟩, -⟩ :=
    reachable_composed (shared.serve last run₄)
  rw [slabs, blocks] at count
  rw [blocks] at count'
  exact ⟨σ₄, objects, blocks, valid, ⟨report, run, count⟩, c, m, closed, rest, run', count'⟩

end Contract

end LayeredMemory.Shared
