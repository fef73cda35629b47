import LayeredMemory.Proofs.Cache.Session

/-!
# Caches as allocators — they honour the contract

A cache that serves layers above may serve direct clients as well. A lease is one object, whatever
its layout asks for, so layers above and direct clients hold objects of one kind: a cache with
leases out serves the objects of direct clients and those that the leases are (`Hosts`). As an
allocator it honours the contract, and never touches an object of a direct client
(`Cache.contract`).
-/

namespace LayeredMemory

/-- Where leases start. -/
def pointers (L : Multiset Lease) : Multiset Nat :=
  L.map fun l => l.block.ptr

theorem pointers_cons (l : Lease) (L : Multiset Lease) :
    pointers (l ::ₘ L) = l.block.ptr ::ₘ pointers L :=
  Multiset.map_cons _ l L

namespace Cache

variable {α : Type} {c c' : Cache α} {m m' : Memory} {p : Nat} {objs objs' : List Nat}
  {L L' : Multiset Lease} {l : Lease}

/-! ### Objects as blocks -/

namespace InOrder

/-- Objects are real memory. -/
theorem room_valid (o : c.InOrder m objs) (hp : p ∈ objs) : (c.room p).Valid := by
  obtain ⟨large, id, e, he, taken⟩ := o.exists_slot hp
  have stride := o.booked.configured.object_le
  have fits := (o.housed.sound he).shaped.slot_lt taken.1
  rw [(o.housed.cut he).stride] at fits
  exact ⟨by dsimp only [room]; omega, by dsimp only [room]; omega⟩

end InOrder

theorem rooms_eq (c : Cache α) (objs : List Nat) :
    c.rooms objs = (objs : Multiset Nat).map c.room := by
  unfold rooms
  rw [Multiset.map_coe]

theorem rooms_congr (config : c'.config = c.config) (objs : List Nat) :
    c'.rooms objs = c.rooms objs := by
  unfold rooms room
  rw [config]

variable [Allocator α] {K : AllocatorContract α} {σ : Session α}

/-- **Writing into objects** is no matter of the cache. -/
theorem Serves.frame (s : c.Serves K m objs) (changed : m.ChangedIn m' (c.rooms objs)) :
    c.Serves K m' objs := by
  obtain ⟨gone, ready, none⟩ := s.ready
  refine ⟨s.toInOrder.frame fun _ x _ off => changed x fun f hf => ?_, gone,
    K.frame ready fun x off => changed x fun f hf hx => ?_, none⟩
  · obtain ⟨p, hp, rfl⟩ := List.mem_map.mp (Multiset.mem_coe.mp hf)
    exact off p hp
  · -- An object lies in a slab, and a slab in a lease of the cache.
    obtain ⟨p, hp, rfl⟩ := List.mem_map.mp (Multiset.mem_coe.mp hf)
    obtain ⟨id, e, he, -, inside⟩ := s.mem_extent hp hx
    exact off _ (leased_subset (Multiset.le_add_left ..) (mem_leased s.housed he)) inside

/-! ### Leases -/

/-- Leases are whole objects. -/
def Whole (c : Cache α) (L : Multiset Lease) : Prop :=
  ∀ l ∈ L, l.block.len = c.config.objectSize

omit [Allocator α] in
theorem Whole.extent_eq (whole : c.Whole L) (hl : l ∈ L) : l.extent = c.room l.block.ptr := by
  show (⟨l.block.ptr, l.block.len⟩ : Extent) = ⟨l.block.ptr, c.config.objectSize⟩
  rw [whole l hl]

omit [Allocator α] in
/-- The bytes of the objects that some leases are, and of others. -/
theorem Whole.map_room (whole : c.Whole L) (D : List Nat) :
    (pointers L + D).map c.room = leased L + c.rooms D := by
  rw [Multiset.map_add, c.rooms_eq, pointers, Multiset.map_map]
  exact congrArg (· + _) (Multiset.map_congr rfl fun l hl => (whole.extent_eq hl).symm)

omit [Allocator α] in
theorem Whole.rooms_eq (whole : c.Whole L) {D : List Nat}
    (all : (objs : Multiset Nat) = pointers L + D) : c.rooms objs = leased L + c.rooms D := by
  rw [c.rooms_eq, all, whole.map_room]

/-- A cache with some leases out, and the objects `D` of direct clients, whose bytes are as in
`m₀`. -/
structure Hosts (K : AllocatorContract α) (D : List Nat) (k : CacheConfig) (m₀ : Memory)
    (c : Cache α) (m : Memory) (L : Multiset Lease) : Prop where
  serves : ∃ objs : List Nat, c.Serves K m objs ∧ (objs : Multiset Nat) = pointers L + D
  config : c.config = k
  direct : m₀.Keeps m (c.rooms D)
  whole : c.Whole L

namespace Hosts

variable {D : List Nat} {k : CacheConfig} {m₀ : Memory}

/-- Before anybody above has a lease. -/
theorem start (serves : c.Serves K m D) : c.Hosts K D c.config m m 0 :=
  ⟨⟨D, serves, (zero_add _).symm⟩, rfl, .refl _ _,
    fun _ none => (Multiset.notMem_zero _ none).elim⟩

/-- **A lease is apart** from the others, and from direct clients' objects. -/
theorem apart (hosts : c.Hosts K D k m₀ m (l ::ₘ L)) {f : Extent}
    (hf : f ∈ leased L + c.rooms D) : f.Apart l.extent := by
  obtain ⟨objs, serves, all⟩ := hosts.serves
  have whole : c.Whole L := fun k hk => hosts.whole k (Multiset.mem_cons_of_mem hk)
  rw [pointers_cons, Multiset.cons_add] at all
  rw [← whole.map_room] at hf
  obtain ⟨q, hq, rfl⟩ := Multiset.mem_map.mp hf
  have nodup := serves.objects.nodup
  rw [← Multiset.coe_nodup, all, Multiset.nodup_cons] at nodup
  have mem {p : Nat} : p ∈ objs ↔ p ∈ l.block.ptr ::ₘ (pointers L + D) := by
    rw [← all, Multiset.mem_coe]
  rw [hosts.whole.extent_eq (Multiset.mem_cons_self l L)]
  exact serves.room_apart (mem.mpr (Multiset.mem_cons_of_mem hq))
    (mem.mpr (Multiset.mem_cons_self ..)) fun same => nodup.1 (same ▸ hq)

theorem frame (hosts : c.Hosts K D k m₀ m L) (changed : m.ChangedIn m' (leased L)) :
    c.Hosts K D k m₀ m' L := by
  obtain ⟨objs, serves, all⟩ := hosts.serves
  refine ⟨⟨objs, serves.frame (changed.mono ?_), all⟩, hosts.config,
    hosts.direct.trans fun f hf x hx => changed x fun g hg hx' => ?_, hosts.whole⟩
  · rw [hosts.whole.rooms_eq all]
    exact Multiset.subset_of_le (Multiset.le_add_right ..)
  · obtain ⟨l, hl, rfl⟩ := Multiset.mem_map.mp hg
    obtain ⟨M, rfl⟩ := Multiset.exists_cons_of_mem hl
    exact (hosts.apart (Multiset.mem_add.mpr (.inr hf))).not_mem hx hx'

/-- A lease among others is what it promises. -/
theorem fits (hosts : c.Hosts K D k m₀ m (l ::ₘ L)) (aligned : l.layout.align ∣ 8)
    (size : l.layout.size ≤ c.config.objectSize) : l.Fits L := by
  obtain ⟨objs, serves, all⟩ := hosts.serves
  have here := Multiset.mem_cons_self l L
  have hp : l.block.ptr ∈ objs := by
    rw [← Multiset.mem_coe, all, pointers_cons, Multiset.cons_add]
    exact Multiset.mem_cons_self ..
  refine ⟨?_, ?_, aligned.trans (serves.dvd_object hp), fun k hk =>
    hosts.apart (Multiset.mem_add.mpr (.inl (Multiset.mem_map_of_mem _ hk)))⟩
  · rw [hosts.whole.extent_eq here]
    exact serves.room_valid hp
  · rwa [hosts.whole l here]

/-- After an operation of the cache that left some leases and all direct clients alone. -/
theorem served (hosts : c.Hosts K D k m₀ m L) {P : List Nat} {n n' : Nat}
    (w : Served K n n' c m P c' m' objs) (stay : (P : Multiset Nat) = pointers L' + D)
    (whole : c.Whole L') {M : Multiset Lease} (all : (objs : Multiset Nat) = pointers M + D)
    (whole' : c.Whole M) : m.Keeps m' (leased L') ∧ c'.Hosts K D k m₀ m' M := by
  have kept : m.Keeps m' (leased L' + c.rooms D) := whole.rooms_eq stay ▸ keeps_rooms w.keeps
  have direct : m.Keeps m' (c.rooms D) :=
    kept.mono (Multiset.subset_of_le (Multiset.le_add_left ..))
  refine ⟨kept.mono (Multiset.subset_of_le (Multiset.le_add_right ..)),
    ⟨_, w.serves, all⟩, w.config.trans hosts.config, ?_, ?_⟩
  · rw [rooms_congr w.config]
    exact hosts.direct.trans direct
  · unfold Whole
    rw [w.config]
    exact whole'

/-- **A layout becomes a lease**, unless there is no room or it is refused. -/
theorem acquire (hosts : c.Hosts K D k m₀ m L) (layout : Layout) :
    Action.Meets (Allocator.acquire layout) ⟨c, m⟩
      (fun b s => Lease.Fits ⟨b, layout⟩ L ∧ m.Keeps s.memory (leased L) ∧
        Hosts K D k m₀ s.part s.memory (⟨b, layout⟩ ::ₘ L))
      (fun _ s => m.Keeps s.memory (leased L) ∧ Hosts K D k m₀ s.part s.memory L) := by
  obtain ⟨objs, serves, all⟩ := hosts.serves
  obtain ⟨q, holds⟩ := serves.booked.roster
  show Action.Meets (Action.ofExcept (layout.validateUpTo Word.bytes) >>= fun _ =>
    Action.part >>= fun c : Cache α => _) _ _ _
  cases valid : layout.validateUpTo Word.bytes with
  | error f => exact .fault ⟨.refl m _, hosts⟩
  | ok u =>
    have checked : Action.ofExcept (.ok u) (⟨c, m⟩ : Store (Cache α)) = .ok u ⟨c, m⟩ := rfl
    refine .step checked (.part ?_)
    by_cases large : c.config.objectSize < layout.size
    · rw [if_pos large]
      exact .fault ⟨.refl m _, hosts⟩
    rw [if_neg large]
    refine .bind ((alloc_spec serves holds).mono (fun _ _ answer => answer)
      fun _ _ ⟨w, _⟩ => hosts.served w all hosts.whole all hosts.whole) ?_
    rintro p ⟨c', m'⟩ ⟨w, -⟩
    let l : Lease := ⟨⟨p, c.config.objectSize⟩, layout⟩
    have whole : c.Whole (l ::ₘ L) := Multiset.forall_mem_cons.mpr ⟨rfl, hosts.whole⟩
    have all' : ((p :: objs : List Nat) : Multiset Nat) = pointers (l ::ₘ L) + D := by
      rw [pointers_cons, Multiset.cons_add, ← all, Multiset.cons_coe]
    obtain ⟨keeps, after⟩ := hosts.served w all hosts.whole all' whole
    have aligned : l.layout.align ∣ 8 :=
      l.layout.align_dvd (k := 3) (Layout.validateUpTo_eq_ok_iff.mp valid).2
    exact .pure ⟨after.fits aligned (w.config ▸ Nat.le_of_not_lt large), keeps, after⟩

/-- **A lease comes back.** -/
theorem release (hosts : c.Hosts K D k m₀ m (l ::ₘ L)) :
    Action.Meets (Allocator.release l.block.ptr l.layout) ⟨c, m⟩
      (fun _ s => m.Keeps s.memory (leased L) ∧ Hosts K D k m₀ s.part s.memory L)
      (fun _ _ => False) := by
  obtain ⟨objs, serves, all⟩ := hosts.serves
  obtain ⟨q, holds⟩ := serves.booked.roster
  rw [pointers_cons, Multiset.cons_add] at all
  have hp : l.block.ptr ∈ objs := by
    rw [← Multiset.mem_coe, all]
    exact Multiset.mem_cons_self ..
  have rest : (objs.erase l.block.ptr : List Nat) = pointers L + (D : Multiset Nat) := by
    rw [← Multiset.coe_erase, all, Multiset.erase_cons_head]
  have whole : c.Whole L := fun k hk => hosts.whole k (Multiset.mem_cons_of_mem hk)
  exact (free_spec serves holds hp).mono (fun _ _ ⟨w, _⟩ => hosts.served w rest whole rest whole)
    fun _ _ never => never

end Hosts

/-- **A cache honours the contract** of an allocator, and leaves direct clients alone. -/
def contract (K : AllocatorContract α) (D : List Nat) (k : CacheConfig) (m₀ : Memory) :
    AllocatorContract (Cache α) where
  Ready := Hosts K D k m₀
  frame := Hosts.frame
  acquire layout hosts _ := hosts.acquire layout
  release _ hosts _ := hosts.release

end Cache

end LayeredMemory
