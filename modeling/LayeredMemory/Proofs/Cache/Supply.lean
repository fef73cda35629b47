import LayeredMemory.Proofs.Cache.Ledger
import Mathlib.Algebra.Order.BigOperators.Group.Multiset
import Mathlib.Algebra.Order.Group.Nat

/-!
# Supply — when a cache has no object to give

A cache takes an object from a slab that it has. Where every slot is handed out it adds a slab, if
there may be one more and its allocator has a block for it, and otherwise there is no object. A
request that is denied leaves the cache as it was.

Whether every slot is handed out can be told from the number of objects (`Crowded`), from the slabs
(`InOrder.crowded_iff`) and from the roster (`InOrder.next?_eq_none_iff`).

* `Serves.alloc_supply`: the three ways in which a request for an object ends (`Supply`).
* `reachable_supplies`: when a request fails, and with which fault; when the allocator is asked for
  a block, and that it is asked once.
-/

namespace LayeredMemory.Cache

variable {α : Type} {c : Cache α} {m : Memory} {objs : List Nat}

/-- As many objects are out as there are slots. -/
def Crowded (c : Cache α) : Prop :=
  c.live = c.slabCount * c.perSlab

/-- Every slab is full if there are as many objects as slots. -/
theorem InOrder.crowded_iff (o : c.InOrder m objs) :
    c.Crowded ↔ ∀ id e, c.lookup? id = some e → e.slab.allocated = e.slab.capacity := by
  have le {id : Nat} {e : CacheEntry} (he : c.lookup? id = some e) : e.slab.allocated ≤ c.perSlab :=
    (o.housed.cut he).capacity ▸ (o.housed.sound he).allocated_le
  have slots : (c.registered.map fun _ => c.perSlab).sum = c.slabCount * c.perSlab := by
    rw [Multiset.map_const', Multiset.sum_replicate, o.booked.slabCount_eq, Nat.nsmul_eq_mul]
  unfold Crowded
  rw [o.booked.live, ← slots]
  constructor
  · -- One slab with room would make the sum too small.
    intro all id e he
    rw [(o.housed.cut he).capacity]
    by_contra room
    refine (Multiset.sum_lt_sum (fun d hd => ?_) ⟨e, mem_registered.mpr ⟨id, he⟩, ?_⟩).ne all
    · obtain ⟨j, hd⟩ := mem_registered.mp hd
      exact le hd
    · exact Nat.lt_of_le_of_ne (le he) room
  · intro full
    refine congrArg _ (Multiset.map_congr rfl fun e mem => ?_)
    obtain ⟨id, he⟩ := mem_registered.mp mem
    rw [full id e he, (o.housed.cut he).capacity]

/-- No slab can serve if every slot is handed out. -/
theorem InOrder.next?_eq_none_iff {q : Sequences} (o : c.InOrder m objs)
    (holds : c.roster.Holds q) : q.next? = none ↔ c.Crowded := by
  have full {id : Nat} {e : CacheEntry} (he : c.lookup? id = some e) :=
    o.housed.occupancy_eq_full_iff o.booked.configured he
  rw [Sequences.next?_eq_none_iff, o.crowded_iff]
  constructor
  · rintro ⟨available, empty⟩ id e he
    have listed : id ∈ q e.occupancy := by
      rw [holds.mem_iff, o.booked.place, he]
      rfl
    refine (full he).mp ?_
    cases occupancy : e.occupancy with
    | full => rfl
    | available =>
      rw [occupancy, available] at listed
      cases listed
    | empty =>
      rw [occupancy, empty] at listed
      cases listed
  · intro all
    have none {x : Occupancy} (ne : x ≠ .full) : q x = [] := by
      refine List.eq_nil_iff_forall_not_mem.mpr fun id mem => ?_
      obtain ⟨e, he, rfl⟩ := o.booked.exists_of_placeOf (holds.mem_iff.mp mem)
      exact ne ((full he).mpr (all id e he))
    exact ⟨none nofun, none nofun⟩

/-- There may be no more slabs when there are as many as there may be. -/
theorem Booked.not_extensible_iff (b : c.Booked) :
    ¬c.Extensible ↔ c.config.maxSlabs ≠ 0 ∧ c.slabCount = c.config.maxSlabs := by
  have limit := b.limit
  rw [← b.slabCount_eq] at limit
  unfold Extensible
  omega

variable [Allocator α] {K : AllocatorContract α}

/-- How a request for an object ends: with an object of a slab that the cache has, with one of a new
slab, or with a fault. -/
inductive Supply (c : Cache α) (m : Memory) :
    EStateM.Result Failure (Store (Cache α)) Nat → Prop
  | stocked {p : Nat} {c' : Cache α} {m' : Memory} (room : ¬c.Crowded)
      (same : c'.allocator = c.allocator) : Supply c m (.ok p ⟨c', m'⟩)
  | extended {p : Nat} {b : Block} {c' : Cache α} {m₁ m' : Memory} (crowded : c.Crowded)
      (extensible : c.Extensible)
      (run : Allocator.acquire c.extentLayout ⟨c.allocator, m⟩ = .ok b ⟨c'.allocator, m₁⟩) :
      Supply c m (.ok p ⟨c', m'⟩)
  | denied {f : Fault} {s : Store (Cache α)} (crowded : c.Crowded) (denied : Denied c m f s) :
      Supply c m (.error (.fault f) s)

/-- **A request for an object** ends in one of three ways. -/
theorem Serves.alloc_supply (s : c.Serves K m objs) : Supply c m (alloc ⟨c, m⟩) := by
  obtain ⟨q, holds⟩ := s.booked.roster
  have crowded := s.next?_eq_none_iff holds
  rcases (alloc_spec s holds).cases with
    ⟨p, ⟨c', m'⟩, run, -, taken⟩ | ⟨f, s', run, -, next, denied⟩
  · obtain ⟨id, o, c₁, m₁, q₁, chosen, -, exchanged, -⟩ := taken
    have same : c'.allocator = c₁.allocator := exchanged.dealt.dealings.of_nil.1
    rw [run]
    cases chosen with
    | listed next =>
      exact .stocked (fun full => nomatch next.symm.trans (crowded.mpr full)) same
    | grown next grown =>
      obtain ⟨b, m₂, asked⟩ := grown.asked
      exact .extended (crowded.mp next) grown.extensible (same ▸ asked)
  · rw [run]
    exact .denied (crowded.mp next) denied

namespace Supply

variable {r : EStateM.Result Failure (Store (Cache α)) Nat}

/-- The limit is the reason if every slot is out and there may be no more slabs. -/
theorem exhausted_iff (h : Supply c m r) :
    (∃ s, r = .error (.fault (.cacheExhausted c.config.maxSlabs c.perSlab)) s) ↔
      c.Crowded ∧ ¬c.Extensible := by
  cases h with
  | stocked room => simp [room]
  | extended _ extensible => simp [extensible]
  | denied crowded denied =>
    cases denied with
    | exhausted limit => simp [crowded, limit]
    | refused extensible => simp [extensible, Layout.outOfMemory]

/-- The allocator is the reason if it was asked and failed. -/
theorem outOfMemory_iff (h : Supply c m r) :
    (∃ s, r = .error (.fault c.extentLayout.outOfMemory) s) ↔
      c.Crowded ∧ c.Extensible ∧
        ∃ f s, Allocator.acquire c.extentLayout ⟨c.allocator, m⟩ = .error (.fault f) s := by
  cases h with
  | stocked room => simp [room]
  | extended _ _ run => simp [run]
  | denied crowded denied =>
    cases denied with
    | exhausted limit => simp [limit, Layout.outOfMemory]
    | refused extensible run => simp [crowded, extensible, run]

/-- In every other case there is an object. -/
theorem ok_iff (h : Supply c m r) :
    (∃ p s, r = .ok p s) ↔ ¬c.Crowded ∨ c.Extensible ∧
      ∃ b s, Allocator.acquire c.extentLayout ⟨c.allocator, m⟩ = .ok b s := by
  cases h with
  | stocked room => simp [room]
  | extended _ extensible run => simp [extensible, run]
  | denied crowded denied =>
    cases denied with
    | exhausted limit => simp [crowded, limit]
    | refused extensible run => simp [crowded, run]

theorem denied_of_error {e : Failure} {s : Store (Cache α)} (h : Supply c m (.error e s)) :
    ∃ f, e = .fault f ∧ Denied c m f s := by
  cases h with
  | denied _ denied => exact ⟨_, rfl, denied⟩

/-- The allocator is asked for a block once, if every slot is out and there may be one more slab,
and otherwise it is not asked. With a block there is an object. -/
theorem asked {c : Cache (Watched α)} {r : EStateM.Result Failure (Store (Cache (Watched α))) Nat}
    (h : Supply c m r) :
    (c.Crowded ∧ c.Extensible → ∃ block : Option Block,
        (Action.final r).part.allocator.calls =
            .acquire c.extentLayout block :: c.allocator.calls ∧
          (block ≠ none ↔ ∃ p s, r = .ok p s)) ∧
      (¬(c.Crowded ∧ c.Extensible) → (Action.final r).part.allocator = c.allocator) := by
  cases h with
  | stocked room same => exact ⟨fun ⟨full, _⟩ => (room full).elim, fun _ => same⟩
  | extended crowded extensible run =>
    exact ⟨fun _ => ⟨_, Watched.calls_of_ok run, by simp⟩,
      fun no => (no ⟨crowded, extensible⟩).elim⟩
  | denied crowded denied =>
    cases denied with
    | exhausted limit => exact ⟨fun ⟨_, more⟩ => (limit more).elim, fun _ => rfl⟩
    | refused extensible run =>
      exact ⟨fun _ => ⟨_, Watched.calls_of_fault run, by simp⟩,
        fun no => (no ⟨crowded, extensible⟩).elim⟩

end Supply

variable {σ : Session α} {n : Nat}

/-- **A cache fails only when it must.** After every run, there are as many objects as slots exactly
if every slab is full. Only then can a request for an object fail:

* with the limit as the reason exactly if there are as many slabs as there may be;
* as out of memory, with the size of a page and the alignment of a word, exactly if there may be one
  more slab and the allocator fails to give a block for it, whatever its fault.

In every other case there is an object. A request that fails leaves the cache as it was, all its
slabs, sequences and counts, and memory as the allocator left it.

The calls of the allocator, which can be watched without changing anything, tell that it is asked
for a block, with the layout of the cache, exactly if every slot is out and there may be one more
slab, and then once. -/
theorem reachable_supplies (reachable : Reachable K n σ) :
    (σ.cache.Crowded ↔
        ∀ id e, σ.cache.lookup? id = some e → e.slab.allocated = e.slab.capacity) ∧
      ((∃ s, alloc ⟨σ.cache, σ.memory⟩ =
          .error (.fault (.cacheExhausted σ.cache.config.maxSlabs σ.cache.perSlab)) s) ↔
        σ.cache.config.maxSlabs ≠ 0 ∧ σ.cache.slabCount = σ.cache.config.maxSlabs ∧
          σ.cache.Crowded) ∧
      ((∃ s, alloc ⟨σ.cache, σ.memory⟩ =
          .error (.fault (.outOfMemory σ.cache.config.pageSize 8)) s) ↔
        σ.cache.Crowded ∧ σ.cache.Extensible ∧ ∃ f s,
          Allocator.acquire σ.cache.extentLayout ⟨σ.cache.allocator, σ.memory⟩ =
            .error (.fault f) s) ∧
      ((∃ p s, alloc ⟨σ.cache, σ.memory⟩ = .ok p s) ↔
        ¬σ.cache.Crowded ∨ σ.cache.Extensible ∧ ∃ b s,
          Allocator.acquire σ.cache.extentLayout ⟨σ.cache.allocator, σ.memory⟩ = .ok b s) ∧
      (∀ e s, alloc ⟨σ.cache, σ.memory⟩ = .error e s →
        ∃ f, e = .fault f ∧ Denied σ.cache σ.memory f s) ∧
      (∃ w, Observed K n w ∧ w.unwatched = σ) ∧
      ∀ w, Observed K n w → w.unwatched = σ →
        alloc ⟨σ.cache, σ.memory⟩ = Action.through unwatched (alloc ⟨w.cache, w.memory⟩) ∧
        (σ.cache.Crowded ∧ σ.cache.Extensible → ∃ block : Option Block,
          (Action.final (alloc ⟨w.cache, w.memory⟩)).part.allocator.calls =
              .acquire σ.cache.extentLayout block :: w.cache.allocator.calls ∧
            (block ≠ none ↔ ∃ p s, alloc ⟨w.cache, w.memory⟩ = .ok p s)) ∧
        (¬(σ.cache.Crowded ∧ σ.cache.Extensible) →
          (Action.final (alloc ⟨w.cache, w.memory⟩)).part.allocator.calls =
            w.cache.allocator.calls) := by
  have serves := reachable.sound.1.serves
  have supply := serves.alloc_supply
  have layout : σ.cache.extentLayout.outOfMemory = .outOfMemory σ.cache.config.pageSize 8 := by
    unfold Layout.outOfMemory
    rw [serves.booked.configured.size_eq, serves.booked.configured.align_eq]
  refine ⟨serves.crowded_iff, ?_, layout ▸ supply.outOfMemory_iff, supply.ok_iff,
    fun e s run => (run ▸ supply).denied_of_error, reachable.exists_observed, ?_⟩
  · rw [supply.exhausted_iff, serves.booked.not_extensible_iff]
    tauto
  · rintro w observed rfl
    have asked := observed.ledger.1.serves.alloc_supply.asked
    exact ⟨alloc_shadows w.cache w.memory, asked.1, fun no => congrArg _ (asked.2 no)⟩

theorem reachable_supplies_full : ∃ (σ : Session (Heap NoGrowth))
    (s : Store (Cache (Heap NoGrowth))), σ.live.length = 2 ∧
    alloc ⟨σ.cache, σ.memory⟩ = .error (.fault (.cacheExhausted 1 2)) s := by
  obtain ⟨D, m₀, σ, reachable, seen⟩ := exists_reachable_over_heap
    { objectSize := 24, pageSize := 64, maxSlabs := 1 } [.alloc, .alloc]
    (fun σ => [σ.live.length, σ.cache.config.maxSlabs, σ.cache.slabCount, σ.cache.perSlab,
      σ.cache.live]) (by decide) (by decide +kernel : _ = some [2, 1, 1, 2, 2])
  simp only [List.cons.injEq, and_true] at seen
  obtain ⟨live, limit, slabs, slots, count⟩ := seen
  have crowded : σ.cache.Crowded := by
    unfold Crowded
    rw [count, slabs, slots]
  obtain ⟨-, exhausted, -⟩ := reachable_supplies reachable
  rw [limit, slots] at exhausted
  obtain ⟨s, run⟩ := exhausted.mpr ⟨by decide, slabs, crowded⟩
  exact ⟨σ, s, live, run⟩

end LayeredMemory.Cache
