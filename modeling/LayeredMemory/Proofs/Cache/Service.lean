import LayeredMemory.Proofs.Cache.Change
import LayeredMemory.Proofs.Cache.Policy
import LayeredMemory.Proofs.Cache.Refusal
import LayeredMemory.Proofs.Layer.Dealings

/-!
# Caches — what they serve

A cache `Serves` some objects when it is in order, these are the objects that are out, and its
allocator is in order and has the blocks of the slabs out. `Served` is what every operation of a
cache does: it serves some objects again, and those it is not about stayed, with their owner
headers. Its dealings with the allocator are on record, and its counters count them (`Dealt`). The
record alone shows that the allocator is in order again (`Serves.after`).

One specification for each operation:

* `releaseSlab_spec`, `evict_spec`, `evictAbove_spec`: giving empty slabs back;
* `grow_spec`, `chooseSlab_spec`: finding a slab with room, or none;
* `alloc_spec`, `free_spec`, `tryFree_spec`, `shrink_spec`: what clients ask for;
* `close_spec`: the end of a cache.
-/

namespace LayeredMemory.Cache

variable {α : Type} {c c' c'' : Cache α} {m m' m'' : Memory} {id a p : Nat} {e : CacheEntry}
  {s : Slab} {objs objs' P P' : List Nat} {n k : Nat}

theorem onSlab_of_ok {β : Type} {x : Action Slab β} {r : β} {s : Slab}
    (run : x ⟨e.slab, m⟩ = .ok r ⟨s, m'⟩) :
    onSlab id e x ⟨c, m⟩ = .ok (r, .classify s.allocated s.capacity) ⟨c.setSlab id s, m'⟩ := by
  unfold onSlab
  refine Action.within_of_ok ?_
  rw [Action.bind_of_ok run]
  rfl

/-- A slab that fails as it was is put back as it was. -/
theorem onSlab_of_error {β : Type} {x : Action Slab β} {f : Failure} (he : c.lookup? id = some e)
    (run : x ⟨e.slab, m⟩ = .error f ⟨e.slab, m'⟩) :
    onSlab id e x ⟨c, m⟩ = .error f ⟨c, m'⟩ := by
  have failed : onSlab id e x ⟨c, m⟩ = .error f ⟨c.setSlab id e.slab, m'⟩ :=
    Action.within_of_error (Action.bind_of_error run)
  rw [failed, setSlab_self he]

/-- What runs on the allocator changes nothing else of the cache. -/
theorem below_meets {β : Type} {x : Action α β} {Q : β → Store α → Prop}
    {R : Fault → Store α → Prop} (h : Action.Meets x ⟨c.allocator, m⟩ Q R) :
    Action.Meets (below x) ⟨c, m⟩
      (fun r s => ∃ a, s.part = { c with allocator := a } ∧ Q r ⟨a, s.memory⟩)
      (fun f s => ∃ a, s.part = { c with allocator := a } ∧ R f ⟨a, s.memory⟩) := by
  unfold below
  exact h.within (fun _ a _ answer => ⟨a, rfl, answer⟩) fun _ a _ fault => ⟨a, rfl, fault⟩

variable [Allocator α] {K : AllocatorContract α}

/-- The cache serves these objects. Leases that it could not give back are gone. -/
structure Serves (K : AllocatorContract α) (c : Cache α) (m : Memory) (objs : List Nat) : Prop
    extends InOrder c m objs where
  ready : ∃ gone, K.Ready c.allocator m (gone + c.leases) ∧ (K.TakesBack → gone = 0)

/-- The counters of a cache count its dealings. -/
structure Tally (k : CacheCounters) (es : List Dealing) (k' : CacheCounters) : Prop where
  acquired : k'.acquired = k.acquired + es.countP Dealing.isAcquired
  released : k'.released = k.released + es.countP Dealing.isReleased
  abandoned : k'.abandoned = k.abandoned + es.countP Dealing.isAbandoned

/-- What an operation of a cache had to do with its allocator, while the objects in `P` were out. -/
structure Dealt (c : Cache α) (m : Memory) (P : List Nat) (c' : Cache α) (m' : Memory)
    (es : List Dealing) : Prop where
  dealings : Dealings c.extentLayout (· ∈ c.rooms P) ⟨c.allocator, m, c.leases⟩ es
    ⟨c'.allocator, m', c'.leases⟩
  layout : c'.extentLayout = c.extentLayout
  tally : Tally c.counters es c'.counters

/-- Before and after an operation of a cache that handed out `n` objects and registered at most `k`
slabs: the cache serves `objs`, and the objects in `P` and their owner headers stayed. -/
structure Served (K : AllocatorContract α) (n k : Nat) (c : Cache α) (m : Memory) (P : List Nat)
    (c' : Cache α) (m' : Memory) (objs : List Nat) : Prop where
  serves : c'.Serves K m' objs
  keeps : m.Keeps m' (c.cells P)
  config : c'.config = c.config
  allocs : c'.counters.allocs = c.counters.allocs + n
  acquired : c'.counters.acquired ≤ c.counters.acquired + k
  dealt : ∃ es, Dealt c m P c' m' es

omit [Allocator α] in
theorem Tally.refl (k : CacheCounters) : Tally k [] k :=
  ⟨rfl, rfl, rfl⟩

omit [Allocator α] in
theorem Tally.trans {k k' k'' : CacheCounters} {es es' : List Dealing} (t : Tally k es k')
    (t' : Tally k' es' k'') : Tally k (es ++ es') k'' := by
  constructor
  · rw [t'.acquired, t.acquired, List.countP_append, Nat.add_assoc]
  · rw [t'.released, t.released, List.countP_append, Nat.add_assoc]
  · rw [t'.abandoned, t.abandoned, List.countP_append, Nat.add_assoc]

theorem Dealt.trans {es es' : List Dealing} (d : Dealt c m P c' m' es)
    (d' : Dealt c' m' P c'' m'' es') (config : c'.config = c.config) :
    Dealt c m P c'' m'' (es ++ es') := by
  have rooms : c'.rooms P = c.rooms P := by
    unfold rooms room
    rw [config]
  have next := d'.dealings
  rw [d.layout, rooms] at next
  exact ⟨d.dealings.trans next, d'.layout.trans d.layout, d.tally.trans d'.tally⟩

theorem Dealt.mono {es : List Dealing} (d : Dealt c m P c' m' es) (sub : P' ⊆ P) :
    Dealt c m P' c' m' es :=
  ⟨d.dealings.mono fun _ hf => Multiset.coe_subset.mpr (List.map_subset _ sub) hf, d.layout,
    d.tally⟩

namespace Served

theorem refl (s : c.Serves K m objs) : Served K 0 k c m P c m objs :=
  ⟨s, .refl m _, rfl, rfl, Nat.le_add_right .., [], .nil _, rfl, .refl _⟩

theorem trans {n' k' : Nat} (w : Served K n k c m P c' m' objs')
    (w' : Served K n' k' c' m' P c'' m'' objs) :
    Served K (n + n') (k + k') c m P c'' m'' objs := by
  have cells : c'.cells P = c.cells P := by
    unfold cells cell
    rw [w.config]
  have := w.acquired
  have := w'.acquired
  obtain ⟨es, d⟩ := w.dealt
  obtain ⟨es', d'⟩ := w'.dealt
  refine ⟨w'.serves, w.keeps.trans (cells ▸ w'.keeps), w'.config.trans w.config, ?_, by omega, _,
    d.trans d' w.config⟩
  rw [w'.allocs, w.allocs, Nat.add_assoc]

end Served

omit [Allocator α] in
/-- What happens in a slot happens in a lease. -/
theorem Housed.changedIn_slot (h : c.Housed m) (he : c.lookup? id = some e)
    (slot : e.slab.HasSlot a) (changed : m.ChangedWithin m' a (a + c.stride)) :
    m.ChangedIn m' (leased c.leases) := by
  have bounds := (h.sound he).shaped.slot_bounds slot
  rw [(h.cut he).stride] at bounds
  exact changed.changedIn (mem_leased h he) bounds.2.1 bounds.2.2

namespace Serves

/-- The allocator is in order after whatever the cache had to do with it. -/
theorem after {es : List Dealing} (s : c.Serves K m objs) (d : Dealt c m P c' m' es)
    (order : c'.InOrder m' objs') : c'.Serves K m' objs' := by
  obtain ⟨gone, ready, all⟩ := s.ready
  have pos := s.booked.configured.layout_pos
  refine ⟨order, _, d.dealings.ready pos ready, fun always => ?_⟩
  rw [all always, add_zero, ← Multiset.card_eq_zero, Dealing.card_sum_left]
  exact d.dealings.not_abandoned pos ready always

/-- **Writing into an object** is no matter of the cache, nor of the other objects. -/
theorem write {lo hi : Nat} (s : c.Serves K m objs) (hp : p ∈ objs)
    (changed : m.ChangedWithin m' lo hi) (le : p ≤ lo) (le' : hi ≤ p + c.config.objectSize) :
    Served K 0 k c m (objs.erase p) c m' objs := by
  obtain ⟨large, id, e, he, taken⟩ := s.exists_slot hp
  have stride := s.booked.configured.object_le
  have inside : m.ChangedWithin m' (p - 8) (p - 8 + c.stride) := changed.mono (by omega) (by omega)
  have order : c.InOrder m' objs := s.frame fun _ x _ off => changed x (by
    have off := off p hp
    rw [Extent.mem_iff] at off
    dsimp only [room] at off
    omega)
  have dealt : Dealt c m (objs.erase p) c m' [] :=
    ⟨.of_changedIn (s.housed.changedIn_slot he taken.1 inside), rfl, .refl _⟩
  refine ⟨s.after dealt order, s.keeps_others he taken.1 inside List.erase_subset ?_, rfl, rfl,
    Nat.le_add_right .., [], dealt⟩
  rw [Nat.sub_add_cancel large]
  exact s.objects.nodup.not_mem_erase

/-- **A slab that changes** in one slot, and nothing else: the other objects stay, and the allocator
is not asked. -/
theorem exchanged {k' : CacheCounters} {n' : Nat} (w : c.Serves K m objs)
    (he : c.lookup? id = some e) (slot : e.slab.HasSlot a)
    (changed : m.ChangedWithin m' a (a + c.stride))
    (order : (c.exchanging id s n' k').InOrder m' objs') (same : s.extent = e.slab.extent)
    (sub : P ⊆ objs) (off : a + 8 ∉ P) (allocs : k'.allocs = c.counters.allocs + n)
    (tally : Tally c.counters [] k') :
    Served K n k c m P (c.exchanging id s n' k') m' objs' := by
  have leases : (c.exchanging id s n' k').leases = c.leases := leases_exchanging he same
  have dealt : Dealt c m P (c.exchanging id s n' k') m' [] := by
    refine ⟨?_, rfl, tally⟩
    rw [leases]
    exact .of_changedIn (w.housed.changedIn_slot he slot changed)
  exact ⟨w.after dealt order, w.keeps_others he slot changed sub off, rfl, allocs,
    tally.acquired.le.trans (Nat.le_add_right ..), [], dealt⟩

end Serves

/-! ### Giving slabs back -/

/-- The slabs `ids` were struck off, and their leases let go one after the other in this order. -/
structure Struck (c : Cache α) (m : Memory) (P ids : List Nat) (c' : Cache α) (m' : Memory) :
    Prop where
  lookup? : ∀ j, c'.lookup? j = if j ∈ ids then none else c.lookup? j
  live : c'.live = c.live
  config : c'.config = c.config
  dealt : ∃ es, Dealt c m P c' m' es ∧ es.map Dealing.lets = ids.map fun j =>
    (c.lookup? j).map c.lease

namespace Struck

theorem refl (c : Cache α) (m : Memory) (P : List Nat) : Struck c m P [] c m :=
  ⟨fun _ => rfl, rfl, rfl, [], ⟨.nil _, rfl, .refl _⟩, rfl⟩

theorem cons {ids : List Nat} (first : Struck c m P [id] c' m')
    (rest : Struck c' m' P ids c'' m'') (new : id ∉ ids) : Struck c m P (id :: ids) c'' m'' := by
  obtain ⟨es, dealt, lets⟩ := first.dealt
  obtain ⟨es', dealt', lets'⟩ := rest.dealt
  have lease : c'.lease = c.lease := by
    unfold Cache.lease
    rw [dealt.layout]
  refine ⟨fun j => ?_, rest.live.trans first.live, rest.config.trans first.config, _,
    dealt.trans dealt' first.config, ?_⟩
  · rw [rest.lookup?, first.lookup?]
    by_cases here : j = id
    · simp [here]
    · simp [here]
  · rw [List.map_append, lets, lets', lease, List.map_cons, List.map_cons, List.map_nil,
      List.singleton_append]
    refine congrArg _ (List.map_congr_left fun j hj => ?_)
    have ne : j ∉ [id] := fun here => new (List.mem_singleton.mp here ▸ hj)
    rw [first.lookup?, if_neg ne]

end Struck

/-- **Giving a block back**, or abandoning it where the allocator takes none. -/
theorem releaseBlock_spec {L H : Multiset Lease} {b : Block} {busy : Extent → Prop}
    (ready : K.Ready c.allocator m (⟨b, c.extentLayout⟩ ::ₘ L))
    (vacant : ∀ f, busy f → f.Apart b.extent) :
    Action.Meets (releaseBlock b.ptr) ⟨c, m⟩
      (fun _ s' => ∃ x k d, s'.part = { c with allocator := x, counters := k } ∧
        k.allocs = c.counters.allocs ∧ k.frees = c.counters.frees ∧
        k.acquired = c.counters.acquired ∧
        k.released + k.abandoned = c.counters.released + c.counters.abandoned + 1 ∧
        m.Keeps s'.memory (leased L) ∧ Tally c.counters [d] k ∧
        d.lets = some ⟨b, c.extentLayout⟩ ∧
        Dealings c.extentLayout busy ⟨c.allocator, m, ⟨b, c.extentLayout⟩ ::ₘ H⟩ [d]
          ⟨x, s'.memory, H⟩)
      (fun _ _ => False) := by
  unfold releaseBlock
  refine .part ?_
  by_cases can : Allocator.canRelease c.allocator = true
  · rw [if_pos can]
    have released := below_meets (K.release ⟨b, c.extentLayout⟩ ready can).traced
    refine .bind (released.mono (fun _ _ answer => answer) fun _ _ ⟨_, _, _, never⟩ => never) ?_
    rintro _ ⟨_, m'⟩ ⟨x, rfl, run, kept, -⟩
    refine .finish ⟨x, _, .released ⟨b, c.extentLayout⟩, rfl, rfl, rfl, rfl, ?_, kept,
      ⟨rfl, rfl, rfl⟩, rfl, .of_takes (.release can vacant run)⟩
    dsimp only
    omega
  · rw [if_neg can]
    exact .finish ⟨c.allocator, _, .abandoned ⟨b, c.extentLayout⟩, rfl, rfl, rfl, rfl, rfl,
      .refl m _, ⟨rfl, rfl, rfl⟩, rfl, .of_takes (.abandon (Bool.not_eq_true _ ▸ can) vacant)⟩

/-- **Striking an empty slab off.** -/
theorem releaseSlab_spec (s : c.Serves K m objs) (he : c.lookup? id = some e)
    (idle : e.slab.allocated = 0) :
    Action.Meets (releaseSlab id) ⟨c, m⟩
      (fun _ s' => Served K 0 0 c m objs s'.part s'.memory objs ∧
        Struck c m objs [id] s'.part s'.memory ∧ s'.part.roster = c.roster.remove id)
      (fun _ _ => False) := by
  obtain ⟨gone, ready, -⟩ := s.ready
  have listed : ({ c with roster := c.roster.remove id } : Cache α).lookup? id = some e := he
  have acquired := s.booked.acquired
  unfold releaseSlab
  refine .modifyPart (.part ?_)
  rw [listed]
  refine .modifyPart ?_
  -- The slab is off the books before its block goes back, and no object is in it.
  change Action.Meets (releaseBlock (c.lease e).block.ptr) ⟨c.striking id c.counters, m⟩ _ _
  rw [leases_striking (k := c.counters) he, Multiset.add_cons] at ready
  have vacant : ∀ f, f ∈ c.rooms objs → f.Apart (c.lease e).extent := by
    intro f hf
    obtain ⟨p, hp, rfl⟩ := List.mem_map.mp (Multiset.mem_coe.mp hf)
    rw [lease_extent s.housed he]
    exact s.apart_of_idle he idle hp
  have released := releaseBlock_spec (K := K) (c := c.striking id c.counters)
    (b := (c.lease e).block) (H := (c.striking id c.counters).leases) ready vacant
  refine released.mono ?_ fun _ _ never => never
  rintro _ ⟨c', m'⟩ ⟨x, k, d, rfl, allocs, frees, acquired', count, kept, tally, lets, dealings⟩
  obtain ⟨order, -⟩ := s.strike (k := k) he idle (by
    rw [allocs, frees]
    exact s.booked.allocs) (by
    rw [acquired', count]
    dsimp only [striking]
    omega)
  have kept : m.Keeps m' (leased (c.striking id k).leases) :=
    kept.mono (leased_subset (Multiset.le_add_left ..))
  have dealt : Dealt c m objs { c.striking id k with allocator := x } m' [d] := by
    refine ⟨?_, rfl, tally⟩
    rw [leases_striking (k := c.counters) he]
    exact dealings
  refine ⟨⟨s.after dealt ((order.kept kept).with_allocator x), order.keeps kept, rfl, allocs,
    Nat.le_of_eq acquired', _, dealt⟩, ⟨fun j => ?_, rfl, rfl, _, dealt, ?_⟩, rfl⟩
  · simp only [List.mem_singleton]
    exact (swapped_striking (k := k) he).lookup?_eq
  · rw [List.map_singleton, List.map_singleton, lets, he]
    rfl

/-- **Striking empty slabs off**, as many as are asked for, the first on the sequence to begin
with. -/
theorem evict_spec {q : Sequences} (s : c.Serves K m objs) (holds : c.roster.Holds q)
    (le : n ≤ (q .empty).length) :
    Action.Meets (evict n) ⟨c, m⟩
      (fun _ s' => Served K 0 0 c m objs s'.part s'.memory objs ∧
        Struck c m objs ((q .empty).take n) s'.part s'.memory ∧ s'.part.roster.Holds (q.drop n))
      (fun _ _ => False) := by
  induction n generalizing c m q with
  | zero => exact .pure ⟨.refl s, .refl c m objs, Sequences.drop_zero ▸ holds⟩
  | succ n ih =>
    obtain ⟨id, rest, split⟩ := List.exists_cons_of_length_pos (by omega : 0 < (q .empty).length)
    have front : c.roster.front .empty = some id := by rw [holds.front_eq, split, List.head?_cons]
    obtain ⟨e, he, empty⟩ := s.booked.exists_of_placeOf (holds.placeOf_front front)
    unfold evict
    refine .part ?_
    rw [front]
    refine .bind (releaseSlab_spec s he (Occupancy.classify_eq_empty_iff.mp empty)) ?_
    rintro _ ⟨c₁, m₁⟩ ⟨w, struck, roster⟩
    dsimp only at w struck roster
    have holds' : c₁.roster.Holds (q.drop 1) := roster ▸ holds.evict split
    have rest_eq : q.drop 1 .empty = rest := by rw [Sequences.drop_empty, split, List.drop_one,
      List.tail_cons]
    have new : id ∉ rest := (List.nodup_cons.mp (split ▸ holds.nodup .empty)).1
    rw [split, List.length_cons] at le
    refine (ih w.serves holds' (rest_eq ▸ Nat.le_of_succ_le_succ le)).mono ?_ fun _ _ never => never
    rintro _ s' ⟨w', struck', left⟩
    rw [rest_eq] at struck'
    rw [split, List.take_succ_cons]
    rw [Sequences.drop_drop, Nat.add_comm] at left
    exact ⟨w.trans w', struck.cons struck' fun mem => new (List.mem_of_mem_take mem), left⟩

/-- **Striking empty slabs off** until some are left. -/
theorem evictAbove_spec {q : Sequences} (s : c.Serves K m objs) (holds : c.roster.Holds q)
    (keep : Nat) :
    Action.Meets (evictAbove keep) ⟨c, m⟩
      (fun _ s' => Served K 0 0 c m objs s'.part s'.memory objs ∧
        Struck c m objs (q.spare keep) s'.part s'.memory ∧ s'.part.roster.Holds (q.trim keep))
      (fun _ _ => False) := by
  unfold evictAbove
  refine .part ?_
  rw [holds.length_eq]
  exact evict_spec s holds (Nat.sub_le ..)

/-! ### Finding a slab with room -/

/-- There may be one more slab. -/
def Extensible (c : Cache α) : Prop :=
  c.config.maxSlabs = 0 ∨ c.slabCount < c.config.maxSlabs

omit [Allocator α] in
theorem limit_iff : c.config.maxSlabs ≠ 0 ∧ c.config.maxSlabs ≤ c.slabCount ↔ ¬c.Extensible := by
  unfold Extensible
  omega

/-- Why there is no slab with room: there may be no more, or the allocator has no block for one.
Either way the cache is left as it was, and so is memory but for what the allocator did. -/
inductive Denied (c : Cache α) (m : Memory) : Fault → Store (Cache α) → Prop
  | exhausted (limit : ¬c.Extensible) :
      Denied c m (.cacheExhausted c.config.maxSlabs c.perSlab) ⟨c, m⟩
  | refused {x : α} {m' : Memory} {f : Fault} (extensible : c.Extensible)
      (run : Allocator.acquire c.extentLayout ⟨c.allocator, m⟩ = .error (.fault f) ⟨x, m'⟩) :
      Denied c m c.extentLayout.outOfMemory ⟨{ c with allocator := x }, m'⟩

theorem Denied.exists_part {f : Fault} {s : Store (Cache α)} (h : Denied c m f s) :
    ∃ x, s.part = { c with allocator := x } := by
  cases h with
  | exhausted => exact ⟨c.allocator, rfl⟩
  | refused => exact ⟨_, rfl⟩

theorem acquireBlock_of_ok {b : Block} {x : α}
    (run : Allocator.acquire c.extentLayout ⟨c.allocator, m⟩ = .ok b ⟨x, m'⟩) :
    acquireBlock ⟨c, m⟩ = .ok b ⟨{ c with allocator := x }, m'⟩ := by
  have below_run : below (Allocator.acquire c.extentLayout) ⟨c, m⟩ =
      .ok b ⟨{ c with allocator := x }, m'⟩ := Action.within_of_ok run
  unfold acquireBlock
  rw [Action.part_bind, Action.bind_of_ok (Action.attempt_of_ok below_run)]
  rfl

theorem acquireBlock_of_error {f : Failure} {x : α}
    (run : Allocator.acquire c.extentLayout ⟨c.allocator, m⟩ = .error f ⟨x, m'⟩) :
    ∃ g, acquireBlock ⟨c, m⟩ = .error g ⟨{ c with allocator := x }, m'⟩ := by
  have below_run : below (Allocator.acquire c.extentLayout) ⟨c, m⟩ =
      .error f ⟨{ c with allocator := x }, m'⟩ := Action.within_of_error run
  unfold acquireBlock
  rw [Action.part_bind]
  cases f with
  | fault f =>
    rw [Action.bind_of_ok (Action.attempt_of_fault below_run)]
    exact ⟨_, rfl⟩
  | stop k => exact ⟨_, Action.bind_of_error (Action.attempt_of_stop below_run)⟩

/-- **A block for one more slab**, or none. -/
theorem acquireBlock_spec (s : c.Serves K m objs) :
    Action.Meets acquireBlock ⟨c, m⟩
      (fun b s' => ∃ x, s'.part = { c with allocator := x } ∧
        Allocator.acquire c.extentLayout ⟨c.allocator, m⟩ = .ok b ⟨x, s'.memory⟩ ∧
        Lease.Fits ⟨b, c.extentLayout⟩ c.leases ∧ m.Keeps s'.memory (leased c.leases))
      (fun f s' => Served K 0 0 c m objs s'.part s'.memory objs ∧
        f = c.extentLayout.outOfMemory ∧ ∃ g x, s'.part = { c with allocator := x } ∧
          Allocator.acquire c.extentLayout ⟨c.allocator, m⟩ =
            .error (.fault g) ⟨x, s'.memory⟩) := by
  obtain ⟨gone, ready, -⟩ := s.ready
  have others {m' : Memory} (kept : m.Keeps m' (leased (gone + c.leases))) :
      m.Keeps m' (leased c.leases) :=
    kept.mono (leased_subset (Multiset.le_add_left ..))
  have some := s.booked.configured.layout_pos
  unfold acquireBlock
  refine .part (.bind (below_meets (K.acquire c.extentLayout ready some).traced).attempt ?_)
  rintro (f | b) ⟨c₁, m₁⟩ outcome
  · obtain ⟨x, rfl, run, kept, -⟩ := outcome
    have dealt : Dealt c m objs { c with allocator := x } m₁ [.refused] :=
      ⟨.of_takes (.refuse run), rfl, ⟨rfl, rfl, rfl⟩⟩
    have order := (s.kept (others kept)).with_allocator x
    exact .fault ⟨⟨s.after dealt order, s.keeps (others kept), rfl, rfl, Nat.le_refl _, _, dealt⟩,
      rfl, f, x, rfl, run⟩
  · obtain ⟨x, rfl, run, fits, kept, -⟩ := outcome
    have apart : ∀ l ∈ c.leases, l.extent.Apart b.extent := fun l hl =>
      fits.apart l (Multiset.mem_add.mpr (.inr hl))
    exact .pure ⟨x, rfl, run, ⟨fits.valid, fits.size_le, fits.aligned, apart⟩, others kept⟩

omit [Allocator α] in
theorem register_run : register e ⟨c, m⟩ = .ok c.nextId ⟨c.registering e, m⟩ := rfl

theorem initSlab_of_ok {b : Block}
    (run : Slab.init b.extent c.stride c.perSlab ⟨c, m⟩ = .ok s ⟨c, m'⟩) :
    initSlab b ⟨c, m⟩ = .ok s ⟨c, m'⟩ := by
  unfold initSlab
  rw [Action.part_bind, Action.bind_of_ok (Action.attempt_of_ok run)]
  rfl

omit [Allocator α] in
/-- **A block that is long enough** is cut into slots. -/
theorem Configured.init_spec {σ : Type} {b : Block} (k : c.Configured) (valid : b.extent.Valid)
    (aligned : 8 ∣ b.ptr) (long : c.extentLayout.size ≤ b.len) (p : σ) (m : Memory) :
    ∃ s m', Slab.init b.extent c.stride c.perSlab ⟨p, m⟩ = .ok s ⟨p, m'⟩ ∧ s.Sound m' ∧
      s.allocated = 0 ∧ s.extent = b.extent ∧ c.Cut ⟨s, b.ptr⟩ ∧
      m.ChangedWithin m' b.ptr (b.ptr + b.len) := by
  have stride_le : 8 ≤ c.stride := by have := k.object_le; omega
  obtain ⟨head, m', run, sound, changed⟩ := Slab.init_spec p m valid aligned k.stride_dvd stride_le
    k.perSlab_pos (k.room.trans long)
  exact ⟨_, m', run, sound, rfl, rfl, ⟨rfl, rfl, rfl, aligned⟩, changed⟩

/-- **A block that fits its layout** serves as a slab. -/
theorem initSlab_spec {b : Block} {L : Multiset Lease} (k : c.Configured)
    (fits : Lease.Fits ⟨b, c.extentLayout⟩ L) :
    ∃ s m', initSlab b ⟨c, m⟩ = .ok s ⟨c, m'⟩ ∧ s.Sound m' ∧ s.allocated = 0 ∧ s.extent = b.extent ∧
      c.Cut ⟨s, b.ptr⟩ ∧ m.ChangedWithin m' b.ptr (b.ptr + b.len) := by
  obtain ⟨s, m', run, made⟩ :=
    k.init_spec fits.valid (k.align_eq ▸ fits.aligned) fits.size_le c m
  exact ⟨s, m', initSlab_of_ok run, made⟩

/-- The slab `id` was registered, in a lease that was acquired for it. -/
structure Grown (c : Cache α) (m : Memory) (P : List Nat) (id : Nat) (c' : Cache α) (m' : Memory) :
    Prop where
  extensible : c.Extensible
  asked : ∃ b m₁, Allocator.acquire c.extentLayout ⟨c.allocator, m⟩ = .ok b ⟨c'.allocator, m₁⟩
  vacant : c.lookup? id = none
  elsewhere : ∀ j ≠ id, c'.lookup? j = c.lookup? j
  dealt : ∃ e, c'.lookup? id = some e ∧ e.slab.allocated = 0 ∧
    Dealt c m P c' m' [.acquired (c.lease e)]

/-- **Adding a slab**, all of it empty, or none. -/
theorem grow_spec {q : Sequences} (s : c.Serves K m objs) (holds : c.roster.Holds q) :
    Action.Meets grow ⟨c, m⟩
      (fun id s' => Served K 0 1 c m objs s'.part s'.memory objs ∧
        Grown c m objs id s'.part s'.memory ∧ s'.part.roster.Holds (q.insert id))
      (fun f s' => Served K 0 0 c m objs s'.part s'.memory objs ∧ Denied c m f s') := by
  unfold grow
  refine .part ?_
  by_cases more : c.Extensible
  case neg =>
    rw [if_pos (limit_iff.mpr more)]
    exact .fault ⟨.refl s, .exhausted more⟩
  rw [if_neg fun full => limit_iff.mp full more]
  refine .bind ((acquireBlock_spec s).mono (fun _ _ answer => answer) ?_) ?_
  · rintro _ ⟨_, m₁⟩ ⟨w, rfl, g, x, rfl, run⟩
    exact ⟨w, .refused more run⟩
  rintro b ⟨_, m₁⟩ ⟨x, rfl, acquired, fits, kept⟩
  dsimp only at acquired kept
  have order := (s.kept kept).with_allocator x
  obtain ⟨slab, m₂, run, sound, fresh, extent, cut, changed⟩ :=
    initSlab_spec (m := m₁) order.booked.configured fits
  refine .step run (.of_ok register_run ?_)
  -- The new block is apart from all others, so cutting it changes none of them.
  have others : m₁.Keeps m₂ (leased c.leases) := fits.keeps changed
  obtain ⟨order, -⟩ := (order.kept others).register cut sound fresh
    (fun l hl => extent ▸ fits.apart l hl) fun some => by
      have count := s.booked.slabCount_eq
      have room : c.registered.card < c.config.maxSlabs := by
        rw [← count]
        exact more.resolve_left some
      exact room
  have lease : ({ c with allocator := x } : Cache α).lease ⟨slab, b.ptr⟩ = ⟨b, c.extentLayout⟩ := by
    unfold Cache.lease
    rw [extent]
    rfl
  have leases : (({ c with allocator := x } : Cache α).registering ⟨slab, b.ptr⟩).leases =
      ⟨b, c.extentLayout⟩ ::ₘ c.leases := by
    rw [(s.booked.with_allocator x).leases_registering, lease]
    rfl
  have inside : m₁.ChangedIn m₂ (leased (⟨b, c.extentLayout⟩ ::ₘ c.leases)) :=
    changed.changedIn (Multiset.mem_map_of_mem _ (Multiset.mem_cons_self _ _)) (Nat.le_refl _)
      (Nat.le_refl _)
  have dealt : Dealt c m objs (({ c with allocator := x } : Cache α).registering ⟨slab, b.ptr⟩) m₂
      [.acquired ⟨b, c.extentLayout⟩] := by
    refine ⟨?_, rfl, ⟨rfl, rfl, rfl⟩⟩
    rw [leases]
    exact .cons (.acquire acquired) (.of_changedIn inside)
  have w := (s.booked.with_allocator x).swapped_registering (e := ⟨slab, b.ptr⟩)
  have vacant : c.lookup? c.nextId = none := s.booked.lookup?_nextId
  have out : c.roster.placeOf c.nextId = none := by rw [s.booked.place, vacant]; rfl
  refine ⟨⟨s.after dealt order, s.keeps (kept.trans others), rfl, rfl, Nat.le_refl _, _, dealt⟩,
    ⟨more, ⟨b, m₁, acquired⟩, vacant, fun j ne => w.lookup?_elsewhere ne, _, w.lookup?_here, fresh,
      ?_⟩, holds.insert out⟩
  exact lease.symm ▸ dealt

/-- The slab that serves next: one that is listed, or else a new one. -/
inductive Chosen (c : Cache α) (m : Memory) (P : List Nat) (q : Sequences) (id : Nat) :
    Cache α → Memory → Sequences → Prop
  | listed (next : q.next? = some id) : Chosen c m P q id c m q
  | grown {c' : Cache α} {m' : Memory} (next : q.next? = none) (grown : Grown c m P id c' m') :
      Chosen c m P q id c' m' (q.insert id)

/-- **A slab with room** is at hand, or can be added, or there is none. -/
theorem chooseSlab_spec {q : Sequences} (s : c.Serves K m objs) (holds : c.roster.Holds q) :
    Action.Meets chooseSlab ⟨c, m⟩
      (fun id s' => Served K 0 1 c m objs s'.part s'.memory objs ∧
        (∃ e, s'.part.lookup? id = some e ∧ e.slab.allocated < e.slab.capacity) ∧
        ∃ q', Chosen c m objs q id s'.part s'.memory q' ∧ s'.part.roster.Holds q')
      (fun f s' => Served K 0 0 c m objs s'.part s'.memory objs ∧ q.next? = none ∧
        Denied c m f s') := by
  unfold chooseSlab
  refine .part ?_
  rw [holds.next_eq]
  cases next : q.next? with
  | some id =>
    obtain ⟨e, he, room⟩ : ∃ e, c.lookup? id = some e ∧ e.slab.allocated < e.slab.capacity := by
      obtain ⟨o, mem, busy⟩ := Sequences.exists_of_next? next
      obtain ⟨e, he, rfl⟩ := s.booked.exists_of_placeOf (holds.mem_iff.mp mem)
      have full := s.housed.occupancy_eq_full_iff s.booked.configured he
      exact ⟨e, he, Nat.lt_of_le_of_ne (s.housed.sound he).allocated_le (full.not.mp busy)⟩
    exact .pure ⟨.refl s, ⟨e, he, room⟩, q, .listed next, holds⟩
  | none =>
    refine (grow_spec s holds).mono ?_ fun _ _ ⟨w, denied⟩ => ⟨w, rfl, denied⟩
    rintro id ⟨c₁, m₁⟩ ⟨w, grown, holds'⟩
    obtain ⟨e, he, idle, -⟩ := grown.dealt
    refine ⟨w, ⟨e, he, ?_⟩, _, .grown next grown, holds'⟩
    rw [idle, (w.serves.housed.cut he).capacity]
    exact w.serves.booked.configured.perSlab_pos

/-! ### Handing objects out -/

/-- The slab `id` changed, and is as full as `o` now. The allocator was not asked. -/
structure Exchanged (c : Cache α) (m : Memory) (P : List Nat) (id : Nat) (o : Occupancy)
    (c' : Cache α) (m' : Memory) : Prop where
  entry : ∃ e s, c.lookup? id = some e ∧ c'.lookup? id = some { e with slab := s } ∧
    s.extent = e.slab.extent ∧ .classify s.allocated s.capacity = o
  elsewhere : ∀ j ≠ id, c'.lookup? j = c.lookup? j
  config : c'.config = c.config
  dealt : Dealt c m P c' m' []

/-- **A slab that changes** in one slot, as its cache and the roster see it. -/
theorem Serves.exchanging {q : Sequences} {k : CacheCounters} {n : Nat} (w : c.Serves K m objs)
    (holds : c.roster.Holds q) (he : c.lookup? id = some e) (slot : e.slab.HasSlot a)
    (changed : m.ChangedWithin m' a (a + c.stride)) (same : s.extent = e.slab.extent)
    (tally : Tally c.counters [] k) :
    Exchanged c m P id (.classify s.allocated s.capacity) (c.exchanging id s n k) m' ∧
      (c.exchanging id s n k).roster.Holds (q.move id (.classify s.allocated s.capacity)) := by
  have swapped := swapped_exchanging (s := s) (n := n) (k := k) he
  have leases : (c.exchanging id s n k).leases = c.leases := leases_exchanging he same
  refine ⟨⟨⟨e, s, he, swapped.lookup?_here, same, rfl⟩, fun j ne => swapped.lookup?_elsewhere ne,
    rfl, ?_, rfl, tally⟩, holds.relink _ _⟩
  rw [leases]
  exact .of_changedIn (w.housed.changedIn_slot he slot changed)

/-- **Handing an object out**, from a slab with room. -/
theorem alloc_spec {q : Sequences} (s : c.Serves K m objs) (holds : c.roster.Holds q) :
    Action.Meets alloc ⟨c, m⟩
      (fun p s' => Served K 1 1 c m objs s'.part s'.memory (p :: objs) ∧
        ∃ id o c₁ m₁ q₁, Chosen c m objs q id c₁ m₁ q₁ ∧ c₁.config = c.config ∧
          Exchanged c₁ m₁ objs id o s'.part s'.memory ∧ o ≠ .empty ∧
          s'.part.roster.Holds (q₁.move id o) ∧
          ∃ e, s'.part.lookup? id = some e ∧ e.slab.Taken s'.memory (p - header))
      (fun f s' => Served K 0 0 c m objs s'.part s'.memory objs ∧ q.next? = none ∧
        Denied c m f s') := by
  unfold alloc
  refine .bind (chooseSlab_spec s holds) ?_
  rintro id ⟨c₁, m₁⟩ ⟨w, ⟨e, he, room⟩, q₁, chosen, holds₁⟩
  dsimp only at w he chosen holds₁
  have order := w.serves.toInOrder
  have stride := order.booked.configured.object_le
  have named : id < Word.bound :=
    Nat.lt_of_lt_of_le (lt_size_of_lookup? he) order.booked.size_le
  obtain ⟨slot, head, run, has, out, sound, taken⟩ := (order.housed.sound he).alloc room
  refine .part ?_
  rw [he]
  refine .step (onSlab_of_ok run) (.writeWord ?_)
  obtain ⟨m₂, filled, inside⟩ := c₁.config.allocPattern.fill_run (slot + 8) c₁.config.objectSize
    (c₁.setSlab id { e.slab with freeHead := head, allocated := e.slab.allocated + 1 })
    (m₁.writeWord slot id)
  refine .step filled (.modifyPart (.pure ?_))
  have changed : m₁.ChangedWithin m₂ slot (slot + c₁.stride) :=
    ((m₁.changedWithin_writeWord slot id).mono (Nat.le_refl _) (by omega)).trans
      (inside.mono (by omega) (by omega))
  have header : m₂.readWord slot = id := by
    rw [inside.readWord (.inl (Nat.le_refl _)), Memory.readWord_writeWord named]
  have after := order.take he has out changed header sound taken
  have fresh : slot + 8 ∉ objs := (List.nodup_cons.mp after.objects.nodup).1
  have step := w.serves.exchanged (k := 0) he has changed after rfl (List.Subset.refl objs) fresh
    rfl ⟨rfl, rfl, rfl⟩
  obtain ⟨exchanged, moved⟩ := w.serves.exchanging (P := objs) (n := c₁.live + 1)
    (k := { c₁.counters with allocs := c₁.counters.allocs + 1 })
    (s := { e.slab with freeHead := head, allocated := e.slab.allocated + 1 }) holds₁ he has changed
    rfl ⟨rfl, rfl, rfl⟩
  have busy : Occupancy.classify (e.slab.allocated + 1) e.slab.capacity ≠ .empty := fun same =>
    Nat.succ_ne_zero _ (Occupancy.classify_eq_empty_iff.mp same)
  have here := (swapped_exchanging (n := c₁.live + 1)
    (k := { c₁.counters with allocs := c₁.counters.allocs + 1 })
    (s := { e.slab with freeHead := head, allocated := e.slab.allocated + 1 }) he).lookup?_here
  have lies := (after.mem_iff_taken here (p := slot + 8) has).mp List.mem_cons_self
  exact ⟨w.trans step, id, _, c₁, m₁, q₁, chosen, w.config, exchanged, busy, moved, _, here, lies⟩

/-! ### Taking objects back -/

/-- What follows when a slab became as full as `x`: if it is empty, some empty slabs may have to
go. -/
theorem trim_spec {q : Sequences} {x : Occupancy} {keep : Nat}
    (w : Served K 0 0 c m objs c' m' objs) (holds : c'.roster.Holds q) :
    Action.Meets (match x with | .empty => evictAbove keep | _ => return ()) ⟨c', m'⟩
      (fun _ s' => Served K 0 0 c m objs s'.part s'.memory objs ∧
        ∃ gone q', Move.Trims keep q x gone q' ∧ Struck c' m' objs gone s'.part s'.memory ∧
          s'.part.roster.Holds q')
      (fun _ _ => False) := by
  cases x with
  | empty =>
    refine (evictAbove_spec w.serves holds keep).mono ?_ fun _ _ never => never
    rintro _ s' ⟨w', struck, left⟩
    exact ⟨w.trans w', _, _, .empty, struck, left⟩
  | available => exact .pure ⟨w, [], q, .busy nofun, .refl .., holds⟩
  | full => exact .pure ⟨w, [], q, .busy nofun, .refl .., holds⟩

/-- The slab of the object `p` took it back, and then some empty slabs left. -/
def Returned (c : Cache α) (m : Memory) (P : List Nat) (p : Nat) (q : Sequences) (c' : Cache α)
    (m' : Memory) : Prop :=
  ∃ id o c₁ m₁ gone q', (∃ e, c.lookup? id = some e ∧ e.slab.Taken m (p - header)) ∧
    Exchanged c m P id o c₁ m₁ ∧ Move.Trims c.config.highWater (q.move id o) o gone q' ∧
    Struck c₁ m₁ P gone c' m' ∧ c'.roster.Holds q'

/-- **Taking an object back.** Of the slabs that are empty then, no more are kept than may be. -/
theorem free_spec {q : Sequences} (s : c.Serves K m objs) (holds : c.roster.Holds q)
    (hp : p ∈ objs) :
    Action.Meets (free p) ⟨c, m⟩
      (fun _ s' => Served K 0 0 c m (objs.erase p) s'.part s'.memory (objs.erase p) ∧
        Returned c m (objs.erase p) p q s'.part s'.memory)
      (fun _ _ => False) := by
  obtain ⟨large, id, e, he, taken⟩ := s.exists_slot hp
  obtain ⟨a, rfl⟩ : ∃ a, p = a + 8 := ⟨p - 8, by omega⟩
  rw [Nat.add_sub_cancel] at taken
  have lies : ∃ e, c.lookup? id = some e ∧ e.slab.Taken m (a + 8 - header) := ⟨e, he, taken⟩
  have some : 0 < c.live := s.objects.length ▸ List.length_pos_of_mem hp
  have named : m.readWord (a + 8 - header) = id := s.housed.owner he taken
  unfold free
  refine .part (.memory ?_)
  dsimp only
  rw [named, he]
  -- The pattern fills the object, which is still the client's then.
  obtain ⟨m₁, filled, inside⟩ := c.config.deallocPattern.fill_run (a + 8) c.config.objectSize c m
  have w : Served K 0 0 c m (objs.erase (a + 8)) c m₁ objs :=
    s.write hp inside (Nat.le_refl _) (Nat.le_refl _)
  have order := w.serves.toInOrder
  have stride := order.booked.configured.object_le
  have taken : e.slab.Taken m₁ a := (order.mem_iff_taken he (p := a + 8) taken.1).mp hp
  obtain ⟨run, sound, free⟩ := (order.housed.sound he).free_spec taken
  have less : Word.sub c.live 1 = .ok (c.live - 1) := Word.sub_eq_ok_iff.mpr ⟨some, rfl⟩
  refine .step filled (.step (onSlab_of_ok run) (.modifyPart (.lift less (.modifyPart ?_))))
  have changed := m₁.changedWithin_writeWord a e.slab.freeHead
  have after := order.give he taken changed sound free
  have slot : m₁.ChangedWithin (m₁.writeWord a e.slab.freeHead) a (a + c.stride) :=
    changed.mono (Nat.le_refl a) (by omega)
  have step := w.serves.exchanged (k := 0) (n := 0) he taken.1 slot after rfl List.erase_subset
    order.objects.nodup.not_mem_erase rfl ⟨rfl, rfl, rfl⟩
  have written : m.ChangedWithin (m₁.writeWord a e.slab.freeHead) a (a + c.stride) :=
    (inside.mono (by omega) (by omega)).trans slot
  obtain ⟨exchanged, moved⟩ := s.exchanging (P := objs.erase (a + 8)) (n := c.live - 1)
    (k := { c.counters with frees := c.counters.frees + 1 })
    (s := { e.slab with freeHead := a, allocated := e.slab.allocated - 1 }) holds he taken.1 written
    rfl ⟨rfl, rfl, rfl⟩
  refine (trim_spec (w.trans step) moved).mono ?_ fun _ _ never => never
  rintro _ s' ⟨w', gone, q', trims, struck, left⟩
  exact ⟨w', id, _, _, _, gone, q', lies, exchanged, trims, struck, left⟩

/-- **Taking back whatever is an object.** Every other address is refused, and nothing happens. -/
theorem tryFree_spec {q : Sequences} (s : c.Serves K m objs) (holds : c.roster.Holds q) (p : Nat) :
    Action.Meets (tryFree p) ⟨c, m⟩
      (fun _ s' => p ∈ objs ∧
        Served K 0 0 c m (objs.erase p) s'.part s'.memory (objs.erase p) ∧
        Returned c m (objs.erase p) p q s'.part s'.memory)
      (fun _ s' => p ∉ objs ∧ s' = ⟨c, m⟩) := by
  unfold tryFree
  refine .part (.memory ?_)
  rcases s.refusal?_cases p with ⟨accepted, hp⟩ | ⟨reason, refused, unfit⟩
  · rw [accepted]
    exact (free_spec s holds hp).mono (fun _ _ freed => ⟨hp, freed⟩) fun _ _ never => never.elim
  · rw [refused]
    exact .fault ⟨unfit.not_mem s.toInOrder, rfl⟩

/-- **Giving every empty slab back.** -/
theorem shrink_spec {q : Sequences} (s : c.Serves K m objs) (holds : c.roster.Holds q) :
    Action.Meets shrink ⟨c, m⟩
      (fun _ s' => Served K 0 0 c m objs s'.part s'.memory objs ∧
        Struck c m objs (q.spare 0) s'.part s'.memory ∧ s'.part.roster.Holds (q.trim 0))
      (fun _ _ => False) :=
  evictAbove_spec s holds 0

/-! ### The end of a cache -/

theorem releaseAll_spec (always : K.TakesBack) {L : Multiset Lease} (es : List CacheEntry)
    (ready : K.Ready c.allocator m (L + (es.map c.lease : List Lease))) :
    Action.Meets (releaseAll c.extentLayout (es.map (·.block))) ⟨c, m⟩
      (fun _ s' => ∃ x, s'.part = { c with allocator := x } ∧ K.Ready x s'.memory L ∧
        Dealings c.extentLayout (fun _ => False)
          ⟨c.allocator, m, (es.map c.lease : List Lease)⟩ ((es.map c.lease).map .released)
          ⟨x, s'.memory, 0⟩)
      (fun _ _ => False) := by
  induction es generalizing c m with
  | nil =>
    refine .pure ⟨c.allocator, rfl, ?_, .nil _⟩
    rwa [List.map_nil, Multiset.coe_nil, add_zero] at ready
  | cons e es ih =>
    rw [List.map_cons, ← Multiset.cons_coe, Multiset.add_cons] at ready
    have can := always _ _ _ ready
    have released := below_meets (K.release (c.lease e) ready can).traced
    unfold releaseAll
    refine .bind (released.mono (fun _ _ answer => answer) fun _ _ ⟨_, _, _, never⟩ => never) ?_
    rintro _ ⟨_, m'⟩ ⟨x, rfl, run, -, after⟩
    have step : Dealing.Takes c.extentLayout (fun _ => False) (.released (c.lease e))
        ⟨c.allocator, m, c.lease e ::ₘ (es.map c.lease : List Lease)⟩
        ⟨x, m', (es.map c.lease : List Lease)⟩ := .release can nofun run
    exact (ih (c := { c with allocator := x }) after).mono
      (fun _ s' ⟨y, same, rest, dealings⟩ => ⟨y, same, rest, .cons step dealings⟩)
      fun _ _ never => never

/-- **Closing a cache** over an allocator that takes blocks back: every lease of it is released, and
none stays out. -/
theorem close_spec (s : c.Serves K m objs) (always : K.TakesBack) :
    Action.Meets close ⟨c, m⟩
      (fun _ s' => ∃ x, ∃ ls : List Lease, s'.part = { c with allocator := x } ∧ ls = c.leases ∧
        K.Ready x s'.memory 0 ∧ Dealings c.extentLayout (fun _ => False)
          ⟨c.allocator, m, c.leases⟩ (ls.map .released) ⟨x, s'.memory, 0⟩)
      (fun _ _ => False) := by
  obtain ⟨gone, ready, all⟩ := s.ready
  have blocks : (c.slabs.toList.filterMap fun e => e.map (·.block)) =
      c.slabs.toList.reduceOption.map (·.block) := by
    unfold List.reduceOption
    rw [List.map_filterMap]
    rfl
  unfold close
  refine .part ?_
  rw [if_pos (always _ _ _ ready), blocks]
  rw [all always] at ready
  refine (releaseAll_spec always (K := K) (L := 0) _ ready).mono ?_ fun _ _ never => never
  rintro _ ⟨_, m'⟩ ⟨x, rfl, after, dealings⟩
  exact ⟨x, _, rfl, rfl, after, dealings⟩

/-- **Closing a cache** over an allocator that takes nothing back is doing nothing. -/
theorem close_run (never : Allocator.canRelease c.allocator = false) :
    close ⟨c, m⟩ = .ok () ⟨c, m⟩ := by
  unfold close
  rw [Action.part_bind, never]
  rfl

end LayeredMemory.Cache
