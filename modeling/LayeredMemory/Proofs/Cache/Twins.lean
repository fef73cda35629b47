import LayeredMemory.Proofs.Cache.Service
import LayeredMemory.Proofs.Layer.Pair
import LayeredMemory.Proofs.Slab.Stack

/-!
# Twins — caches that differ in what they fill

Two caches over allocators that answer alike, the same but for their patterns, have the same slabs
and the same free slots in the same order. Their memories differ in every object that either of them
filled, and wherever clients or the allocators wrote something else. Nothing of that tells `Twins`
apart: what a cache reads of memory are links and owner headers, which lie in no object while they
count.

* `chains`: the free slots of all slabs, in order. What happens in objects changes none, and what
  happens in one slab changes that of this slab alone.
* `Alike.refusal?_eq`: what is checked of an address is found alike.
* `Twins.alloc`, `Twins.free` and their neighbours: every operation runs in lockstep on both, with
  the same answer or the same fault, and leaves twins.
-/

namespace LayeredMemory

/-- The same configuration with other patterns. -/
def CacheConfig.filling (config : CacheConfig) (fresh stale : Pattern) : CacheConfig :=
  { config with allocPattern := fresh, deallocPattern := stale }

namespace Cache

open LayeredMemory.Action (Lockstep)

variable {α β : Type} {c : Cache α} {d : Cache β} {c' : Cache α} {m m' n n' : Memory}
  {id a p : Nat} {e : CacheEntry} {o : Option CacheEntry} {s : Slab} {rest objs objs' : List Nat}
  {live : Nat} {k : CacheCounters} {y z : β} {x : α} {f g : Pattern}

/-! ### Free slots -/

/-- The free slots of each slab, the next one first. -/
def chains (c : Cache α) (m : Memory) (id : Nat) : Option (List Nat) :=
  (c.lookup? id).map fun e => e.slab.freeChain m

theorem chains_of_lookup? (he : c.lookup? id = some e) :
    c.chains m id = some (e.slab.freeChain m) := by
  unfold chains
  rw [he, Option.map_some]

/-- **What happens in objects** changes no free list. -/
theorem InOrder.chains_frame (order : c.InOrder m objs)
    (same : ∀ {id e}, c.lookup? id = some e → ∀ x ∈ e.slab.extent, (∀ p ∈ objs, x ∉ c.room p) →
      m'.read x = m.read x) :
    c.chains m' = c.chains m := by
  funext id
  cases he : c.lookup? id with
  | none => unfold chains; rw [he]; rfl
  | some e =>
    have sound := order.housed.sound he
    rw [chains_of_lookup? he, chains_of_lookup? he, sound.freeChain_congr fun a ha => ?_]
    exact order.housed.readWord_slot order.booked.configured he (sound.free.slots a ha)
      fun x hx off => same he x hx fun _ => order.not_mem_room he hx off

theorem InOrder.chains_kept (order : c.InOrder m objs) (kept : m.Keeps m' (leased c.leases)) :
    c.chains m' = c.chains m :=
  order.chains_frame fun he x hx _ => kept _ (mem_leased order.housed he) x hx

/-- **What happens in one slab** changes the free list of this slab alone. -/
theorem Housed.chains_swapped (h : c.Housed m) (w : Swapped c id o c')
    (keep : ∀ {j d}, c.lookup? j = some d → j ≠ id → ∀ x ∈ d.slab.extent, m'.read x = m.read x) :
    c'.chains m' = Function.update (c.chains m) id (o.map fun e => e.slab.freeChain m') := by
  funext j
  rw [Function.update_apply]
  unfold chains
  rw [w.lookup?_eq]
  split
  · rfl
  · next ne =>
    cases hd : c.lookup? j with
    | none => rfl
    | some d =>
      have sound := h.sound hd
      rw [Option.map_some, Option.map_some, sound.freeChain_congr fun a ha => ?_]
      exact h.readWord_of_keep hd (keep hd ne) (sound.free.slots a ha)

/-- Writing into an object is no matter of the cache, and happens in a lease. -/
theorem InOrder.write (order : c.InOrder m objs) (hp : p ∈ objs)
    (changed : m.ChangedWithin m' p (p + c.config.objectSize)) :
    c.InOrder m' objs ∧ c.chains m' = c.chains m ∧ m.ChangedIn m' (leased c.leases) := by
  obtain ⟨large, id, e, he, taken⟩ := order.exists_slot hp
  have stride := order.booked.configured.object_le
  have off {x : Nat} (off : ∀ q ∈ objs, x ∉ c.room q) : m'.read x = m.read x := changed x (by
    have off := off p hp
    rw [Extent.mem_iff] at off
    dsimp only [room] at off
    omega)
  exact ⟨order.frame fun _ _ _ => off, order.chains_frame fun _ _ _ => off,
    order.housed.changedIn_slot he taken.1 (changed.mono (by omega) (by omega))⟩

/-- **Handing out the first free slot** of a slab leaves the others. -/
theorem InOrder.take_first (order : c.InOrder m objs) (he : c.lookup? id = some e)
    (chain : e.slab.freeChain m = a :: rest) (changed : m.ChangedWithin m' a (a + c.stride))
    (header : m'.readWord a = id) :
    InOrder (c.exchanging id (e.slab.pop rest) (c.live + 1)
        { c.counters with allocs := c.counters.allocs + 1 }) m' ((a + 8) :: objs) ∧
      (e.slab.pop rest).freeChain m' = rest := by
  obtain ⟨-, slot, out, sound, left, taken⟩ := (order.housed.sound he).alloc_first chain
  refine ⟨order.take he slot out changed header sound taken, ?_⟩
  rw [sound.freeChain_congr fun b hb => ?_, left]
  have free : ¬(e.slab.pop rest).Taken m b := fun taken => taken.2 hb
  have ne : b ≠ a := fun same => free ((taken b).mpr (.inr same))
  have apart : b + e.slab.stride ≤ a ∨ a + e.slab.stride ≤ b :=
    Slab.HasSlot.apart (sound.free.slots b hb) slot ne
  have := order.booked.configured.object_le
  rw [(order.housed.cut he).stride] at apart
  exact changed.readWord (by omega)

/-- **Taking a slot back** puts it in front of those that are free. -/
theorem InOrder.give_first (order : c.InOrder m objs) (he : c.lookup? id = some e)
    (out : e.slab.Taken m a) :
    Slab.free a ⟨e.slab, m⟩ = .ok () ⟨e.slab.push a, m.writeWord a e.slab.freeHead⟩ ∧
      InOrder (c.exchanging id (e.slab.push a) (c.live - 1)
        { c.counters with frees := c.counters.frees + 1 }) (m.writeWord a e.slab.freeHead)
        (objs.erase (a + 8)) ∧
      (e.slab.push a).freeChain (m.writeWord a e.slab.freeHead) = a :: e.slab.freeChain m := by
  have housed := order.housed.sound he
  obtain ⟨run, sound, taken⟩ := housed.free_spec out
  refine ⟨run, order.give he out (m.changedWithin_writeWord a _) sound taken, ?_⟩
  exact (housed.free.free_spec housed.shaped out.1 out.2).2.freeChain_eq

/-- The same cache over another allocator, with other patterns. -/
def twin (c : Cache α) (y : β) (fresh stale : Pattern) : Cache β :=
  { c with allocator := y, config := c.config.filling fresh stale }

@[simp] theorem twin_roster (c : Cache α) (y : β) (f g : Pattern) :
    (c.twin y f g).roster = c.roster := rfl

theorem Swapped.twin (w : Swapped c id o c') (y : β) (f g : Pattern) :
    Swapped (c.twin y f g) id o (c'.twin y f g) :=
  ⟨w.here, w.elsewhere, w.registered, congrArg (·.filling f g) w.config, w.stride, w.perSlab,
    w.layout⟩

/-- A slab that was just cut from a block. -/
def blank (c : Cache α) (b : Block) : Slab :=
  ⟨b.extent, b.ptr, c.stride, c.perSlab, 0, b.ptr⟩

/-- **Cutting a block** gives the same slab on any memory, with all slots free in order. -/
theorem Configured.blank_spec {σ : Type} {b : Block} {L : Multiset Lease} (sizes : c.Configured)
    (fits : Lease.Fits ⟨b, c.extentLayout⟩ L) (p : σ) (m : Memory) :
    ∃ m', Slab.init b.extent c.stride c.perSlab ⟨p, m⟩ = .ok (c.blank b) ⟨p, m'⟩ ∧
      (c.blank b).Sound m' ∧
      (c.blank b).freeChain m' = (List.range c.perSlab).map (c.blank b).slotAddr ∧
      m.ChangedWithin m' b.ptr (b.ptr + b.len) := by
  have aligned : 8 ∣ b.ptr := sizes.align_eq ▸ fits.aligned
  have stride_le : 8 ≤ c.stride := by have := sizes.object_le; omega
  obtain ⟨head, m', run, sound, changed⟩ := Slab.init_spec (e := b.extent) p m fits.valid aligned
    sizes.stride_dvd stride_le sizes.perSlab_pos (sizes.room.trans fits.size_le)
  have chain := (Slab.init_refines fits.valid run).1.freeChain_eq
  obtain ⟨last, count⟩ := Nat.exists_eq_succ_of_ne_zero sizes.perSlab_pos.ne'
  have first : head = b.ptr := by
    refine sound.free.linked.eq_headD.trans ?_
    rw [chain, Slab.Stack.full, count, List.range_succ_eq_map]
    exact Nat.add_eq_left.mpr (Nat.zero_mul _)
  subst first
  exact ⟨m', run, sound, chain, changed⟩

/-! ### Caches that are alike -/

/-- Two caches in order with the same objects out, the same but for their allocators and patterns,
and with the same free slots. -/
structure Alike (s : Store (Cache α)) (t : Store (Cache β)) (objs : List Nat) : Prop where
  order : s.part.InOrder s.memory objs
  order' : t.part.InOrder t.memory objs
  same : ∃ y fresh stale, t.part = s.part.twin y fresh stale
  chains : t.part.chains t.memory = s.part.chains s.memory

namespace Alike

theorem freeChain_eq (w : Alike ⟨c, m⟩ ⟨c.twin y f g, n⟩ objs) (he : c.lookup? id = some e) :
    e.slab.freeChain n = e.slab.freeChain m := by
  have he' : (c.twin y f g).lookup? id = some e := he
  have same := congrFun w.chains id
  rw [chains_of_lookup? he, chains_of_lookup? he'] at same
  exact Option.some.inj same

theorem taken_iff (w : Alike ⟨c, m⟩ ⟨c.twin y f g, n⟩ objs) (he : c.lookup? id = some e) :
    e.slab.Taken n a ↔ e.slab.Taken m a := by
  unfold Slab.Taken
  rw [w.freeChain_eq he]

/-- **What is checked** of an address is found alike. -/
theorem refusal?_eq (w : Alike ⟨c, m⟩ ⟨d, n⟩ objs) (p : Nat) :
    d.refusal? n p = c.refusal? m p := by
  obtain ⟨y, f, g, rfl⟩ := w.same
  have searched : (c.twin y f g).ownerOf? (p - header) = c.ownerOf? (p - header) := rfl
  unfold refusal?
  rw [searched]
  cases owner : c.ownerOf? (p - header) with
  | none => rfl
  | some t =>
    obtain ⟨id, e⟩ := t
    obtain ⟨he, -⟩ := Housed.ownerOf?_some owner
    have free : e.slab.isFree n (p - header) = e.slab.isFree m (p - header) := by
      unfold Slab.isFree
      rw [w.freeChain_eq he]
    dsimp only
    rw [free]
    -- The owner header is compared only where the slot is taken, and there both are right.
    by_cases taken : e.slab.Taken m (p - header)
    · rw [w.order.housed.owner he taken, w.order'.housed.owner he ((w.taken_iff he).mpr taken)]
    by_cases slot : e.slab.HasSlot (p - header)
    · rw [Slab.isFree_iff.mpr (slot.mem_freeChain_iff.mpr taken)]
      rfl
    · have owns := Slab.owns_iff (a := p - header) (w.order.housed.sound he).stride_pos
      rw [Bool.eq_false_iff.mpr (owns.not.mpr slot)]
      rfl

/-- The allocators worked, and left what is leased alone. -/
theorem moved (w : Alike ⟨c, m⟩ ⟨c.twin y f g, n⟩ objs) (kept : m.Keeps m' (leased c.leases))
    (kept' : n.Keeps n' (leased c.leases)) (x : α) (z : β) :
    Alike ⟨{ c with allocator := x }, m'⟩ ⟨c.twin z f g, n'⟩ objs := by
  refine ⟨(w.order.kept kept).with_allocator x, (w.order'.kept kept').with_allocator z,
    ⟨z, f, g, rfl⟩, ?_⟩
  exact (w.order'.chains_kept kept').trans (w.chains.trans (w.order.chains_kept kept).symm)

/-- Both write into the same object, each what it likes. -/
theorem write (w : Alike ⟨c, m⟩ ⟨d, n⟩ objs) (hp : p ∈ objs)
    (changed : m.ChangedWithin m' p (p + c.config.objectSize))
    (changed' : n.ChangedWithin n' p (p + c.config.objectSize)) :
    Alike ⟨c, m'⟩ ⟨d, n'⟩ objs := by
  obtain ⟨y, f, g, rfl⟩ := w.same
  obtain ⟨order, chains, -⟩ := w.order.write hp changed
  obtain ⟨order', chains', -⟩ := w.order'.write hp changed'
  exact ⟨order, order', w.same, chains'.trans (w.chains.trans chains.symm)⟩

/-- **One slab** is exchanged for the same one in both. -/
theorem swapped (w : Alike ⟨c, m⟩ ⟨c.twin y f g, n⟩ objs) (change : Swapped c id o c')
    (keep : ∀ {j d}, c.lookup? j = some d → j ≠ id → ∀ x ∈ d.slab.extent, m'.read x = m.read x)
    (keep' : ∀ {j d}, c.lookup? j = some d → j ≠ id → ∀ x ∈ d.slab.extent, n'.read x = n.read x)
    (order : c'.InOrder m' objs') (order' : (c'.twin y f g).InOrder n' objs')
    (chain : ∀ e, o = some e → e.slab.freeChain n' = e.slab.freeChain m') :
    Alike ⟨c', m'⟩ ⟨c'.twin y f g, n'⟩ objs' := by
  have one := w.order.housed.chains_swapped change keep
  have other := w.order'.housed.chains_swapped (change.twin y f g) keep'
  refine ⟨order, order', ⟨y, f, g, rfl⟩, other.trans (Eq.trans ?_ one.symm)⟩
  rw [w.chains]
  cases o with
  | none => rfl
  | some e => rw [Option.map_some, Option.map_some, chain e rfl]

/-- **One slab changes** in the same slot of both, and has the same free slots afterwards. -/
theorem exchanged (w : Alike ⟨c, m⟩ ⟨c.twin y f g, n⟩ objs) (he : c.lookup? id = some e)
    (slot : e.slab.HasSlot a) (changed : m.ChangedWithin m' a (a + c.stride))
    (changed' : n.ChangedWithin n' a (a + c.stride))
    (order : (c.exchanging id s live k).InOrder m' objs')
    (order' : ((c.twin y f g).exchanging id s live k).InOrder n' objs')
    (chain : s.freeChain n' = s.freeChain m') :
    Alike ⟨c.exchanging id s live k, m'⟩ ⟨(c.exchanging id s live k).twin y f g, n'⟩ objs' := by
  refine w.swapped (swapped_exchanging he) (w.order.housed.keeps_slabs he slot changed)
    (w.order'.housed.keeps_slabs (c := c.twin y f g) he slot changed') order order' ?_
  rintro _ ⟨⟩
  exact chain

/-- **An empty slab** is struck off both. -/
theorem strike (w : Alike ⟨c, m⟩ ⟨c.twin y f g, n⟩ objs) (he : c.lookup? id = some e)
    (idle : e.slab.allocated = 0) (allocs : k.allocs = k.frees + c.live)
    (acquired : k.acquired + 1 = k.released + k.abandoned + c.registered.card) :
    Alike ⟨c.striking id k, m⟩ ⟨(c.striking id k).twin y f g, n⟩ objs := by
  have he' : (c.twin y f g).lookup? id = some e := he
  exact w.swapped (swapped_striking he) (fun _ _ _ _ => rfl) (fun _ _ _ _ => rfl)
    (w.order.strike he idle allocs acquired).1 (w.order'.strike he' idle allocs acquired).1 nofun

/-- **A new slab** is registered with both, under the same number. -/
theorem register (w : Alike ⟨c, m⟩ ⟨c.twin y f g, n⟩ objs) (cut : c.Cut e) (sound : e.slab.Sound m)
    (sound' : e.slab.Sound n) (chain : e.slab.freeChain n = e.slab.freeChain m)
    (fresh : e.slab.allocated = 0) (apart : ∀ l ∈ c.leases, l.extent.Apart e.slab.extent)
    (limit : c.config.maxSlabs ≠ 0 → c.registered.card < c.config.maxSlabs) :
    Alike ⟨c.registering e, m⟩ ⟨(c.registering e).twin y f g, n⟩ objs := by
  have cut' : (c.twin y f g).Cut e := { cut with }
  refine w.swapped w.order.booked.swapped_registering (fun _ _ _ _ => rfl) (fun _ _ _ _ => rfl)
    (w.order.register cut sound fresh apart limit).1
    (w.order'.register cut' sound' fresh apart limit).1 ?_
  rintro _ ⟨⟩
  exact chain

end Alike

/-! ### Twins -/

variable [Allocator α] [Allocator β] {P : AllocatorPair α β}

/-- Caches that are alike, over allocators that will answer alike. Leases that they could not give
back are gone. -/
structure Twins (P : AllocatorPair α β) (s : Store (Cache α)) (t : Store (Cache β))
    (objs : List Nat) : Prop extends Alike s t objs where
  ready : ∃ gone, P.Ready ⟨s.part.allocator, s.memory⟩ ⟨t.part.allocator, t.memory⟩
    (gone + s.part.leases)

namespace Twins

/-- Work of the caches inside what they lease. -/
theorem after (w : Twins P ⟨c, m⟩ ⟨c.twin y f g, n⟩ objs)
    (alike : Alike ⟨c', m'⟩ ⟨c'.twin y f g, n'⟩ objs') (allocator : c'.allocator = c.allocator)
    (leases : c'.leases = c.leases) (inside : m.ChangedIn m' (leased c.leases))
    (inside' : n.ChangedIn n' (leased c.leases)) :
    Twins P ⟨c', m'⟩ ⟨c'.twin y f g, n'⟩ objs' := by
  obtain ⟨gone, ready⟩ : ∃ gone, P.Ready ⟨c.allocator, m⟩ ⟨y, n⟩ (gone + c.leases) := w.ready
  have sub : leased c.leases ⊆ leased (gone + c.leases) :=
    leased_subset (Multiset.le_add_left ..)
  refine ⟨alike, gone, ?_⟩
  dsimp only
  rw [leases, allocator]
  exact P.frame ready (inside.mono sub) (inside'.mono sub)

/-- Both write into the same object, each what it likes. -/
theorem write (w : Twins P ⟨c, m⟩ ⟨d, n⟩ objs) (hp : p ∈ objs)
    (changed : m.ChangedWithin m' p (p + c.config.objectSize))
    (changed' : n.ChangedWithin n' p (p + c.config.objectSize)) :
    Twins P ⟨c, m'⟩ ⟨d, n'⟩ objs := by
  obtain ⟨y, f, g, rfl⟩ := w.same
  exact w.after (w.toAlike.write hp changed changed') rfl rfl (w.order.write hp changed).2.2
    (w.order'.write hp changed').2.2

/-- **One slab changes** in the same slot of both, and has the same free slots afterwards. -/
theorem exchanged (w : Twins P ⟨c, m⟩ ⟨c.twin y f g, n⟩ objs) (he : c.lookup? id = some e)
    (slot : e.slab.HasSlot a) (changed : m.ChangedWithin m' a (a + c.stride))
    (changed' : n.ChangedWithin n' a (a + c.stride)) (extent : s.extent = e.slab.extent)
    (order : (c.exchanging id s live k).InOrder m' objs')
    (order' : ((c.twin y f g).exchanging id s live k).InOrder n' objs')
    (chain : s.freeChain n' = s.freeChain m') :
    Twins P ⟨c.exchanging id s live k, m'⟩ ⟨(c.exchanging id s live k).twin y f g, n'⟩ objs' :=
  w.after (w.toAlike.exchanged he slot changed changed' order order' chain) rfl
    (leases_exchanging he extent) (w.order.housed.changedIn_slot he slot changed)
    (w.order'.housed.changedIn_slot (c := c.twin y f g) he slot changed')

/-! ### Giving slabs back -/

omit [Allocator α] [Allocator β] in
/-- What runs on the allocators in lockstep changes nothing else of the caches. -/
theorem below_lockstep {ρ : Type} {i : Action α ρ} {j : Action β ρ}
    {Q : ρ → Store α → Store β → Prop} {R : Store α → Store β → Prop}
    (h : Lockstep i j ⟨c.allocator, m⟩ ⟨d.allocator, n⟩ Q R) :
    Lockstep (below i) (below j) ⟨c, m⟩ ⟨d, n⟩
      (fun r s t => ∃ x z, s.part = { c with allocator := x } ∧
        t.part = { d with allocator := z } ∧ Q r ⟨x, s.memory⟩ ⟨z, t.memory⟩)
      (fun s t => ∃ x z, s.part = { c with allocator := x } ∧
        t.part = { d with allocator := z } ∧ R ⟨x, s.memory⟩ ⟨z, t.memory⟩) :=
  h.within (fun _ x z _ _ ans => ⟨x, z, rfl, rfl, ans⟩) fun x z _ _ flt => ⟨x, z, rfl, rfl, flt⟩

variable {R : Store (Cache α) → Store (Cache β) → Prop}

/-- Both give the block back, or both abandon it. -/
theorem releaseBlock {L : Multiset Lease} {b : Block}
    (ready : P.Ready ⟨c.allocator, m⟩ ⟨y, n⟩ (⟨b, c.extentLayout⟩ ::ₘ L)) :
    Lockstep (releaseBlock b.ptr) (releaseBlock b.ptr) ⟨c, m⟩ ⟨c.twin y f g, n⟩
      (fun _ s t => ∃ x z k gone, s.part = { c with allocator := x, counters := k } ∧
        t.part = { c with counters := k }.twin z f g ∧
        k.allocs = c.counters.allocs ∧ k.frees = c.counters.frees ∧
        k.acquired = c.counters.acquired ∧
        k.released + k.abandoned = c.counters.released + c.counters.abandoned + 1 ∧
        m.Keeps s.memory (leased L) ∧ n.Keeps t.memory (leased L) ∧
        P.Ready ⟨x, s.memory⟩ ⟨z, t.memory⟩ (gone + L)) R := by
  have same : Allocator.canRelease (c.twin y f g).allocator = Allocator.canRelease c.allocator :=
    P.can ready
  unfold Cache.releaseBlock
  refine .part ?_
  rw [same]
  by_cases can : Allocator.canRelease c.allocator = true
  · rw [if_pos can, if_pos can]
    have released := below_lockstep (d := c.twin y f g) (P.release ⟨b, c.extentLayout⟩ ready can)
    refine .bind (released.mono (fun _ _ _ ans => ans) fun _ _ ⟨_, _, _, _, never⟩ => never.elim) ?_
    rintro _ ⟨_, m'⟩ ⟨_, n'⟩ ⟨x, z, rfl, rfl, kept, kept', after⟩
    refine .finish ⟨x, z, _, 0, rfl, rfl, rfl, rfl, rfl, ?_, kept, kept', ?_⟩
    · dsimp only
      omega
    · rw [zero_add]
      exact after
  · rw [if_neg can, if_neg can]
    refine .finish ⟨c.allocator, y, _, {⟨b, c.extentLayout⟩}, rfl, rfl, rfl, rfl, rfl, rfl,
      .refl m _, .refl n _, ?_⟩
    rw [Multiset.singleton_add]
    exact ready

/-- **Striking an empty slab off.** -/
theorem releaseSlab (w : Twins P ⟨c, m⟩ ⟨d, n⟩ objs) (he : c.lookup? id = some e)
    (idle : e.slab.allocated = 0) :
    Lockstep (releaseSlab id) (releaseSlab id) ⟨c, m⟩ ⟨d, n⟩ (fun _ s t => Twins P s t objs) R := by
  obtain ⟨y, f, g, rfl⟩ := w.same
  obtain ⟨gone, ready⟩ : ∃ gone, P.Ready ⟨c.allocator, m⟩ ⟨y, n⟩ (gone + c.leases) := w.ready
  have listed : ({ c with roster := c.roster.remove id } : Cache α).lookup? id = some e := he
  have listed' : ({ c.twin y f g with roster := c.roster.remove id } : Cache β).lookup? id =
    some e := he
  unfold Cache.releaseSlab
  refine .modifyPart (.part ?_)
  rw [listed, twin_roster, listed']
  refine .modifyPart ?_
  change Lockstep (Cache.releaseBlock (c.lease e).block.ptr) _ ⟨c.striking id c.counters, m⟩
    ⟨(c.striking id c.counters).twin y f g, n⟩ _ _
  rw [leases_striking (k := c.counters) he, Multiset.add_cons] at ready
  refine (releaseBlock (c := c.striking id c.counters) (b := (c.lease e).block) ready).mono ?_
    fun _ _ flt => flt
  rintro _ ⟨_, m'⟩ ⟨_, n'⟩
    ⟨x, z, k, lost, rfl, rfl, allocs, frees, acquired, count, kept, kept', after⟩
  have books : k.allocs = k.frees + c.live := by
    rw [allocs, frees]
    exact w.order.booked.allocs
  have balance : k.acquired + 1 = k.released + k.abandoned + c.registered.card := by
    have : c.counters.acquired = c.counters.released + c.counters.abandoned + c.registered.card :=
      w.order.booked.acquired
    rw [acquired, count]
    dsimp only [striking]
    omega
  have rest : leased (c.striking id k).leases ⊆ leased (gone + (c.striking id k).leases) :=
    leased_subset (Multiset.le_add_left ..)
  refine ⟨(w.toAlike.strike he idle books balance).moved (kept.mono rest) (kept'.mono rest) x z,
    lost + gone, ?_⟩
  rw [add_assoc]
  exact after

/-- **Striking empty slabs off**, as many as are asked for. -/
theorem evict (w : Twins P ⟨c, m⟩ ⟨d, n⟩ objs) (count : Nat) :
    Lockstep (evict count) (evict count) ⟨c, m⟩ ⟨d, n⟩ (fun _ s t => Twins P s t objs) R := by
  induction count generalizing c d m n with
  | zero => exact .pure w
  | succ count ih =>
    obtain ⟨y, f, g, rfl⟩ := w.same
    have booked : c.Booked := w.order.booked
    obtain ⟨q, holds⟩ := booked.roster
    unfold Cache.evict
    refine .part ?_
    rw [twin_roster]
    cases front : c.roster.front .empty with
    | none => exact .pure w
    | some id =>
      obtain ⟨e, he, empty⟩ := booked.exists_of_placeOf (holds.placeOf_front front)
      exact .bind (w.releaseSlab he (Occupancy.classify_eq_empty_iff.mp empty))
        fun _ _ _ w' => ih w'

theorem evictAbove (w : Twins P ⟨c, m⟩ ⟨d, n⟩ objs) (keep : Nat) :
    Lockstep (evictAbove keep) (evictAbove keep) ⟨c, m⟩ ⟨d, n⟩ (fun _ s t => Twins P s t objs)
      R := by
  obtain ⟨y, f, g, rfl⟩ := w.same
  exact .part (w.evict _)

/-- **Giving every empty slab back.** -/
theorem shrink (w : Twins P ⟨c, m⟩ ⟨d, n⟩ objs) :
    Lockstep shrink shrink ⟨c, m⟩ ⟨d, n⟩ (fun _ s t => Twins P s t objs) R :=
  w.evictAbove 0

/-! ### Adding slabs -/

/-- **A block for one more slab**: the same one, or the same fault whatever the allocators'. -/
theorem acquireBlock (w : Twins P ⟨c, m⟩ ⟨c.twin y f g, n⟩ objs) :
    Lockstep acquireBlock acquireBlock ⟨c, m⟩ ⟨c.twin y f g, n⟩
      (fun b s t => ∃ x z gone, s.part = { c with allocator := x } ∧ t.part = c.twin z f g ∧
        Lease.Fits ⟨b, c.extentLayout⟩ c.leases ∧ Alike s t objs ∧
        P.Ready ⟨x, s.memory⟩ ⟨z, t.memory⟩ (gone + ⟨b, c.extentLayout⟩ ::ₘ c.leases))
      (fun s t => Twins P s t objs) := by
  obtain ⟨gone, ready⟩ : ∃ gone, P.Ready ⟨c.allocator, m⟩ ⟨y, n⟩ (gone + c.leases) := w.ready
  have pos : 0 < c.extentLayout.size := w.order.booked.configured.layout_pos
  have rest : leased c.leases ⊆ leased (gone + c.leases) :=
    leased_subset (Multiset.le_add_left ..)
  unfold Cache.acquireBlock
  refine .part (.bind (below_lockstep (d := c.twin y f g)
    (P.acquire c.extentLayout ready pos)).attempt ?_)
  rintro (fault | b) ⟨c₁, m₁⟩ ⟨d₁, n₁⟩ outcome
  · obtain ⟨x, z, rfl, rfl, kept, kept', after⟩ := outcome
    exact .fault ⟨w.toAlike.moved (kept.mono rest) (kept'.mono rest) x z, gone, after⟩
  · obtain ⟨x, z, rfl, rfl, fits, kept, kept', after⟩ := outcome
    have apart : ∀ l ∈ c.leases, l.extent.Apart b.extent := fun l hl =>
      fits.apart l (Multiset.mem_add.mpr (.inr hl))
    refine .pure ⟨x, z, gone, rfl, rfl, ⟨fits.valid, fits.size_le, fits.aligned, apart⟩,
      w.toAlike.moved (kept.mono rest) (kept'.mono rest) x z, ?_⟩
    rw [Multiset.add_cons]
    exact after

/-- **Adding a slab**, under the same number, or none. -/
theorem grow (w : Twins P ⟨c, m⟩ ⟨d, n⟩ objs) :
    Lockstep grow grow ⟨c, m⟩ ⟨d, n⟩
      (fun id s t => Twins P s t objs ∧
        ∃ e, s.part.lookup? id = some e ∧ e.slab.allocated < e.slab.capacity)
      (fun s t => Twins P s t objs) := by
  obtain ⟨y, f, g, rfl⟩ := w.same
  have booked : c.Booked := w.order.booked
  unfold Cache.grow
  refine .part ?_
  change Lockstep _ (if c.config.maxSlabs ≠ 0 ∧ c.config.maxSlabs ≤ c.slabCount then _ else _)
    _ _ _ _
  by_cases more : c.Extensible
  case neg =>
    rw [if_pos (limit_iff.mpr more), if_pos (limit_iff.mpr more)]
    exact .fault w
  rw [if_neg fun full => limit_iff.mp full more, if_neg fun full => limit_iff.mp full more]
  refine .bind w.acquireBlock ?_
  rintro b ⟨_, m₁⟩ ⟨_, n₁⟩ ⟨x, z, gone, rfl, rfl, fits, alike, ready⟩
  dsimp only at alike ready
  obtain ⟨m₂, run, sound, chain, changed⟩ :=
    booked.configured.blank_spec fits ({ c with allocator := x } : Cache α) m₁
  obtain ⟨n₂, run', sound', chain', changed'⟩ :=
    booked.configured.blank_spec fits (c.twin z f g) n₁
  refine .step (initSlab_of_ok run) (initSlab_of_ok run') (.of_ok register_run register_run ?_)
  have cut : ({ c with allocator := x } : Cache α).Cut ⟨c.blank b, b.ptr⟩ :=
    ⟨rfl, rfl, rfl, booked.configured.align_eq ▸ fits.aligned⟩
  have room : c.config.maxSlabs ≠ 0 → c.registered.card < c.config.maxSlabs := fun some => by
    rw [← booked.slabCount_eq]
    exact more.resolve_left some
  have registered := (alike.moved (fits.keeps changed) (fits.keeps changed') x z).register
    (e := ⟨c.blank b, b.ptr⟩) cut sound sound' (chain'.trans chain.symm) rfl fits.apart room
  have leases := (booked.with_allocator x).leases_registering (e := ⟨c.blank b, b.ptr⟩)
  have inside : (c.lease ⟨c.blank b, b.ptr⟩).extent ∈
      leased (gone + ⟨b, c.extentLayout⟩ ::ₘ c.leases) :=
    Multiset.mem_map_of_mem _ (Multiset.mem_add.mpr (.inr (Multiset.mem_cons_self ..)))
  refine ⟨⟨registered, gone, ?_⟩, ⟨c.blank b, b.ptr⟩, ?_, booked.configured.perSlab_pos⟩
  · dsimp only
    rw [leases]
    exact P.frame ready (changed.changedIn inside (Nat.le_refl _) (Nat.le_refl _))
      (changed'.changedIn inside (Nat.le_refl _) (Nat.le_refl _))
  · exact (booked.with_allocator x).swapped_registering.lookup?_here

/-- **A slab with room** is found in both, or in neither. -/
theorem chooseSlab (w : Twins P ⟨c, m⟩ ⟨d, n⟩ objs) :
    Lockstep chooseSlab chooseSlab ⟨c, m⟩ ⟨d, n⟩
      (fun id s t => Twins P s t objs ∧
        ∃ e, s.part.lookup? id = some e ∧ e.slab.allocated < e.slab.capacity)
      (fun s t => Twins P s t objs) := by
  obtain ⟨y, f, g, rfl⟩ := w.same
  have order : c.InOrder m objs := w.order
  obtain ⟨q, holds⟩ := order.booked.roster
  unfold Cache.chooseSlab
  refine .part ?_
  rw [twin_roster, holds.next_eq]
  cases next : Sequences.next? q with
  | none => exact w.grow
  | some id =>
    obtain ⟨o, mem, busy⟩ := Sequences.exists_of_next? next
    obtain ⟨e, he, rfl⟩ := order.booked.exists_of_placeOf (holds.mem_iff.mp mem)
    have full := order.housed.occupancy_eq_full_iff order.booked.configured he
    exact .pure ⟨w, e, he,
      Nat.lt_of_le_of_ne (order.housed.sound he).allocated_le (full.not.mp busy)⟩

/-! ### Objects -/

omit [Allocator α] [Allocator β] in
/-- A slot after its owner header was written and its object filled. -/
theorem headed {size stride : Nat} (fits : 8 + size ≤ stride) (named : id < Word.bound)
    (inside : (m.writeWord a id).ChangedWithin m' (a + 8) (a + 8 + size)) :
    m.ChangedWithin m' a (a + stride) ∧ m'.readWord a = id := by
  refine ⟨((m.changedWithin_writeWord a id).mono (Nat.le_refl _) (by omega)).trans
    (inside.mono (by omega) (by omega)), ?_⟩
  rw [inside.readWord (.inl (Nat.le_refl _)), Memory.readWord_writeWord named]

/-- **Handing out an object**: the same one, filled or not. -/
theorem alloc (w : Twins P ⟨c, m⟩ ⟨d, n⟩ objs) :
    Lockstep alloc alloc ⟨c, m⟩ ⟨d, n⟩ (fun p s t => Twins P s t (p :: objs))
      (fun s t => Twins P s t objs) := by
  unfold Cache.alloc
  refine .bind w.chooseSlab ?_
  rintro id ⟨c₁, m₁⟩ ⟨d₁, n₁⟩ ⟨w₁, e, he, room⟩
  obtain ⟨y, f, g, rfl⟩ := w₁.same
  dsimp only at w₁ he ⊢
  have order := w₁.order
  have order' := w₁.order'
  dsimp only at order order'
  have he' : (c₁.twin y f g).lookup? id = some e := he
  have fits := order.booked.configured.object_le
  have named : id < Word.bound :=
    Nat.lt_of_lt_of_le (lt_size_of_lookup? he) order.booked.size_le
  obtain ⟨slot, rest, chain⟩ := (order.housed.sound he).exists_first room
  have chain' : e.slab.freeChain n₁ = slot :: rest := (w₁.freeChain_eq he).trans chain
  obtain ⟨run, has, -⟩ := (order.housed.sound he).alloc_first chain
  obtain ⟨run', -⟩ := (order'.housed.sound he').alloc_first chain'
  refine .part ?_
  rw [he, he']
  refine .step (onSlab_of_ok run) (onSlab_of_ok run') (.writeWord ?_)
  obtain ⟨m₂, filled, inside⟩ := c₁.config.allocPattern.fill_run (slot + 8) c₁.config.objectSize
    (c₁.setSlab id (e.slab.pop rest)) (m₁.writeWord slot id)
  obtain ⟨n₂, filled', inside'⟩ := f.fill_run (slot + 8) c₁.config.objectSize
    ((c₁.twin y f g).setSlab id (e.slab.pop rest)) (n₁.writeWord slot id)
  refine .step filled filled' (.modifyPart (.pure ?_))
  obtain ⟨changed, named₂⟩ := headed fits named inside
  obtain ⟨changed', named₂'⟩ := headed fits named inside'
  obtain ⟨after, left⟩ := order.take_first he chain changed named₂
  obtain ⟨after', left'⟩ := order'.take_first he' chain' changed' named₂'
  exact w₁.exchanged he has changed changed' rfl after after' (left'.trans left.symm)

/-- What follows when a slab became as full as `x`. -/
theorem trim {x : Occupancy} {keep : Nat} (w : Twins P ⟨c, m⟩ ⟨d, n⟩ objs) :
    Lockstep (match x with | .empty => Cache.evictAbove keep | _ => return ())
      (match x with | .empty => Cache.evictAbove keep | _ => return ()) ⟨c, m⟩ ⟨d, n⟩
      (fun _ s t => Twins P s t objs) R := by
  cases x with
  | empty => exact w.evictAbove keep
  | available | full => exact .pure w

/-- **Taking an object back**, filled or not. -/
theorem free (w : Twins P ⟨c, m⟩ ⟨d, n⟩ objs) (hp : p ∈ objs) :
    Lockstep (free p) (free p) ⟨c, m⟩ ⟨d, n⟩ (fun _ s t => Twins P s t (objs.erase p)) R := by
  obtain ⟨y, f, g, rfl⟩ := w.same
  dsimp only at w ⊢
  have order := w.order
  have order' := w.order'
  dsimp only at order order'
  obtain ⟨large, id, e, he, taken⟩ := order.exists_slot hp
  obtain ⟨a, rfl⟩ : ∃ a, p = a + 8 := ⟨p - 8, by omega⟩
  rw [Nat.add_sub_cancel] at taken
  have he' : (c.twin y f g).lookup? id = some e := he
  have fits := order.booked.configured.object_le
  have some : 0 < c.live := order.objects.length ▸ List.length_pos_of_mem hp
  have named : m.readWord (a + 8 - header) = id := order.housed.owner he taken
  have named' : n.readWord (a + 8 - header) = id :=
    order'.housed.owner he' ((w.taken_iff he).mpr taken)
  have less : Word.sub c.live 1 = .ok (c.live - 1) := Word.sub_eq_ok_iff.mpr ⟨some, rfl⟩
  unfold Cache.free
  refine .part (.memory ?_)
  dsimp only
  rw [named, named', he, he']
  -- The patterns fill the object, which is still the client's then.
  obtain ⟨m₁, filled, inside⟩ := c.config.deallocPattern.fill_run (a + 8) c.config.objectSize c m
  obtain ⟨n₁, filled', inside'⟩ := g.fill_run (a + 8) c.config.objectSize (c.twin y f g) n
  have w₁ := w.write hp inside inside'
  have order₁ := w₁.order
  have order₁' := w₁.order'
  dsimp only at order₁ order₁'
  have taken₁ : e.slab.Taken m₁ a := (order₁.mem_iff_taken he (p := a + 8) taken.1).mp hp
  obtain ⟨run, after, left⟩ := order₁.give_first he taken₁
  obtain ⟨run', after', left'⟩ := order₁'.give_first he' ((w₁.taken_iff he).mpr taken₁)
  refine .step filled filled' (.step (onSlab_of_ok run) (onSlab_of_ok run')
    (.modifyPart (.lift less (.modifyPart ?_))))
  have slot {m : Memory} : m.ChangedWithin (m.writeWord a e.slab.freeHead) a (a + c.stride) :=
    (m.changedWithin_writeWord a _).mono (Nat.le_refl a) (by omega)
  have w₂ := w₁.exchanged (s := e.slab.push a) he taken.1 slot slot rfl after after'
    (left'.trans ((congrArg (a :: ·) (w₁.freeChain_eq he)).trans left.symm))
  exact w₂.trim

/-- **Taking back whatever is an object**, and refusing the rest for the same reason. -/
theorem tryFree (w : Twins P ⟨c, m⟩ ⟨d, n⟩ objs) (p : Nat) :
    Lockstep (tryFree p) (tryFree p) ⟨c, m⟩ ⟨d, n⟩
      (fun _ s t => p ∈ objs ∧ Twins P s t (objs.erase p)) (fun s t => Twins P s t objs) := by
  unfold Cache.tryFree
  refine .part (.memory ?_)
  rw [w.refusal?_eq p]
  cases refusal : c.refusal? m p with
  | some reason => exact .fault w
  | none =>
    have hp : p ∈ objs := w.order.refusal?_eq_none_iff.mp refusal
    exact (w.free hp).mono (fun _ _ _ w' => ⟨hp, w'⟩) fun _ _ w' => w'

end Twins

end Cache

end LayeredMemory
