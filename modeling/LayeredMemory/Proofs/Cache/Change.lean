import LayeredMemory.Proofs.Cache.Order
import Mathlib.Data.Finset.Card

/-!
# Caches — one slab changes

Every operation of a cache changes what stands under one number: a slab hands a slot out or takes
one back, a new slab is registered, an empty one is struck off. `Swapped` relates a cache to one
that differs in this number alone.

* `Housed.swapped`: what memory must hold for the new slab; all other slabs need only be left alone.
* `Booked.exchange`, `Booked.register`, `Booked.strike`: the books after each of the three changes.
* `Housed.size_le`: there are no more numbers than words, since slabs do not overlap.
-/

namespace LayeredMemory.Cache

variable {α : Type} {c c' : Cache α} {m m' : Memory} {id j a : Nat} {e d : CacheEntry}
  {o : Option CacheEntry} {s : Slab} {k : CacheCounters} {n p : Nat} {objs : List Nat}

/-- The second cache has `o` under the number `id`, and otherwise the slabs of the first. -/
structure Swapped (c : Cache α) (id : Nat) (o : Option CacheEntry) (c' : Cache α) : Prop where
  here : c'.slabs[id]? = some o
  elsewhere : ∀ j ≠ id, c'.slabs[j]? = c.slabs[j]?
  registered : ∃ R,
    c.registered = (c.lookup? id).elim R (· ::ₘ R) ∧ c'.registered = o.elim R (· ::ₘ R)
  config : c'.config = c.config
  stride : c'.stride = c.stride
  perSlab : c'.perSlab = c.perSlab
  layout : c'.extentLayout = c.extentLayout

namespace Swapped

theorem lookup?_eq (w : Swapped c id o c') : c'.lookup? j = if j = id then o else c.lookup? j := by
  unfold lookup?
  split
  · next same => rw [same, w.here]; rfl
  · next ne => rw [w.elsewhere j ne]

theorem lookup?_here (w : Swapped c id o c') : c'.lookup? id = o := by
  rw [w.lookup?_eq, if_pos rfl]

theorem lookup?_elsewhere (w : Swapped c id o c') (ne : j ≠ id) : c'.lookup? j = c.lookup? j := by
  rw [w.lookup?_eq, if_neg ne]

/-- Writing at a number that there is. -/
theorem of_set (lt : id < c.slabs.size) (slabs : c'.slabs = c.slabs.setIfInBounds id o)
    (config : c'.config = c.config) (stride : c'.stride = c.stride)
    (perSlab : c'.perSlab = c.perSlab) (layout : c'.extentLayout = c.extentLayout) :
    Swapped c id o c' := by
  have there : c.slabs.toList[id]? = some c.slabs[id] := by
    rw [Array.getElem?_toList, Array.getElem?_eq_getElem lt]
  have entry : c.lookup? id = c.slabs[id] := by
    unfold lookup?
    rw [Array.getElem?_eq_getElem lt]
    rfl
  obtain ⟨R, before, after⟩ := reduceOption_set there
  refine ⟨?_, fun j ne => ?_, ⟨R, ?_, ?_⟩, config, stride, perSlab, layout⟩
  · rw [slabs, Array.getElem?_setIfInBounds_self_of_lt lt]
  · rw [slabs, Array.getElem?_setIfInBounds_ne ne.symm]
  · rw [entry]
    exact before
  · unfold Cache.registered
    rw [slabs, Array.toList_setIfInBounds]
    exact after o

/-- Writing at the next number. -/
theorem of_push (slabs : c'.slabs = c.slabs.push o) (config : c'.config = c.config)
    (stride : c'.stride = c.stride) (perSlab : c'.perSlab = c.perSlab)
    (layout : c'.extentLayout = c.extentLayout) : Swapped c c.slabs.size o c' := by
  have entry : c.lookup? c.slabs.size = none := by
    unfold lookup?
    rw [Array.getElem?_eq_none (Nat.le_refl _)]
    rfl
  refine ⟨?_, fun j ne => ?_, ⟨c.registered, by rw [entry]; rfl, ?_⟩, config, stride,
    perSlab, layout⟩
  · rw [slabs, Array.getElem?_push_size]
  · rw [slabs, Array.getElem?_push, if_neg ne]
  · unfold Cache.registered
    rw [slabs, Array.toList_push, List.reduceOption_append, ← Multiset.coe_add, add_comm]
    cases o <;> rfl

/-- What happens to the leases. -/
theorem leases (w : Swapped c id o c') :
    ∃ L, c.leases = (c.lookup? id).elim L (c.lease · ::ₘ L) ∧
      c'.leases = o.elim L (c.lease · ::ₘ L) := by
  obtain ⟨R, before, after⟩ := w.registered
  have lease : c'.lease = c.lease := by
    unfold Cache.lease
    rw [w.layout]
  refine ⟨R.map c.lease, ?_, ?_⟩
  · unfold Cache.leases
    rw [before]
    cases c.lookup? id with
    | none => rfl
    | some e => exact Multiset.map_cons ..
  · unfold Cache.leases
    rw [after, lease]
    cases o with
    | none => rfl
    | some e => exact Multiset.map_cons ..

end Swapped

/-- Putting a slab back under its number. -/
theorem setSlab_slabs (he : c.lookup? id = some e) :
    (c.setSlab id s).slabs = c.slabs.setIfInBounds id (some { e with slab := s }) := by
  have here := lookup?_eq_some_iff.mp he
  have lt := lt_size_of_lookup? he
  apply Array.ext_getElem?
  intro j
  unfold setSlab
  dsimp only
  rw [Array.getElem?_modify]
  by_cases same : id = j
  · subst same
    rw [if_pos rfl, here, Array.getElem?_setIfInBounds_self_of_lt lt]
    rfl
  · rw [if_neg same, Array.getElem?_setIfInBounds_ne same]

/-- Putting a slab back as it was. -/
theorem setSlab_self (he : c.lookup? id = some e) : c.setSlab id e.slab = c := by
  have slabs : (c.setSlab id e.slab).slabs = c.slabs := by
    rw [setSlab_slabs he]
    apply Array.ext_getElem?
    intro j
    by_cases same : id = j
    · subst same
      rw [Array.getElem?_setIfInBounds_self_of_lt (lt_size_of_lookup? he),
        lookup?_eq_some_iff.mp he]
    · rw [Array.getElem?_setIfInBounds_ne same]
  exact congrArg (fun slabs => { c with slabs }) slabs

/-! ### Slabs in memory -/

/-- The first word of a slot stays where all bytes of its slab do. -/
theorem Housed.readWord_of_keep (h : c.Housed m) (hd : c.lookup? j = some d)
    (keep : ∀ x ∈ d.slab.extent, m'.read x = m.read x) (ha : d.slab.HasSlot a) :
    m'.readWord a = m.readWord a := by
  have := (h.sound hd).shaped.stride_le
  rw [(h.cut hd).stride] at this
  exact Memory.readWord_congr fun x lo hi => keep x (h.mem_extent hd ha lo (by omega))

/-- What happens in one slot is no matter of the other slabs. -/
theorem Housed.keeps_slabs (h : c.Housed m) (he : c.lookup? id = some e) (slot : e.slab.HasSlot a)
    (changed : m.ChangedWithin m' a (a + c.stride)) (hd : c.lookup? j = some d) (ne : j ≠ id) :
    ∀ x ∈ d.slab.extent, m'.read x = m.read x := by
  intro x hx
  have off := (h.apart hd he ne).not_mem hx
  refine changed x ?_
  by_contra inside
  exact off (h.mem_extent he slot (by omega) (by omega))

/-- **One slab changes**, in books and in memory, and the others are left alone. -/
theorem Housed.swapped (h : c.Housed m) (w : Swapped c id o c')
    (keep : ∀ {j d}, c.lookup? j = some d → j ≠ id → ∀ x ∈ d.slab.extent, m'.read x = m.read x)
    (new : ∀ e ∈ o, c.Cut e ∧ e.slab.Sound m' ∧ (∀ a, e.slab.Taken m' a → m'.readWord a = id) ∧
      ∀ {j d}, c.lookup? j = some d → j ≠ id → e.slab.extent.Apart d.slab.extent) :
    c'.Housed m' ∧ ∀ a, c'.Handed m' a ↔ (∃ e ∈ o, e.slab.Taken m' a) ∨
      ∃ j d, j ≠ id ∧ c.lookup? j = some d ∧ d.slab.Taken m a := by
  -- The other slabs keep all their bytes, so they are as sound as before and the same is out.
  have word {j : Nat} {d : CacheEntry} (hd : c.lookup? j = some d) (ne : j ≠ id) {a : Nat}
      (ha : d.slab.HasSlot a) : m'.readWord a = m.readWord a :=
    h.readWord_of_keep hd (keep hd ne) ha
  have kept {j : Nat} {d : CacheEntry} (hd : c.lookup? j = some d) (ne : j ≠ id) :=
    (h.sound hd).frame fun a ha _ => word hd ne ha
  have entry {j : Nat} {d : CacheEntry} (hd : c'.lookup? j = some d) :
      (j = id ∧ d ∈ o) ∨ (j ≠ id ∧ c.lookup? j = some d) := by
    by_cases same : j = id
    · subst same
      rw [w.lookup?_here] at hd
      exact .inl ⟨rfl, hd⟩
    · rw [w.lookup?_elsewhere same] at hd
      exact .inr ⟨same, hd⟩
  refine ⟨⟨fun {j d} hd => ?_, fun {j d} hd => ?_, fun {i j e d} he hd ne => ?_,
    fun {j d a} hd ha => ?_⟩, fun a => ⟨?_, ?_⟩⟩
  · have cut : c.Cut d := by
      rcases entry hd with ⟨-, hd⟩ | ⟨-, hd⟩
      · exact (new d hd).1
      · exact h.cut hd
    exact ⟨cut.start, cut.stride.trans w.stride.symm, cut.capacity.trans w.perSlab.symm,
      cut.aligned⟩
  · rcases entry hd with ⟨-, hd⟩ | ⟨ne, hd⟩
    · exact (new d hd).2.1
    · exact (kept hd ne).1
  · rcases entry he with ⟨rfl, he⟩ | ⟨ne', he⟩
    · rcases entry hd with ⟨rfl, hd⟩ | ⟨ne', hd⟩
      · exact absurd rfl ne
      · exact (new e he).2.2.2 hd ne'
    · rcases entry hd with ⟨rfl, hd⟩ | ⟨-, hd⟩
      · exact ((new d hd).2.2.2 he ne').symm
      · exact h.apart he hd ne
  · rcases entry hd with ⟨rfl, hd⟩ | ⟨ne, hd⟩
    · exact (new d hd).2.2.1 a ha
    · have taken := ((kept hd ne).2 a).mp ha
      rw [word hd ne taken.1]
      exact h.owner hd taken
  · rintro ⟨j, d, hd, taken⟩
    rcases entry hd with ⟨-, hd⟩ | ⟨ne, hd⟩
    · exact .inl ⟨d, hd, taken⟩
    · exact .inr ⟨j, d, ne, hd, ((kept hd ne).2 a).mp taken⟩
  · rintro (⟨d, hd, taken⟩ | ⟨j, d, ne, hd, taken⟩)
    · exact ⟨id, d, w.lookup?_here.trans hd, taken⟩
    · exact ⟨j, d, (w.lookup?_elsewhere ne).trans hd, ((kept hd ne).2 a).mpr taken⟩

theorem Housed.extent_pos (h : c.Housed m) (k : c.Configured) (he : c.lookup? id = some e) :
    0 < e.slab.extent.len := by
  have slot : e.slab.HasSlot (e.slab.slotAddr 0) := ⟨0, (h.cut he).capacity ▸ k.perSlab_pos, rfl⟩
  have := (h.sound he).shaped.slot_bounds slot
  have := (h.sound he).stride_pos
  omega

/-- **There are enough words** to number the slabs: each starts at an address of its own. -/
theorem Housed.size_le (h : c.Housed m) (k : c.Configured)
    (full : ∀ i < c.slabs.size, ∃ e, c.lookup? i = some e) : c.slabs.size ≤ Word.bound := by
  let start (i : Nat) : Nat := (c.lookup? i).elim 0 (·.slab.extent.start)
  have start_eq {i : Nat} {e : CacheEntry} (he : c.lookup? i = some e) :
      start i = e.slab.extent.start := by
    dsimp only [start]
    rw [he]
    rfl
  have card : (Finset.range c.slabs.size).card ≤ (Finset.range Word.bound).card := by
    refine Finset.card_le_card_of_injOn start (fun i hi => ?_) fun i hi j hj same => ?_
    · obtain ⟨e, he⟩ := full i (Finset.mem_range.mp hi)
      have := (h.sound he).shaped.valid.fits
      rw [start_eq he]
      exact Finset.mem_range.mpr (by omega)
    · obtain ⟨e, he⟩ := full i (Finset.mem_range.mp hi)
      obtain ⟨d, hd⟩ := full j (Finset.mem_range.mp hj)
      have := h.extent_pos k he
      have := h.extent_pos k hd
      rw [start_eq he, start_eq hd] at same
      exact h.eq_of_mem he hd (x := e.slab.extent.start) (Extent.mem_iff.mpr ⟨by omega, by omega⟩)
        (Extent.mem_iff.mpr ⟨by omega, by omega⟩)
  rwa [Finset.card_range, Finset.card_range] at card

/-! ### The books -/

/-- Every occupancy is one of three. -/
theorem sum_occupancies (p : Occupancy) : ((if .available = p then 1 else 0) +
    (if .full = p then 1 else 0) + if .empty = p then 1 else 0) = 1 := by
  cases p <;> rfl

/-- One slab more on one of the sequences. -/
theorem listed_succ {p : Occupancy}
    (length : ∀ x, c'.roster.length x = c.roster.length x + if x = p then 1 else 0) :
    c'.listed = c.listed + 1 := by
  have sum := sum_occupancies p
  unfold Cache.listed
  rw [length, length, length]
  omega

/-- One slab from one of the sequences to another. -/
theorem listed_moved {p q : Occupancy}
    (length : ∀ x, c'.roster.length x + (if x = p then 1 else 0) =
      c.roster.length x + if x = q then 1 else 0) : c'.listed = c.listed := by
  have := sum_occupancies p
  have := sum_occupancies q
  have := length .available
  have := length .full
  have := length .empty
  unfold Cache.listed
  omega

/-- Every slab is still where it belongs, if the one that changed is. -/
theorem Swapped.place (w : Swapped c id o c') (b : c.Booked)
    (place : ∀ j, c'.roster.placeOf j =
      if j = id then o.map CacheEntry.occupancy else c.roster.placeOf j) (j : Nat) :
    c'.roster.placeOf j = (c'.lookup? j).map CacheEntry.occupancy := by
  rw [w.lookup?_eq, place]
  split
  · rfl
  · exact b.place j

/-- The cache with a slab that changed, on the sequence where it belongs. -/
def exchanging (c : Cache α) (id : Nat) (s : Slab) (live : Nat) (k : CacheCounters) : Cache α :=
  { c.setSlab id s with
    roster := c.roster.relink id (.classify s.allocated s.capacity)
    live := live
    counters := k }

theorem swapped_exchanging (he : c.lookup? id = some e) :
    Swapped c id (some { e with slab := s }) (c.exchanging id s n k) :=
  .of_set (lt_size_of_lookup? he) (setSlab_slabs he) rfl rfl rfl rfl

/-- A slab that changes keeps its lease. -/
theorem leases_exchanging (he : c.lookup? id = some e) (same : s.extent = e.slab.extent) :
    (c.exchanging id s n k).leases = c.leases := by
  obtain ⟨L, before, after⟩ := (swapped_exchanging (s := s) (n := n) (k := k) he).leases
  have lease : c.lease { e with slab := s } = c.lease e := by
    unfold Cache.lease
    rw [same]
  rw [he] at before
  exact after.trans ((congrArg (· ::ₘ L) lease).trans before.symm)

theorem Booked.relink (b : c.Booked) (he : c.lookup? id = some e) :
    (c.exchanging id s n k).roster.Valid ∧
      (∀ j, (c.exchanging id s n k).roster.placeOf j =
        if j = id then some (.classify s.allocated s.capacity) else c.roster.placeOf j) ∧
      ∀ x, (c.exchanging id s n k).roster.length x + (if x = e.occupancy then 1 else 0) =
        c.roster.length x + if x = .classify s.allocated s.capacity then 1 else 0 := by
  have here : c.roster.placeOf id = some e.occupancy := by rw [b.place, he]; rfl
  exact b.roster.relink here (.classify s.allocated s.capacity)

/-- **The books after a slab changed**, where the counts follow it. -/
theorem Booked.exchange (b : c.Booked) (he : c.lookup? id = some e)
    (live : n + e.slab.allocated = c.live + s.allocated) (allocs : k.allocs = k.frees + n)
    (acquired : k.acquired = k.released + k.abandoned + c.registered.card) :
    (c.exchanging id s n k).Booked := by
  obtain ⟨valid, place, length⟩ := b.relink (s := s) (n := n) (k := k) he
  have w := swapped_exchanging (n := n) (k := k) (s := s) he
  obtain ⟨R, before, after⟩ := w.registered
  rw [he] at before
  dsimp only [Option.elim] at before after
  have same : (R.card + 1) = c.registered.card := by rw [before, Multiset.card_cons]
  have size : (c.setSlab id s).slabs.size = c.slabs.size := Array.size_modify
  refine ⟨{ b.configured with }, valid, w.place b place, ?_, fun j => ?_, b.nodup, ?_, ?_, ?_,
    fun some => ?_, allocs, ?_⟩
  · rw [after, Multiset.card_cons, same]
    exact (listed_moved length).trans b.listed
  · show j ∈ c.vacant ↔ _
    rw [b.vacant]
    by_cases at_id : j = id
    · subst at_id
      rw [w.here, lookup?_eq_some_iff.mp he]
      simp
    · rw [w.elsewhere j at_id]
  · rw [after, Multiset.card_cons, same]
    exact b.count.trans size.symm
  · exact size ▸ b.size_le
  · have sum := b.live
    rw [before, Multiset.map_cons, Multiset.sum_cons] at sum
    rw [after, Multiset.map_cons, Multiset.sum_cons]
    dsimp only [exchanging]
    omega
  · rw [after, Multiset.card_cons, same]
    exact b.limit some
  · rw [after, Multiset.card_cons, same]
    exact acquired

/-- The number that the next slab gets. -/
def nextId (c : Cache α) : Nat :=
  c.vacant.headD c.slabs.size

/-- The cache with one more slab. -/
def registering (c : Cache α) (e : CacheEntry) : Cache α :=
  { c with
    slabs :=
      if c.nextId < c.slabs.size then c.slabs.setIfInBounds c.nextId (some e)
      else c.slabs.push (some e)
    vacant := c.vacant.tail
    roster := c.roster.pushBack c.nextId .empty
    counters := { c.counters with acquired := c.counters.acquired + 1 } }

/-- The next number is the first vacant one, or the first that was never used. -/
theorem Booked.nextId_cases (b : c.Booked) :
    (∃ rest, c.vacant = c.nextId :: rest ∧ c.slabs[c.nextId]? = some none) ∨
      (c.vacant = [] ∧ c.nextId = c.slabs.size) := by
  unfold nextId
  cases vacant : c.vacant with
  | nil => exact .inr ⟨rfl, rfl⟩
  | cons v rest =>
    have first : v ∈ c.vacant := vacant ▸ List.mem_cons_self
    exact .inl ⟨rest, rfl, (b.vacant v).mp first⟩

/-- The vacant numbers without the next one. -/
theorem Booked.mem_tail_vacant (b : c.Booked) :
    j ∈ c.vacant.tail ↔ j ≠ c.nextId ∧ j ∈ c.vacant := by
  rcases b.nextId_cases with ⟨rest, vacant, -⟩ | ⟨vacant, -⟩
  · have gone : c.nextId ∉ rest := (List.nodup_cons.mp (vacant ▸ b.nodup)).1
    rw [vacant, List.tail_cons, List.mem_cons]
    refine ⟨fun mem => ⟨?_, .inr mem⟩, fun ⟨ne, mem⟩ => mem.resolve_left ne⟩
    rintro rfl
    exact gone mem
  · rw [vacant]
    simp

theorem Booked.lookup?_nextId (b : c.Booked) : c.lookup? c.nextId = none := by
  unfold lookup?
  rcases b.nextId_cases with ⟨rest, -, free⟩ | ⟨-, next⟩
  · rw [free]
    rfl
  · rw [next, Array.getElem?_eq_none (Nat.le_refl _)]
    rfl

theorem Booked.swapped_registering (b : c.Booked) :
    Swapped c c.nextId (some e) (c.registering e) := by
  rcases b.nextId_cases with ⟨rest, -, free⟩ | ⟨-, next⟩
  · have lt : c.nextId < c.slabs.size := (Array.getElem?_eq_some_iff.mp free).1
    exact .of_set lt (if_pos lt) rfl rfl rfl rfl
  · have pushed : (c.registering e).slabs = c.slabs.push (some e) := if_neg (by omega)
    exact next ▸ .of_push pushed rfl rfl rfl rfl

theorem Booked.leases_registering (b : c.Booked) :
    (c.registering e).leases = c.lease e ::ₘ c.leases := by
  obtain ⟨L, before, after⟩ := (b.swapped_registering (e := e)).leases
  rw [b.lookup?_nextId] at before
  exact after.trans (congrArg _ before.symm)

/-- There is a number for the next slab, if no two slabs overlap then. -/
theorem Booked.size_registering (b : c.Booked) (h : (c.registering e).Housed m) :
    (c.registering e).slabs.size ≤ Word.bound := by
  have w := b.swapped_registering (e := e)
  rcases b.nextId_cases with ⟨rest, -, free⟩ | ⟨none, next⟩
  · have lt : c.nextId < c.slabs.size := (Array.getElem?_eq_some_iff.mp free).1
    have kept : (c.registering e).slabs = c.slabs.setIfInBounds c.nextId (some e) := if_pos lt
    rw [kept, Array.size_setIfInBounds]
    exact b.size_le
  · -- A number that was never used: all others have slabs then, and slabs do not overlap.
    have pushed : (c.registering e).slabs = c.slabs.push (some e) := if_neg (by omega)
    refine h.size_le { b.configured with } fun i hi => ?_
    rw [pushed, Array.size_push] at hi
    rw [w.lookup?_eq]
    split
    · exact ⟨e, rfl⟩
    · have lt : i < c.slabs.size := by omega
      have here := Array.getElem?_eq_getElem lt
      unfold lookup?
      rw [here]
      refine Option.ne_none_iff_exists'.mp fun empty => ?_
      have free : i ∈ c.vacant := (b.vacant i).mpr (here.trans (congrArg some empty))
      rw [none] at free
      cases free

/-- **The books after a slab was registered**, if the limit allows for one. -/
theorem Booked.register (b : c.Booked) (fresh : e.slab.allocated = 0)
    (size_le : (c.registering e).slabs.size ≤ Word.bound)
    (limit : c.config.maxSlabs ≠ 0 → c.registered.card < c.config.maxSlabs) :
    (c.registering e).Booked ∧
      ∀ x, (c.registering e).roster.length x = c.roster.length x + if x = .empty then 1 else 0 := by
  have w := b.swapped_registering (e := e)
  have out : c.roster.placeOf c.nextId = none := by rw [b.place, b.lookup?_nextId]; rfl
  obtain ⟨valid, place, length⟩ := b.roster.pushBack out .empty
  obtain ⟨R, before, after⟩ := w.registered
  rw [b.lookup?_nextId] at before
  dsimp only [Option.elim] at before after
  rw [← before] at after
  have occupancy : e.occupancy = .empty := Occupancy.classify_eq_empty_iff.mpr fresh
  refine ⟨⟨{ b.configured with }, valid, w.place b fun j => ?_, ?_, fun j => ?_, ?_, ?_, size_le,
    ?_, fun some => ?_, b.allocs, ?_⟩, length⟩
  · rw [Option.map_some, occupancy]
    exact place j
  · rw [after, Multiset.card_cons, ← b.listed]
    exact listed_succ length
  · refine b.mem_tail_vacant.trans ?_
    by_cases here : j = c.nextId
    · rw [here, w.here]
      simp
    · rw [w.elsewhere j here, b.vacant, and_iff_right here]
  · exact b.nodup.tail
  · have count := b.count
    rw [after, Multiset.card_cons]
    dsimp only [registering]
    rcases b.nextId_cases with ⟨rest, vacant, free⟩ | ⟨vacant, next⟩
    · rw [if_pos (Array.getElem?_eq_some_iff.mp free).1, Array.size_setIfInBounds, ← count, vacant]
      simp only [List.tail_cons, List.length_cons]
      omega
    · rw [if_neg (by omega), Array.size_push, ← count, vacant]
      simp only [List.tail_nil, List.length_nil]
  · rw [after, Multiset.map_cons, Multiset.sum_cons, fresh, Nat.zero_add]
    exact b.live
  · rw [after, Multiset.card_cons]
    exact limit some
  · have := b.acquired
    rw [after, Multiset.card_cons]
    dsimp only [registering]
    omega

/-- The cache without a slab. -/
def striking (c : Cache α) (id : Nat) (k : CacheCounters) : Cache α :=
  { c with
    roster := c.roster.remove id
    slabs := c.slabs.setIfInBounds id none
    vacant := id :: c.vacant
    counters := k }

theorem swapped_striking (he : c.lookup? id = some e) : Swapped c id none (c.striking id k) :=
  .of_set (lt_size_of_lookup? he) rfl rfl rfl rfl rfl

theorem leases_striking (he : c.lookup? id = some e) :
    c.leases = c.lease e ::ₘ (c.striking id k).leases := by
  obtain ⟨L, before, after⟩ := (swapped_striking (k := k) he).leases
  rw [he] at before
  exact before.trans (congrArg _ after.symm)

/-- **The books after an empty slab was struck off.** -/
theorem Booked.strike (b : c.Booked) (he : c.lookup? id = some e) (idle : e.slab.allocated = 0)
    (allocs : k.allocs = k.frees + c.live)
    (acquired : k.acquired + 1 = k.released + k.abandoned + c.registered.card) :
    (c.striking id k).Booked ∧
      ∀ x, (c.striking id k).roster.length x + (if x = .empty then 1 else 0) =
        c.roster.length x := by
  have w := swapped_striking (k := k) he
  have occupancy : e.occupancy = .empty := Occupancy.classify_eq_empty_iff.mpr idle
  have here : c.roster.placeOf id = some .empty := by rw [b.place, he, Option.map_some, occupancy]
  obtain ⟨valid, place, length⟩ := b.roster.remove here
  obtain ⟨R, before, after⟩ := w.registered
  rw [he] at before
  dsimp only [Option.elim] at before after
  have used := lookup?_eq_some_iff.mp he
  refine ⟨⟨{ b.configured with }, valid, w.place b place, ?_, fun j => ?_, ?_, ?_, ?_, ?_,
    fun some => ?_, allocs, ?_⟩, length⟩
  · have sum : c.listed = (c.striking id k).listed + 1 := listed_succ fun x => (length x).symm
    rw [b.listed, before, Multiset.card_cons] at sum
    rw [after]
    exact (Nat.succ.inj sum).symm
  · show j ∈ id :: c.vacant ↔ _
    rw [List.mem_cons, b.vacant]
    by_cases here : j = id
    · rw [here, w.here]
      simp
    · rw [w.elsewhere j here, or_iff_right here]
  · refine List.nodup_cons.mpr ⟨fun free => ?_, b.nodup⟩
    rw [b.vacant, used] at free
    cases free
  · have count := b.count
    rw [before, Multiset.card_cons] at count
    rw [after]
    dsimp only [striking]
    rw [Array.size_setIfInBounds, List.length_cons]
    omega
  · show (c.slabs.setIfInBounds id none).size ≤ Word.bound
    rw [Array.size_setIfInBounds]
    exact b.size_le
  · have sum := b.live
    rw [before, Multiset.map_cons, Multiset.sum_cons, idle, Nat.zero_add] at sum
    rw [after]
    exact sum
  · have limit := b.limit some
    rw [before, Multiset.card_cons] at limit
    rw [after]
    exact Nat.le_of_succ_le limit
  · rw [before, Multiset.card_cons] at acquired
    rw [after]
    dsimp only [striking]
    omega

/-! ### Caches in order -/

namespace InOrder

/-- What happens in one slot is no matter of the other objects, nor of their owner headers. -/
theorem keeps_others (o : c.InOrder m objs) (he : c.lookup? id = some e) (slot : e.slab.HasSlot a)
    (changed : m.ChangedWithin m' a (a + c.stride)) {P : List Nat} (sub : P ⊆ objs)
    (off : a + 8 ∉ P) : m.Keeps m' (c.cells P) := by
  intro f hf x hx
  obtain ⟨p, hp, rfl⟩ := List.mem_map.mp (Multiset.mem_coe.mp hf)
  have ne : p ≠ a + 8 := fun same => off (same ▸ hp)
  have outside := (o.cell_apart_slot he slot (sub hp) ne).not_mem hx
  rw [Extent.mem_iff] at outside
  dsimp only at outside
  exact changed x (by omega)

/-- No object is anywhere near a slab of which nothing is out. -/
theorem apart_of_idle (o : c.InOrder m objs) (he : c.lookup? id = some e)
    (idle : e.slab.allocated = 0) (hp : p ∈ objs) : (c.room p).Apart e.slab.extent := by
  obtain ⟨large, j, d, hd, taken⟩ := o.exists_slot hp
  have ne : j ≠ id := by
    rintro rfl
    obtain rfl := Option.some.inj (he.symm.trans hd)
    exact (o.housed.sound he).not_taken_of_allocated_eq_zero idle taken
  have bounds := (o.housed.sound hd).shaped.slot_bounds taken.1
  rw [(o.housed.cut hd).stride] at bounds
  have := o.booked.configured.object_le
  have apart := o.housed.apart hd he ne
  unfold Extent.Apart at apart ⊢
  dsimp only [room]
  omega

/-- **Striking off** an empty slab: no object was in it. -/
theorem strike (o : c.InOrder m objs) (he : c.lookup? id = some e) (idle : e.slab.allocated = 0)
    (allocs : k.allocs = k.frees + c.live)
    (acquired : k.acquired + 1 = k.released + k.abandoned + c.registered.card) :
    (c.striking id k).InOrder m objs ∧
      ∀ x, (c.striking id k).roster.length x + (if x = .empty then 1 else 0) =
        c.roster.length x := by
  have w := swapped_striking (k := k) he
  obtain ⟨booked, length⟩ := o.booked.strike he idle allocs acquired
  obtain ⟨housed, handed⟩ := o.housed.swapped w (fun _ _ _ _ => rfl) nofun
  refine ⟨⟨booked, housed, o.objects.congr rfl fun a => (handed a).trans ⟨?_, ?_⟩⟩, length⟩
  · rintro (⟨d, hd, -⟩ | ⟨j, d, -, hd, taken⟩)
    · cases hd
    · exact ⟨j, d, hd, taken⟩
  · rintro ⟨j, d, hd, taken⟩
    refine .inr ⟨j, d, ?_, hd, taken⟩
    rintro rfl
    obtain rfl := Option.some.inj (he.symm.trans hd)
    exact (o.housed.sound he).not_taken_of_allocated_eq_zero idle taken

/-- **Registering a slab** of which nothing is out, where no other is. -/
theorem register (o : c.InOrder m objs) (cut : c.Cut e) (sound : e.slab.Sound m)
    (fresh : e.slab.allocated = 0) (apart : ∀ l ∈ c.leases, l.extent.Apart e.slab.extent)
    (limit : c.config.maxSlabs ≠ 0 → c.registered.card < c.config.maxSlabs) :
    (c.registering e).InOrder m objs ∧
      ∀ x, (c.registering e).roster.length x = c.roster.length x + if x = .empty then 1 else 0 := by
  have w := o.booked.swapped_registering (e := e)
  have idle {a : Nat} : ¬e.slab.Taken m a := sound.not_taken_of_allocated_eq_zero fresh
  obtain ⟨housed, handed⟩ := o.housed.swapped w (fun _ _ _ _ => rfl) <| by
    rintro d ⟨⟩
    refine ⟨cut, sound, fun a taken => (idle taken).elim, fun {j d} hd _ => ?_⟩
    have := apart (c.lease d) (Multiset.mem_map_of_mem _ (mem_registered.mpr ⟨j, hd⟩))
    rw [lease_extent o.housed hd] at this
    exact this.symm
  obtain ⟨booked, length⟩ := o.booked.register fresh (o.booked.size_registering housed) limit
  refine ⟨⟨booked, housed, o.objects.congr rfl fun a => (handed a).trans ⟨?_, ?_⟩⟩, length⟩
  · rintro (⟨d, hd, taken⟩ | ⟨j, d, -, hd, taken⟩)
    · cases hd
      exact (idle taken).elim
    · exact ⟨j, d, hd, taken⟩
  · rintro ⟨j, d, hd, taken⟩
    refine .inr ⟨j, d, ?_, hd, taken⟩
    rintro rfl
    rw [o.booked.lookup?_nextId] at hd
    cases hd

/-- What is out when one slot of a slab changed hands. -/
theorem handed_exchanging (o : c.InOrder m objs) (he : c.lookup? id = some e)
    (slot : e.slab.HasSlot a) (extent : s.extent = e.slab.extent)
    (first : s.first = e.slab.first) (stride : s.stride = e.slab.stride)
    (capacity : s.capacity = e.slab.capacity) (changed : m.ChangedWithin m' a (a + c.stride))
    (sound : s.Sound m') (owner : ∀ b, s.Taken m' b → m'.readWord b = id) :
    (c.exchanging id s n k).Housed m' ∧
      ∀ b, (c.exchanging id s n k).Handed m' b ↔
        s.Taken m' b ∨ c.Handed m b ∧ ¬e.slab.Taken m b := by
  have w := swapped_exchanging (n := n) (k := k) (s := s) he
  have cut := o.housed.cut he
  obtain ⟨housed, handed⟩ := o.housed.swapped w (o.housed.keeps_slabs he slot changed) <| by
    rintro d ⟨⟩
    refine ⟨⟨?_, stride.trans cut.stride, capacity.trans cut.capacity, first ▸ cut.aligned⟩, sound,
      owner, fun hd ne => ?_⟩
    · rw [extent, cut.start]
    · rw [extent]
      exact o.housed.apart he hd ne.symm
  refine ⟨housed, fun b => (handed b).trans ⟨?_, ?_⟩⟩
  · rintro (⟨d, hd, taken⟩ | ⟨j, d, ne, hd, taken⟩)
    · cases hd
      exact .inl taken
    · refine .inr ⟨⟨j, d, hd, taken⟩, fun taken' => ne ?_⟩
      exact o.housed.eq_of_mem hd he ((o.housed.sound hd).shaped.slot_mem taken.1)
        ((o.housed.sound he).shaped.slot_mem taken'.1)
  · rintro (taken | ⟨⟨j, d, hd, taken⟩, out⟩)
    · exact .inl ⟨_, rfl, taken⟩
    · refine .inr ⟨j, d, ?_, hd, taken⟩
      rintro rfl
      obtain rfl := Option.some.inj (he.symm.trans hd)
      exact out taken

/-- **Handing a slot out.** -/
theorem take (o : c.InOrder m objs) (he : c.lookup? id = some e) (slot : e.slab.HasSlot a)
    (out : ¬e.slab.Taken m a) {f : Nat} (changed : m.ChangedWithin m' a (a + c.stride))
    (header : m'.readWord a = id)
    (sound : Slab.Sound { e.slab with freeHead := f, allocated := e.slab.allocated + 1 } m)
    (taken : ∀ b, Slab.Taken { e.slab with freeHead := f, allocated := e.slab.allocated + 1 } m b ↔
      e.slab.Taken m b ∨ b = a) :
    InOrder (c.exchanging id { e.slab with freeHead := f, allocated := e.slab.allocated + 1 }
      (c.live + 1) { c.counters with allocs := c.counters.allocs + 1 }) m' ((a + 8) :: objs) := by
  have word {b : Nat} (hb : e.slab.HasSlot b) (ne : b ≠ a) : m'.readWord b = m.readWord b := by
    have off := hb.apart slot ne
    have := o.booked.configured.object_le
    rw [(o.housed.cut he).stride] at off
    exact changed.readWord (by omega)
  -- The free list does not run through this slot any more.
  obtain ⟨sound', taken'⟩ := sound.frame fun b hb free =>
    word hb fun same => free ((taken b).mpr (.inr same))
  obtain ⟨housed, handed⟩ :=
    o.handed_exchanging he slot (s := { e.slab with freeHead := f, allocated := _ })
      rfl rfl rfl rfl changed sound' fun b hb => by
    rcases (taken b).mp ((taken' b).mp hb) with old | rfl
    · by_cases same : b = a
      · rw [same, header]
      · rw [word old.1 same]
        exact o.housed.owner he old
    · exact header
  have booked := o.booked.exchange he
    (s := { e.slab with freeHead := f, allocated := e.slab.allocated + 1 }) (n := c.live + 1)
    (k := { c.counters with allocs := c.counters.allocs + 1 }) (by dsimp only; omega)
    (by have := o.booked.allocs; dsimp only; omega) o.booked.acquired
  have fresh : ¬c.Handed m a := fun old => out ((o.housed.handed_iff he slot).mp old)
  refine ⟨booked, housed, ?_, fun p => ?_, congrArg (· + 1) o.objects.length⟩
  · refine List.nodup_cons.mpr ⟨fun old => fresh ?_, o.objects.nodup⟩
    have := ((o.objects.mem (a + 8)).mp old).2
    rwa [Nat.add_sub_cancel] at this
  · rw [List.mem_cons, o.objects.mem, handed, taken', taken]
    constructor
    · rintro (rfl | ⟨large, old⟩)
      · exact ⟨Nat.le_add_left .., .inl (.inr (Nat.add_sub_cancel ..))⟩
      · by_cases here : e.slab.Taken m (p - 8)
        · exact ⟨large, .inl (.inl here)⟩
        · exact ⟨large, .inr ⟨old, here⟩⟩
    · rintro ⟨large, (here | same) | ⟨old, -⟩⟩
      · exact .inr ⟨large, id, e, he, here⟩
      · exact .inl (by omega)
      · exact .inr ⟨large, old⟩

/-- **Taking a slot back.** -/
theorem give (o : c.InOrder m objs) (he : c.lookup? id = some e) (out : e.slab.Taken m a) {f : Nat}
    (changed : m.ChangedWithin m' a (a + 8))
    (sound : Slab.Sound { e.slab with freeHead := f, allocated := e.slab.allocated - 1 } m')
    (taken : ∀ b, Slab.Taken { e.slab with freeHead := f, allocated := e.slab.allocated - 1 } m' b ↔
      e.slab.Taken m b ∧ b ≠ a) :
    InOrder (c.exchanging id { e.slab with freeHead := f, allocated := e.slab.allocated - 1 }
      (c.live - 1) { c.counters with frees := c.counters.frees + 1 }) m' (objs.erase (a + 8)) := by
  have stride := o.booked.configured.object_le
  have pos := (o.housed.sound he).allocated_pos out
  have mem : a + 8 ∈ objs :=
    (o.objects.mem _).mpr ⟨Nat.le_add_left .., id, e, he, (Nat.add_sub_cancel a 8).symm ▸ out⟩
  have some : 0 < c.live := o.objects.length ▸ List.length_pos_of_mem mem
  obtain ⟨housed, handed⟩ := o.handed_exchanging he out.1
    (s := { e.slab with freeHead := f, allocated := _ }) rfl rfl rfl rfl
      (changed.mono (Nat.le_refl a) (by omega)) sound fun b hb => by
      obtain ⟨old, ne⟩ := (taken b).mp hb
      have off := old.1.apart out.1 ne
      rw [(o.housed.cut he).stride] at off
      rw [changed.readWord (by omega)]
      exact o.housed.owner he old
  have booked := o.booked.exchange he
    (s := { e.slab with freeHead := f, allocated := e.slab.allocated - 1 }) (n := c.live - 1)
    (k := { c.counters with frees := c.counters.frees + 1 }) (by dsimp only; omega)
    (by have := o.booked.allocs; dsimp only; omega) o.booked.acquired
  refine ⟨booked, housed, o.objects.nodup.erase _, fun p => ?_, ?_⟩
  · rw [o.objects.nodup.mem_erase_iff, o.objects.mem, handed, taken]
    constructor
    · rintro ⟨ne, large, old⟩
      by_cases here : e.slab.Taken m (p - 8)
      · exact ⟨large, .inl ⟨here, by omega⟩⟩
      · exact ⟨large, .inr ⟨old, here⟩⟩
    · rintro ⟨large, ⟨here, ne⟩ | ⟨old, off⟩⟩
      · exact ⟨by omega, large, id, e, he, here⟩
      · refine ⟨?_, large, old⟩
        rintro rfl
        exact off ((Nat.add_sub_cancel a 8).symm ▸ out)
  · rw [List.length_erase_of_mem mem, o.objects.length]
    rfl

end InOrder

end LayeredMemory.Cache
