import LayeredMemory.Cache.Exchange
import LayeredMemory.Proofs.Cache.Roster
import LayeredMemory.Proofs.Layer.Contract
import LayeredMemory.Proofs.Slab.Geometry
import Mathlib.Algebra.BigOperators.Group.Multiset.Basic
import Mathlib.Algebra.GroupWithZero.Nat
import Mathlib.Data.List.ReduceOption

/-!
# Caches in order — the invariant

A cache keeps books about its slabs: numbers, vacant numbers, a roster and some counts. It is
`Booked` when they agree with each other, and `Housed` in memory when every slab is sound there, no
two slabs overlap, and the owner header of every object that is out names its slab.

* `validate_eq`: validation of a cache that is both succeeds.
* `Housed.ownerOf?_eq`: the search for a slab finds the only one that holds the address.
* `Housed.frame`: nothing depends on the bytes of objects that are out, nor on bytes outside the
  slabs.
* `new_cases`, `new_spec`: a new cache is both, and a configuration is refused unless it `Fits`.
-/

namespace LayeredMemory

/-- One object and its owner header fit a page, and a page is a layout. -/
structure CacheConfig.Fits (config : CacheConfig) : Prop where
  object_pos : 1 ≤ config.objectSize
  object_le : config.objectSize ≤ (2 ^ 63 - 1) / 2
  stride_le : Slab.strideOf (config.objectSize + 8) ≤ config.pageSize
  page_le : config.pageSize ≤ 2 ^ 63 - 8

/-- The occupancy that a slab should be listed with. -/
def CacheEntry.occupancy (e : CacheEntry) : Occupancy :=
  .classify e.slab.allocated e.slab.capacity

theorem Occupancy.classify_eq_empty_iff {allocated capacity : Nat} :
    classify allocated capacity = .empty ↔ allocated = 0 := by
  unfold classify
  split
  · next h => simp [h]
  · next h => split <;> simp [h]

theorem Occupancy.classify_eq_full_iff {allocated capacity : Nat} :
    classify allocated capacity = .full ↔ allocated ≠ 0 ∧ allocated = capacity := by
  unfold classify
  split
  · next h => simp [h]
  · next h => split <;> simp_all

/-- Changing one place of a list of options changes at most one of its values. -/
theorem reduceOption_set {β : Type} {l : List (Option β)} {i : Nat} {y : Option β}
    (h : l[i]? = some y) :
    ∃ R : Multiset β, (l.reduceOption : Multiset β) = y.elim R (· ::ₘ R) ∧
      ∀ x : Option β, ((l.set i x).reduceOption : Multiset β) = x.elim R (· ::ₘ R) := by
  induction l generalizing i with
  | nil => cases h
  | cons z l ih =>
    cases i with
    | zero =>
      obtain rfl : z = y := Option.some.inj h
      refine ⟨l.reduceOption, ?_, fun x => ?_⟩
      · cases z <;> rfl
      · cases x <;> rfl
    | succ i =>
      obtain ⟨R, before, after⟩ := ih h
      cases z with
      | none => exact ⟨R, before, after⟩
      | some w =>
        refine ⟨w ::ₘ R, ?_, fun x => ?_⟩
        · rw [List.reduceOption_cons_of_some, ← Multiset.cons_coe, before]
          cases y with
          | none => rfl
          | some v => exact Multiset.cons_swap w v R
        · rw [List.set_cons_succ, List.reduceOption_cons_of_some, ← Multiset.cons_coe, after x]
          cases x with
          | none => rfl
          | some v => exact Multiset.cons_swap w v R

namespace Cache

variable {α : Type} {c : Cache α} {m m' : Memory} {id j a p : Nat} {e d : CacheEntry}
  {objs : List Nat}

/-! ### Slabs by number -/

/-- The slabs of a cache. -/
def registered (c : Cache α) : Multiset CacheEntry :=
  (c.slabs.toList.reduceOption : List CacheEntry)

/-- The lease that a slab lies in. -/
def lease (c : Cache α) (e : CacheEntry) : Lease :=
  ⟨⟨e.block, e.slab.extent.len⟩, c.extentLayout⟩

/-- The leases of all slabs. -/
def leases (c : Cache α) : Multiset Lease :=
  c.registered.map c.lease

theorem lookup?_eq_some_iff : c.lookup? id = some e ↔ c.slabs[id]? = some (some e) := by
  unfold lookup?
  rw [Option.join_eq_some_iff]

theorem lt_size_of_lookup? (h : c.lookup? id = some e) : id < c.slabs.size :=
  (Array.getElem?_eq_some_iff.mp (lookup?_eq_some_iff.mp h)).1

theorem mem_registered : e ∈ c.registered ↔ ∃ id, c.lookup? id = some e := by
  simp only [lookup?_eq_some_iff]
  unfold registered
  rw [Multiset.mem_coe, List.reduceOption_mem_iff, List.mem_iff_getElem?]
  simp only [Array.getElem?_toList]

theorem mem_entries {o : Option CacheEntry} : (o, id) ∈ c.entries ↔ c.slabs[id]? = some o := by
  unfold entries
  rw [List.mem_zipIdx_iff_getElem?, Array.getElem?_toList]

/-! ### The books -/

/-- The sizes of a cache that was made from an accepted configuration. -/
structure Configured (c : Cache α) : Prop where
  object_pos : 0 < c.config.objectSize
  stride_dvd : 8 ∣ c.stride
  object_le : 8 + c.config.objectSize ≤ c.stride
  perSlab_pos : 0 < c.perSlab
  room : c.perSlab * c.stride ≤ c.extentLayout.size
  size_eq : c.extentLayout.size = c.config.pageSize
  align_eq : c.extentLayout.align = 8

theorem Configured.layout_pos (k : c.Configured) : 0 < c.extentLayout.size := by
  have := k.room
  have := k.object_le
  have := Nat.mul_pos k.perSlab_pos (by omega : 0 < c.stride)
  omega

/-- The books agree with each other. -/
structure Booked (c : Cache α) : Prop where
  configured : c.Configured
  roster : c.roster.Valid
  place : ∀ id, c.roster.placeOf id = (c.lookup? id).map CacheEntry.occupancy
  listed : c.listed = c.registered.card
  vacant : ∀ id, id ∈ c.vacant ↔ c.slabs[id]? = some none
  nodup : c.vacant.Nodup
  count : c.registered.card + c.vacant.length = c.slabs.size
  size_le : c.slabs.size ≤ Word.bound
  live : c.live = (c.registered.map fun e => e.slab.allocated).sum
  limit : c.config.maxSlabs ≠ 0 → c.registered.card ≤ c.config.maxSlabs
  allocs : c.counters.allocs = c.counters.frees + c.live
  acquired : c.counters.acquired = c.counters.released + c.counters.abandoned + c.registered.card

theorem Booked.slabCount_eq (b : c.Booked) : c.slabCount = c.registered.card := by
  have := b.count
  unfold slabCount
  omega

/-- What is listed on a sequence is a slab that belongs there. -/
theorem Booked.exists_of_placeOf {x : Occupancy} (b : c.Booked) (h : c.roster.placeOf id = some x) :
    ∃ e, c.lookup? id = some e ∧ e.occupancy = x := by
  rwa [b.place, Option.map_eq_some_iff] at h

theorem Booked.with_allocator (b : c.Booked) (x : α) : { c with allocator := x }.Booked :=
  ⟨{ b.configured with }, b.roster, b.place, b.listed, b.vacant, b.nodup, b.count, b.size_le,
    b.live, b.limit, b.allocs, b.acquired⟩

/-! ### The slabs in memory -/

/-- A slab is cut as the cache cuts slabs, from the block that it lies in. -/
structure Cut (c : Cache α) (e : CacheEntry) : Prop where
  start : e.slab.extent.start = e.block
  stride : e.slab.stride = c.stride
  capacity : e.slab.capacity = c.perSlab
  aligned : 8 ∣ e.slab.first

/-- The slabs are in order in memory. -/
structure Housed (c : Cache α) (m : Memory) : Prop where
  cut : ∀ {id e}, c.lookup? id = some e → c.Cut e
  sound : ∀ {id e}, c.lookup? id = some e → e.slab.Sound m
  apart : ∀ {id j e d}, c.lookup? id = some e → c.lookup? j = some d → id ≠ j →
    e.slab.extent.Apart d.slab.extent
  owner : ∀ {id e a}, c.lookup? id = some e → e.slab.Taken m a → m.readWord a = id

/-- The bytes of an object. -/
def room (c : Cache α) (p : Nat) : Extent :=
  ⟨p, c.config.objectSize⟩

/-- The bytes of an object and of its owner header. -/
def cell (c : Cache α) (p : Nat) : Extent :=
  ⟨p - 8, 8 + c.config.objectSize⟩

theorem room_subset_cell {x : Nat} (hx : x ∈ c.room p) : x ∈ c.cell p := by
  rw [Extent.mem_iff] at hx ⊢
  dsimp only [room, cell] at hx ⊢
  omega

namespace Housed

theorem with_allocator (h : c.Housed m) (x : α) : { c with allocator := x }.Housed m :=
  ⟨fun he => { h.cut he with }, h.sound, h.apart, h.owner⟩

theorem mem_extent (h : c.Housed m) (he : c.lookup? id = some e) (ha : e.slab.HasSlot a) {x : Nat}
    (lo : a ≤ x) (hi : x < a + c.stride) : x ∈ e.slab.extent := by
  have := (h.sound he).shaped.slot_bounds ha
  rw [(h.cut he).stride] at this
  exact Extent.mem_iff.mpr ⟨by omega, by omega⟩

/-- A slab is full if all of its slots are handed out. -/
theorem occupancy_eq_full_iff (h : c.Housed m) (k : c.Configured) (he : c.lookup? id = some e) :
    e.occupancy = .full ↔ e.slab.allocated = e.slab.capacity := by
  have pos : 0 < e.slab.capacity := (h.cut he).capacity ▸ k.perSlab_pos
  refine Occupancy.classify_eq_full_iff.trans (and_iff_right_of_imp fun full => ?_)
  rw [full]
  exact pos.ne'

/-- An object and its owner header lie in a slot. -/
theorem cell_subset (h : c.Housed m) (k : c.Configured) (he : c.lookup? id = some e)
    (slot : e.slab.HasSlot (p - 8)) {x : Nat} (hx : x ∈ c.cell p) : x ∈ e.slab.extent := by
  have := k.object_le
  have := Extent.mem_iff.mp hx
  dsimp only [cell] at this
  exact h.mem_extent he slot (by omega) (by omega)

/-- An address lies in one slab at the most. -/
theorem eq_of_mem (h : c.Housed m) (he : c.lookup? id = some e) (hd : c.lookup? j = some d)
    {x : Nat} (hx : x ∈ e.slab.extent) (hx' : x ∈ d.slab.extent) : id = j := by
  by_contra ne
  exact (h.apart he hd ne).not_mem hx hx'

/-- The search for the slab of an address finds a slab that holds it. -/
theorem ownerOf?_some (found : c.ownerOf? a = some (id, e)) :
    c.lookup? id = some e ∧ a ∈ e.slab.extent := by
  obtain ⟨⟨o, j⟩, mem, hit⟩ := List.exists_of_findSome?_eq_some found
  rw [mem_entries] at mem
  cases o with
  | none => cases hit
  | some d =>
    dsimp only at hit
    split at hit
    · next covers =>
      cases hit
      exact ⟨lookup?_eq_some_iff.mpr mem, Extent.covers_iff.mp covers⟩
    · cases hit

/-- **The search for the slab** of an address finds the only slab that holds it. -/
theorem ownerOf?_eq (h : c.Housed m) (he : c.lookup? id = some e) (ha : a ∈ e.slab.extent) :
    c.ownerOf? a = some (id, e) := by
  cases found : c.ownerOf? a with
  | none =>
    have miss := List.findSome?_eq_none_iff.mp found (some e, id)
      (mem_entries.mpr (lookup?_eq_some_iff.mp he))
    dsimp only at miss
    rw [if_pos (Extent.covers_iff.mpr ha)] at miss
    cases miss
  | some t =>
    obtain ⟨j, d⟩ := t
    obtain ⟨hd, inside⟩ := ownerOf?_some found
    obtain rfl := h.eq_of_mem he hd ha inside
    rw [he] at hd
    cases hd
    rfl

/-- Different slots do not overlap, be they in one slab or in two. -/
theorem slot_apart (h : c.Housed m) (he : c.lookup? id = some e) (hd : c.lookup? j = some d)
    {b : Nat} (ha : e.slab.HasSlot a) (hb : d.slab.HasSlot b) (ne : a ≠ b) :
    a + c.stride ≤ b ∨ b + c.stride ≤ a := by
  by_cases same : id = j
  · subst same
    obtain rfl := Option.some.inj (he.symm.trans hd)
    exact (h.cut he).stride ▸ ha.apart hb ne
  · have bounds := (h.sound he).shaped.slot_bounds ha
    have bounds' := (h.sound hd).shaped.slot_bounds hb
    have off := h.apart he hd same
    rw [(h.cut he).stride] at bounds
    rw [(h.cut hd).stride] at bounds'
    unfold Extent.Apart at off
    omega

/-- The owner header of a slot lies in no object. -/
theorem header_not_mem (h : c.Housed m) (k : c.Configured) (he : c.lookup? id = some e)
    (hd : c.lookup? j = some d) (ha : e.slab.HasSlot a) {b x : Nat} (hb : d.slab.HasSlot b)
    (lo : a ≤ x) (hi : x < a + 8) : x ∉ c.room (b + 8) := by
  have := k.object_le
  rintro hx
  rw [Extent.mem_iff] at hx
  dsimp only [room] at hx
  -- In its own slot the header is before the object, and other slots are apart.
  by_cases same : a = b
  · omega
  · have := h.slot_apart he hd ha hb same
    omega

/-- Links and owner headers are the first words of slots, which no object has. -/
theorem readWord_slot (h : c.Housed m) (k : c.Configured) (he : c.lookup? id = some e)
    (ha : e.slab.HasSlot a) (same : ∀ x ∈ e.slab.extent,
      (∀ b, e.slab.Taken m b → x ∉ c.room (b + 8)) → m'.read x = m.read x) :
    m'.readWord a = m.readWord a := by
  have := k.object_le
  exact Memory.readWord_congr fun x lo hi => same x (h.mem_extent he ha lo (by omega))
    fun b hb => h.header_not_mem k he he ha hb.1 lo hi

/-- **A cache does not see** what happens in the objects that are out, nor outside its slabs. -/
theorem frame (h : c.Housed m) (k : c.Configured)
    (same : ∀ {id e}, c.lookup? id = some e → ∀ x ∈ e.slab.extent,
      (∀ a, e.slab.Taken m a → x ∉ c.room (a + 8)) → m'.read x = m.read x) :
    c.Housed m' ∧ ∀ {id e}, c.lookup? id = some e → ∀ a, e.slab.Taken m' a ↔ e.slab.Taken m a := by
  have word {id : Nat} {e : CacheEntry} (he : c.lookup? id = some e) {a : Nat}
      (ha : e.slab.HasSlot a) : m'.readWord a = m.readWord a := h.readWord_slot k he ha (same he)
  have kept {id : Nat} {e : CacheEntry} (he : c.lookup? id = some e) :=
    (h.sound he).frame fun a ha _ => word he ha
  refine ⟨⟨h.cut, fun he => (kept he).1, h.apart, fun {id e a} he ha => ?_⟩, fun he => (kept he).2⟩
  have taken := ((kept he).2 a).mp ha
  rw [word he taken.1]
  exact h.owner he taken

end Housed

/-! ### Objects -/

/-- The slot at the address is out. -/
def Handed (c : Cache α) (m : Memory) (a : Nat) : Prop :=
  ∃ id e, c.lookup? id = some e ∧ e.slab.Taken m a

theorem Housed.handed_iff (h : c.Housed m) (he : c.lookup? id = some e) (slot : e.slab.HasSlot a) :
    c.Handed m a ↔ e.slab.Taken m a := by
  constructor
  · rintro ⟨j, d, hd, taken⟩
    obtain rfl := h.eq_of_mem he hd ((h.sound he).shaped.slot_mem slot)
      ((h.sound hd).shaped.slot_mem taken.1)
    rw [he] at hd
    cases hd
    exact taken
  · intro taken
    exact ⟨id, e, he, taken⟩

/-- The bytes of some objects. -/
def rooms (c : Cache α) (objs : List Nat) : Multiset Extent :=
  (objs.map c.room : List Extent)

theorem mem_rooms (hp : p ∈ objs) : c.room p ∈ c.rooms objs :=
  Multiset.mem_coe.mpr (List.mem_map_of_mem hp)

/-- The bytes of some objects and of their owner headers. -/
def cells (c : Cache α) (objs : List Nat) : Multiset Extent :=
  (objs.map c.cell : List Extent)

theorem mem_cells (hp : p ∈ objs) : c.cell p ∈ c.cells objs :=
  Multiset.mem_coe.mpr (List.mem_map_of_mem hp)

theorem keeps_rooms (kept : m.Keeps m' (c.cells objs)) : m.Keeps m' (c.rooms objs) := by
  rintro f hf x hx
  obtain ⟨p, hp, rfl⟩ := List.mem_map.mp (Multiset.mem_coe.mp hf)
  exact kept _ (mem_cells hp) x (room_subset_cell hx)

/-- The objects that are out. -/
structure Objects (c : Cache α) (m : Memory) (objs : List Nat) : Prop where
  nodup : objs.Nodup
  mem : ∀ p, p ∈ objs ↔ 8 ≤ p ∧ c.Handed m (p - 8)
  length : objs.length = c.live

/-- The objects that are out follow the slots that are. -/
theorem Objects.congr {c' : Cache α} (h : c.Objects m objs) (live : c'.live = c.live)
    (handed : ∀ a, c'.Handed m' a ↔ c.Handed m a) : c'.Objects m' objs :=
  ⟨h.nodup, fun p => (h.mem p).trans (and_congr_right fun _ => (handed (p - 8)).symm),
    h.length.trans live.symm⟩

theorem lease_extent (h : c.Housed m) (he : c.lookup? id = some e) :
    (c.lease e).extent = e.slab.extent := by
  show (⟨e.block, e.slab.extent.len⟩ : Extent) = e.slab.extent
  rw [← (h.cut he).start]

theorem mem_leased (h : c.Housed m) (he : c.lookup? id = some e) :
    e.slab.extent ∈ leased c.leases := by
  refine Multiset.mem_map.mpr ⟨c.lease e, ?_, lease_extent h he⟩
  exact Multiset.mem_map_of_mem _ (mem_registered.mpr ⟨id, he⟩)

/-- The cache is in order, and these are the objects that are out. -/
structure InOrder (c : Cache α) (m : Memory) (objs : List Nat) : Prop where
  booked : c.Booked
  housed : c.Housed m
  objects : c.Objects m objs

namespace InOrder

/-- The slot of an object that is out. -/
theorem exists_slot (o : c.InOrder m objs) (hp : p ∈ objs) :
    8 ≤ p ∧ ∃ id e, c.lookup? id = some e ∧ e.slab.Taken m (p - 8) :=
  (o.objects.mem p).mp hp

/-- What lies behind a slot is out if the slot is taken. -/
theorem mem_iff_taken (o : c.InOrder m objs) (he : c.lookup? id = some e)
    (slot : e.slab.HasSlot (p - 8)) : p ∈ objs ↔ e.slab.Taken m (p - 8) := by
  have pos := ((o.housed.sound he).shaped.slot_bounds slot).1
  rw [o.objects.mem, o.housed.handed_iff he slot]
  exact and_iff_right (by omega)

/-- Objects and their owner headers lie inside slabs. -/
theorem cell_mem_extent (o : c.InOrder m objs) (hp : p ∈ objs) {x : Nat} (hx : x ∈ c.cell p) :
    ∃ id e, c.lookup? id = some e ∧ e.slab.Taken m (p - 8) ∧ x ∈ e.slab.extent := by
  obtain ⟨-, id, e, he, taken⟩ := o.exists_slot hp
  exact ⟨id, e, he, taken, o.housed.cell_subset o.booked.configured he taken.1 hx⟩

theorem mem_extent (o : c.InOrder m objs) (hp : p ∈ objs) {x : Nat} (hx : x ∈ c.room p) :
    ∃ id e, c.lookup? id = some e ∧ e.slab.Taken m (p - 8) ∧ x ∈ e.slab.extent :=
  o.cell_mem_extent hp (room_subset_cell hx)

/-- An object that is out and its owner header lie in no other slot. -/
theorem cell_apart_slot (o : c.InOrder m objs) (he : c.lookup? id = some e)
    (slot : e.slab.HasSlot a) (hp : p ∈ objs) (ne : p ≠ a + 8) :
    (c.cell p).Apart ⟨a, c.stride⟩ := by
  obtain ⟨large, j, d, hd, taken⟩ := o.exists_slot hp
  have stride := o.booked.configured.object_le
  have off := o.housed.slot_apart hd he taken.1 slot (by omega)
  unfold Extent.Apart
  dsimp only [cell]
  omega

/-- Different objects do not overlap, and neither do their owner headers. -/
theorem cell_apart {q : Nat} (o : c.InOrder m objs) (hp : p ∈ objs) (hq : q ∈ objs) (ne : p ≠ q) :
    (c.cell p).Apart (c.cell q) := by
  obtain ⟨large, id, e, he, taken⟩ := o.exists_slot hq
  have stride := o.booked.configured.object_le
  have off := o.cell_apart_slot he taken.1 hp (by omega)
  unfold Extent.Apart at off ⊢
  dsimp only [cell] at off ⊢
  omega

theorem room_apart {q : Nat} (o : c.InOrder m objs) (hp : p ∈ objs) (hq : q ∈ objs) (ne : p ≠ q) :
    (c.room p).Apart (c.room q) := by
  have := (o.exists_slot hp).1
  have := (o.exists_slot hq).1
  have off := o.cell_apart hp hq ne
  unfold Extent.Apart at off ⊢
  dsimp only [cell, room] at off ⊢
  omega

theorem apart {q : Nat} (o : c.InOrder m objs) (hp : p ∈ objs) (hq : q ∈ objs) (ne : p ≠ q)
    {x : Nat} (hx : x ∈ c.room p) : x ∉ c.room q :=
  (o.room_apart hp hq ne).not_mem hx

/-- Objects and their owner headers stay where the bytes of all leases do. -/
theorem keeps (o : c.InOrder m objs) (kept : m.Keeps m' (leased c.leases)) :
    m.Keeps m' (c.cells objs) := by
  rintro f hf x hx
  obtain ⟨p, hp, rfl⟩ := List.mem_map.mp (Multiset.mem_coe.mp hf)
  obtain ⟨id, e, he, -, inside⟩ := o.cell_mem_extent hp hx
  exact kept _ (mem_leased o.housed he) x inside

/-- An address of a slab is in no object if it is in none of this slab. -/
theorem not_mem_room (o : c.InOrder m objs) (he : c.lookup? id = some e) {x : Nat}
    (hx : x ∈ e.slab.extent) (off : ∀ a, e.slab.Taken m a → x ∉ c.room (a + 8)) (hp : p ∈ objs) :
    x ∉ c.room p := by
  intro hx'
  obtain ⟨j, d, hd, taken, inside⟩ := o.mem_extent hp hx'
  obtain rfl := o.housed.eq_of_mem he hd hx inside
  obtain rfl := Option.some.inj (he.symm.trans hd)
  have := (o.exists_slot hp).1
  exact off (p - 8) taken ((by omega : p - 8 + 8 = p).symm ▸ hx')

/-- **A cache does not see** what happens in the objects that are out, nor outside its slabs. -/
theorem frame (o : c.InOrder m objs)
    (same : ∀ {id e}, c.lookup? id = some e → ∀ x ∈ e.slab.extent, (∀ p ∈ objs, x ∉ c.room p) →
      m'.read x = m.read x) :
    c.InOrder m' objs := by
  obtain ⟨housed, taken⟩ := o.housed.frame o.booked.configured fun he x hx off =>
    same he x hx fun _ => o.not_mem_room he hx off
  refine ⟨o.booked, housed, o.objects.congr rfl fun a => ⟨?_, ?_⟩⟩
  · rintro ⟨id, e, he, out⟩
    exact ⟨id, e, he, (taken he a).mp out⟩
  · rintro ⟨id, e, he, out⟩
    exact ⟨id, e, he, (taken he a).mpr out⟩

theorem kept (o : c.InOrder m objs) (kept : m.Keeps m' (leased c.leases)) : c.InOrder m' objs :=
  o.frame fun he x hx _ => kept _ (mem_leased o.housed he) x hx

theorem with_allocator (o : c.InOrder m objs) (x : α) : { c with allocator := x }.InOrder m objs :=
  ⟨o.booked.with_allocator x, o.housed.with_allocator x, o.objects.nodup, o.objects.mem,
    o.objects.length⟩

end InOrder

/-- Slots start at words. -/
theorem Housed.dvd_slot (h : c.Housed m) (k : c.Configured) (he : c.lookup? id = some e)
    (slot : e.slab.HasSlot a) : 8 ∣ a := by
  obtain ⟨i, -, rfl⟩ := slot
  unfold Slab.slotAddr
  rw [(h.cut he).stride]
  exact Nat.dvd_add (h.cut he).aligned (Nat.dvd_mul_left_of_dvd k.stride_dvd i)

/-- Objects start at words. -/
theorem InOrder.dvd_object (o : c.InOrder m objs) (hp : p ∈ objs) : 8 ∣ p := by
  obtain ⟨large, id, e, he, taken⟩ := o.exists_slot hp
  have slot : 8 ∣ p - 8 := o.housed.dvd_slot o.booked.configured he taken.1
  exact (Nat.dvd_sub_iff_left large (Nat.dvd_refl 8)).mp slot

/-- **The state of an object** is the occupancy of the slab that it lies in. -/
theorem InOrder.stateOf_eq (o : c.InOrder m objs) (hp : p ∈ objs) :
    ∃ id e, c.lookup? id = some e ∧ e.slab.Taken m (p - 8) ∧ c.stateOf p = some e.occupancy := by
  obtain ⟨large, id, e, he, taken⟩ := o.exists_slot hp
  have inside := (o.housed.sound he).shaped.slot_mem taken.1
  have owner : c.ownerOf? (p - header) = some (id, e) := o.housed.ownerOf?_eq he inside
  refine ⟨id, e, he, taken, ?_⟩
  unfold stateOf
  rw [if_neg (Nat.not_lt.mpr (show header ≤ p from large)), owner, Option.bind_some]
  show c.roster.placeOf id = _
  rw [o.booked.place, he]
  rfl

/-! ### Validation -/

theorem inspect_eq (n : Nat) (l : List (Option CacheEntry × Nat))
    (ok : ∀ o id, (o, id) ∈ l → c.roster.placeOf id = o.map CacheEntry.occupancy ∧
      ∀ e ∈ o, e.slab.validate m = .ok ()) :
    c.inspect m n l =
      .ok (n + ((l.map Prod.fst).reduceOption.map fun e => e.slab.allocated).sum) := by
  induction l generalizing n with
  | nil => rfl
  | cons t l ih =>
    obtain ⟨o, id⟩ := t
    obtain ⟨place, valid⟩ := ok o id List.mem_cons_self
    have rest n := ih n fun o id mem => ok o id (List.mem_cons_of_mem _ mem)
    cases o with
    | none =>
      unfold inspect
      rw [place, if_neg nofun, rest]
      rfl
    | some e =>
      have valid := valid e rfl
      have place : c.roster.placeOf id = some (.classify e.slab.allocated e.slab.capacity) := place
      unfold inspect
      rw [valid]
      show (if _ then _ else _) = _
      rw [if_pos place, rest, List.map_cons, List.reduceOption_cons_of_some, List.map_cons,
        List.sum_cons, Nat.add_assoc]

/-- **Validation of a cache in order** succeeds. -/
theorem validate_eq (b : c.Booked) (h : c.Housed m) : c.validate m = .ok () := by
  have inspected : c.inspect m 0 c.entries = .ok c.live := by
    rw [inspect_eq, b.live, Nat.zero_add]
    · unfold entries registered
      rw [List.zipIdx_map_fst]
      rfl
    · intro o id mem
      have here : c.lookup? id = o := by
        unfold lookup?
        rw [mem_entries.mp mem]
        rfl
      refine ⟨by rw [b.place, here], ?_⟩
      rintro e rfl
      exact (h.sound here).validate_eq
  unfold validate
  rw [b.roster.validate_eq]
  show (if _ then _ else _) = _
  rw [if_pos (b.listed.trans b.slabCount_eq.symm), inspected]
  exact if_pos rfl

/-! ### New caches -/

variable {config : CacheConfig} {allocator : α}

theorem strideOf_object_isLeast (config : CacheConfig) :
    IsLeast {k | 8 ∣ k ∧ config.objectSize + 8 ≤ k} (Slab.strideOf (config.objectSize + 8)) := by
  have least := Slab.strideOf_isLeast (config.objectSize + 8)
  rwa [Nat.max_eq_left (Nat.le_add_left ..)] at least

theorem slotStride_eq (small : config.objectSize ≤ Word.signedMax / 2) :
    config.slotStride = .ok (Slab.strideOf (config.objectSize + 8)) := by
  unfold Word.signedMax at small
  have sum : Word.saturatingAdd Word.bytes config.objectSize = config.objectSize + 8 := by
    unfold Word.saturatingAdd Word.max Word.bound
    rw [Word.bytes_eq]
    omega
  unfold CacheConfig.slotStride
  rw [sum]
  exact Slab.strideFor_of_lt (by unfold Word.bound; omega)

/-- Objects that are neither empty nor too large have a configuration that is accepted exactly if a
page has room for one slot. -/
theorem validate_eq_ite {stride : Nat} (some : config.objectSize ≠ 0)
    (small : config.objectSize ≤ Word.signedMax / 2) (cut : config.slotStride = .ok stride)
    (pos : 0 < stride) :
    config.validate =
      if config.pageSize < stride then
        Checked.fault (.invalidArgument
          s!"page_size {config.pageSize} cannot hold one {stride}-byte slot")
      else .ok () := by
  have perSlab : config.objectsPerSlab = .ok (config.pageSize / stride) := by
    unfold CacheConfig.objectsPerSlab
    rw [cut]
    rfl
  unfold CacheConfig.validate
  rw [if_neg some, if_neg (Nat.not_lt.mpr small), perSlab, cut]
  show (if config.pageSize / stride = 0 then _ else _ : Checked Unit) = _
  rw [if_congr (Nat.div_eq_zero_iff_lt pos) rfl rfl]
  rfl

theorem new_of_validate_error {f : Failure} (refused : config.validate = .error f) :
    Cache.new config allocator = .error f := by
  unfold Cache.new
  rw [refused]
  rfl

/-- **A cache is made** from a configuration that fits, and from no other. -/
theorem new_cases (config : CacheConfig) (allocator : α) :
    (config.Fits ∧ ∃ l : Layout, l.size = config.pageSize ∧ l.align = 8 ∧
        Cache.new config allocator = .ok
          { config, allocator
            extentLayout := l
            stride := Slab.strideOf (config.objectSize + 8)
            perSlab := config.pageSize / Slab.strideOf (config.objectSize + 8) }) ∨
      (¬config.Fits ∧ ∃ reason,
        Cache.new config allocator = .error (.fault (.invalidArgument reason))) := by
  by_cases zero : config.objectSize = 0
  · have refused : config.validate =
        .error (.fault (.invalidArgument "object_size must be non-zero")) := if_pos zero
    exact .inr ⟨fun fits => absurd zero (Nat.ne_of_gt fits.object_pos), _,
      new_of_validate_error refused⟩
  by_cases large : Word.signedMax / 2 < config.objectSize
  · have refused : config.validate =
        .error (.fault (.invalidArgument "object_size too large")) :=
      (if_neg zero).trans (if_pos large)
    exact .inr ⟨fun fits => absurd large (Nat.not_lt.mpr fits.object_le), _,
      new_of_validate_error refused⟩
  have small := Nat.le_of_not_lt large
  have cut := slotStride_eq small
  have valid := validate_eq_ite zero small cut
    (Nat.lt_of_lt_of_le (by decide) (Slab.strideOf_ge _))
  by_cases crowded : config.pageSize < Slab.strideOf (config.objectSize + 8)
  · rw [if_pos crowded] at valid
    exact .inr ⟨fun fits => absurd crowded (Nat.not_lt.mpr fits.stride_le), _,
      new_of_validate_error valid⟩
  rw [if_neg crowded] at valid
  cases layout : Layout.of? config.pageSize Word.bytes with
  | none =>
    refine .inr ⟨fun fits => ?_, "page_size overflows a layout", ?_⟩
    · have page : Layout.of? config.pageSize Word.bytes =
          some ⟨config.pageSize, Word.bytes, rfl, fits.page_le⟩ :=
        Layout.of?_eq_some_iff.mpr ⟨rfl, rfl⟩
      cases layout.symm.trans page
    · unfold Cache.new
      rw [valid, layout]
      rfl
  | some l =>
    obtain ⟨size_eq, align_eq⟩ := Layout.of?_eq_some_iff.mp layout
    have page := l.fits
    rw [size_eq, align_eq] at page
    refine .inl ⟨⟨Nat.pos_of_ne_zero zero, small, Nat.le_of_not_lt crowded, page⟩, l, size_eq,
      align_eq, ?_⟩
    unfold Cache.new CacheConfig.objectsPerSlab
    rw [valid, layout, cut]
    rfl

/-- **A new cache** is in order, and has no slab. -/
theorem new_spec (made : Cache.new config allocator = .ok c) :
    c.Booked ∧ c.slabs = #[] ∧ c.counters = {} ∧ c.config = config ∧ c.allocator = allocator ∧
      c.roster = {} := by
  obtain ⟨fits, l, size_eq, align_eq, new⟩ | ⟨-, reason, refused⟩ := new_cases config allocator
  · cases made.symm.trans new
    obtain ⟨whole, large⟩ := (strideOf_object_isLeast config).1
    refine ⟨⟨⟨fits.object_pos, whole, Nat.add_comm .. ▸ large, ?_, ?_, size_eq, align_eq⟩, .new,
      fun _ => rfl, rfl, fun id => ?_, .nil, rfl, Nat.zero_le _, rfl, fun _ => Nat.zero_le _, rfl,
      rfl⟩, rfl, rfl, rfl, rfl, rfl⟩
    · exact Nat.div_pos fits.stride_le (Nat.lt_of_lt_of_le (by decide) (Slab.strideOf_ge _))
    · rw [size_eq]
      exact Nat.div_mul_le_self ..
    · simp
  · cases made.symm.trans refused

end Cache

end LayeredMemory
