import LayeredMemory.Proofs.Cache.Return

/-!
# Damage — what a rejected return may overwrite

`free` fills the bytes of an object before the slab checks that there is one. So an address that is
no object may cost bytes of others: objects that are out with their owner headers, and links of free
slots, which are all `Guarded`. This takes an address in the middle of a slot whose word before is
by chance the number of a slab. Where the word before names no slab, nothing was filled, and where
it is the first word of a slot, the bytes that were filled are nobody's.

* `InOrder.not_guarded`: nothing in the object of a free slot is guarded.
* `Rejects.kept_iff`: when all guarded bytes stay.
* `reachable_rejects`: so it is after every run. `reachable_overwrites` is a run after which they do
  not stay.
-/

namespace LayeredMemory.Cache

variable {α : Type} {c : Cache α} {m m' : Memory} {p x : Nat} {objs : List Nat}

/-- A byte that a rejected return has no business with: of an object that is out or of its owner
header, or of the link in a free slot. -/
def Guarded (c : Cache α) (m : Memory) (objs : List Nat) (x : Nat) : Prop :=
  (∃ q ∈ objs, x ∈ c.cell q) ∨
    ∃ id e a, c.lookup? id = some e ∧ a ∈ e.slab.freeChain m ∧ a ≤ x ∧ x < a + 8

/-- **Behind a slot that is not taken** nothing is guarded. -/
theorem InOrder.not_guarded {id : Nat} {e : CacheEntry} (o : c.InOrder m objs) (absent : p ∉ objs)
    (he : c.lookup? id = some e) (slot : e.slab.HasSlot (p - header)) (hx : x ∈ c.room p) :
    ¬c.Guarded m objs x := by
  have pos : 0 < p - 8 := ((o.housed.sound he).shaped.slot_bounds slot).1
  have behind : p - 8 + 8 = p := by omega
  have stride := o.booked.configured.object_le
  rintro (⟨q, hq, hx'⟩ | ⟨j, d, a, hd, free, lo, hi⟩)
  · have ne : q ≠ p - 8 + 8 := fun same => absent (behind ▸ same ▸ hq)
    have off := (o.cell_apart_slot he slot hq ne).not_mem hx'
    rw [Extent.mem_iff] at off hx
    dsimp only [room, header, Word.bytes] at off hx
    omega
  · have link := (o.housed.sound hd).free.slots a free
    exact o.housed.header_not_mem o.booked.configured hd he link slot lo hi (behind.symm ▸ hx)

/-- Only the bytes of the object that there would be can change. -/
theorem read_retired_of_not_mem (off : x ∉ c.room p) : (c.retired m p).read x = m.read x :=
  (Pattern.read_filled _ _ _ m x).trans (if_neg off)

/-- A byte stays under the pattern if it is that of the pattern already. -/
theorem read_retired_iff (hx : x ∈ c.room p) :
    (c.retired m p).read x = m.read x ↔ ∀ b ∈ c.config.deallocPattern, m.read x = b := by
  have written : (c.retired m p).read x = c.config.deallocPattern.getD (m.read x) :=
    (Pattern.read_filled _ _ _ m x).trans (if_pos hx)
  rw [written]
  cases c.config.deallocPattern with
  | none => simp
  | some b => simp [eq_comm]

namespace Rejects

variable {k : Stop}

/-- A return is rejected before or after the fill. -/
theorem memory_cases (h : c.Rejects m p k m') :
    c.lookup? (m.readWord (p - header)) = none ∧ m' = m ∨
      c.lookup? (m.readWord (p - header)) ≠ none ∧ m' = c.retired m p := by
  cases h with
  | ownerless none => exact .inl ⟨none, rfl⟩
  | foreign he => exact .inr ⟨he ▸ nofun, rfl⟩
  | free he => exact .inr ⟨he ▸ nofun, rfl⟩

theorem read_of_not_mem (h : c.Rejects m p k m') (off : x ∉ c.room p) :
    m'.read x = m.read x := by
  rcases h.memory_cases with ⟨-, rfl⟩ | ⟨-, rfl⟩
  · rfl
  · exact read_retired_of_not_mem off

/-- **Guarded bytes stay** if nothing was filled, or if none of them shows the fill. -/
theorem kept_iff (h : c.Rejects m p k m') :
    (∀ x, c.Guarded m objs x → m'.read x = m.read x) ↔
      c.lookup? (m.readWord (p - header)) = none ∨
        ∀ x ∈ c.room p, c.Guarded m objs x → ∀ b ∈ c.config.deallocPattern, m.read x = b := by
  rcases h.memory_cases with ⟨none, rfl⟩ | ⟨named, rfl⟩
  · exact ⟨fun _ => .inl none, fun _ _ _ => rfl⟩
  · rw [or_iff_right named]
    constructor
    · exact fun kept x hx guarded => (read_retired_iff hx).mp (kept x guarded)
    · intro same x guarded
      by_cases hx : x ∈ c.room p
      · exact (read_retired_iff hx).mpr (same x hx guarded)
      · exact read_retired_of_not_mem hx

end Rejects

variable [Allocator α] {K : AllocatorContract α} {σ : Session α} {n : Nat}

/-- **What a rejected return costs.** After every run, giving back an address that is no object that
is out stops, and leaves the cache as it was. Of memory nothing changes but the bytes that the
object would have. The objects that are out, their owner headers and the links of free slots stay
exactly if the word before the address names no slab, or if all of their bytes that are in the way
are those of the pattern already; so they do if there is no pattern, and if the address is behind
the first word of a slot. -/
theorem reachable_rejects (reachable : Reachable K n σ) (absent : p ∉ σ.live) :
    ∃ k m, free p ⟨σ.cache, σ.memory⟩ = .error (.stop k) ⟨σ.cache, m⟩ ∧
      (∀ x, x ∉ σ.cache.room p → m.read x = σ.memory.read x) ∧
      ((∀ x, σ.cache.Guarded σ.memory σ.live x → m.read x = σ.memory.read x) ↔
        σ.cache.lookup? (σ.memory.readWord (p - header)) = none ∨
          ∀ x ∈ σ.cache.room p, σ.cache.Guarded σ.memory σ.live x →
            ∀ b ∈ σ.cache.config.deallocPattern, σ.memory.read x = b) ∧
      (σ.cache.config.deallocPattern = none ∨
          (∃ id e, σ.cache.lookup? id = some e ∧ e.slab.HasSlot (p - header)) →
        ∀ x, σ.cache.Guarded σ.memory σ.live x → m.read x = σ.memory.read x) := by
  have order := reachable.sound.1.serves.toInOrder
  obtain ⟨k, m, stopped, rejects⟩ := order.free_rejects absent
  refine ⟨k, m, stopped, fun x off => rejects.read_of_not_mem off, rejects.kept_iff, ?_⟩
  rintro (none | ⟨id, e, he, slot⟩)
  · refine rejects.kept_iff.mpr (.inr fun x _ _ b hb => ?_)
    rw [none] at hb
    cases hb
  · refine rejects.kept_iff.mpr (.inr fun x hx guarded => ?_)
    exact (order.not_guarded absent he slot hx guarded).elim

theorem reachable_rejects_ownerless : ∃ (σ : Session (Heap NoGrowth)) (k : Stop) (m : Memory),
    σ.live = [4152] ∧ free 4120 ⟨σ.cache, σ.memory⟩ = .error (.stop k) ⟨σ.cache, m⟩ ∧
    ∀ x ∈ σ.cache.cell 4152, m.read x = σ.memory.read x := by
  obtain ⟨D, m₀, σ, reachable, seen⟩ := exists_reachable_over_heap
    { objectSize := 24, pageSize := 256 } [.alloc, .alloc, .tryFree 4120]
    (fun σ => (σ.live, (σ.cache.lookup? (σ.memory.readWord 4112)).isNone))
    (by decide) (by decide +kernel : _ = some ([4152], true))
  obtain ⟨live, none⟩ := Prod.mk.inj seen
  have absent : 4120 ∉ σ.live := by rw [live]; decide
  obtain ⟨k, m, stopped, -, kept, -⟩ := reachable_rejects reachable absent
  have held : 4152 ∈ σ.live := by rw [live]; decide
  refine ⟨σ, k, m, live, stopped, fun x hx => ?_⟩
  exact kept.mpr (.inl (Option.isNone_iff_eq_none.mp none)) x (.inl ⟨4152, held, hx⟩)

/-- **A rejected return can do damage.** Two objects of zero bytes are out. In the middle of the
first, the word before reads as the number of the slab, so the bytes from there on are filled, and
the owner header of the second with them, before the slab finds that there is no slot. -/
theorem reachable_overwrites : ∃ (D : Multiset Extent) (m₀ : Memory) (σ : Session (Heap NoGrowth))
    (k : Stop) (m : Memory), Reachable (Heap.contract NoGrowth.contract D m₀) 2 σ ∧
    σ.live = [4152, 4120] ∧ free 4128 ⟨σ.cache, σ.memory⟩ = .error (.stop k) ⟨σ.cache, m⟩ ∧
    4128 ∈ σ.cache.room 4120 ∧ m.read 4128 ≠ σ.memory.read 4128 ∧
    4144 ∈ σ.cache.cell 4152 ∧ m.read 4144 ≠ σ.memory.read 4144 := by
  obtain ⟨D, m₀, σ, reachable, seen⟩ := exists_reachable_over_heap
    { objectSize := 24, pageSize := 64, allocPattern := some 0 } [.alloc, .alloc]
    (fun σ => (σ.live, σ.cache.config.objectSize, [4128, 4144].map σ.memory.read,
      [4128, 4144].map (Action.final (free 4128 ⟨σ.cache, σ.memory⟩)).memory.read))
    (by decide)
    (by decide +kernel : _ = some ([4152, 4120], 24, [(0 : UInt8), 0], [(0xDD : UInt8), 0xDD]))
  have absent : 4128 ∉ σ.live := by
    rw [(Prod.mk.inj seen).1]
    decide
  obtain ⟨k, m, stopped, -⟩ := reachable.sound.1.serves.free_rejects absent
  simp only [stopped, Action.final, Prod.mk.injEq, List.map_cons, List.cons.injEq] at seen
  obtain ⟨live, size, ⟨before, before', -⟩, after, after', -⟩ := seen
  refine ⟨D, m₀, σ, k, m, reachable, live, stopped, ?_, ?_, ?_, ?_⟩
  · rw [Extent.mem_iff]
    dsimp only [room]
    omega
  · rw [before, after]
    decide
  · rw [Extent.mem_iff]
    dsimp only [cell]
    omega
  · rw [before', after']
    decide

end LayeredMemory.Cache
