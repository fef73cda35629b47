import LayeredMemory.Proofs.Cache.Session

/-!
# Returns — objects given back, checked or not

An address can be given back in two ways. `tryFree` checks everything first, and refuses what is no
object with a reason. `free` believes the word before the address: if that is the number of a slab,
the slab itself checks whether the address is a slot that is taken, and stops (`Rejects`).

The word before the address may be anything: the header of an object, the link of a free slot, which
may be zero and so the number of a slab, or what a client wrote into an object. The slab is asked
only after the object was filled with a pattern. Neither matters: a fill changes no link, so a slot
that was free is still found to be.

* `InOrder.tryFree_refuses`, `InOrder.free_rejects`: what is no object is not taken back, and the
  cache stays as it was.
* `reachable_refuses`: `tryFree` takes back exactly the objects that are out.
* `reachable_free_agrees`: `free` succeeds exactly where `tryFree` does, in the same way.
-/

namespace LayeredMemory.Cache

variable {α : Type} {c : Cache α} {m : Memory} {p : Nat} {objs : List Nat}

/-! ### Checked -/

section Checked

variable [Allocator α]

theorem tryFree_of_none (accepted : c.refusal? m p = none) :
    tryFree p ⟨c, m⟩ = free p ⟨c, m⟩ := by
  unfold tryFree
  rw [Action.part_bind, Action.memory_bind, accepted]

theorem tryFree_of_some {reason : String} (refused : c.refusal? m p = some reason) :
    tryFree p ⟨c, m⟩ = .error (.fault (.invalidFree p reason)) ⟨c, m⟩ := by
  unfold tryFree
  rw [Action.part_bind, Action.memory_bind, refused]
  rfl

/-- **An address that is no object** is refused with a reason, and nothing happens. -/
theorem InOrder.tryFree_refuses (o : c.InOrder m objs) (absent : p ∉ objs) :
    ∃ reason, c.Unfit m p reason ∧
      tryFree p ⟨c, m⟩ = .error (.fault (.invalidFree p reason)) ⟨c, m⟩ := by
  rcases o.refusal?_cases p with ⟨-, hp⟩ | ⟨reason, refused, unfit⟩
  · exact (absent hp).elim
  · exact ⟨reason, unfit, tryFree_of_some refused⟩

end Checked

/-! ### Unchecked -/

/-- Memory after the bytes of an object were filled, as they are when it is taken back. -/
def retired (c : Cache α) (m : Memory) (p : Nat) : Memory :=
  c.config.deallocPattern.filled p c.config.objectSize m

/-- How giving back what is no object ends, and memory then. -/
inductive Rejects (c : Cache α) (m : Memory) (p : Nat) : Stop → Memory → Prop
  | ownerless (none : c.lookup? (m.readWord (p - header)) = none) :
      Rejects c m p (.ownerless p (m.readWord (p - header))) m
  | foreign {e : CacheEntry} (he : c.lookup? (m.readWord (p - header)) = some e)
      (off : ¬e.slab.HasSlot (p - header)) :
      Rejects c m p (.foreignSlot (p - header)) (c.retired m p)
  | free {e : CacheEntry} (he : c.lookup? (m.readWord (p - header)) = some e)
      (free : p - header ∈ e.slab.freeChain m) :
      Rejects c m p (.doubleFree (p - header)) (c.retired m p)

/-- Filling the object of a slot, taken or not, is no matter of any slab. -/
theorem Housed.sound_retired {id j : Nat} {e d : CacheEntry} (h : c.Housed m) (k : c.Configured)
    (he : c.lookup? id = some e) (hd : c.lookup? j = some d) (slot : d.slab.HasSlot (p - header)) :
    e.slab.Sound (c.retired m p) ∧
      ∀ a, e.slab.Taken (c.retired m p) a ↔ e.slab.Taken m a := by
  have pos : 0 < p - 8 := ((h.sound hd).shaped.slot_bounds slot).1
  refine (h.sound he).frame fun a ha _ => Memory.readWord_congr fun x lo hi => ?_
  have off : x ∉ c.room (p - 8 + 8) := h.header_not_mem k he hd ha slot lo hi
  rw [(by omega : p - 8 + 8 = p)] at off
  exact (Pattern.read_filled _ _ _ m x).trans (if_neg off)

variable [Allocator α]

/-- **What is no object is rejected**, and the cache stays as it was. -/
theorem InOrder.free_rejects (o : c.InOrder m objs) (absent : p ∉ objs) :
    ∃ k m', free p ⟨c, m⟩ = .error (.stop k) ⟨c, m'⟩ ∧ c.Rejects m p k m' := by
  unfold free
  rw [Action.part_bind, Action.memory_bind]
  dsimp only
  cases he : c.lookup? (m.readWord (p - header)) with
  | none => exact ⟨_, m, rfl, .ownerless he⟩
  | some e =>
    have pos := (o.housed.sound he).stride_pos
    dsimp only
    rw [Action.bind_of_ok (Pattern.fill_eq _ _ _ c m)]
    by_cases slot : e.slab.HasSlot (p - header)
    case neg =>
      have stopped := onSlab_of_error he (Slab.free_of_not_slot (m := c.retired m p) pos slot)
      exact ⟨_, _, Action.bind_of_error stopped, .foreign he slot⟩
    -- The slot is free, and still is when its object was filled.
    have out := (o.mem_iff_taken he slot).not.mp absent
    obtain ⟨-, taken⟩ := o.housed.sound_retired o.booked.configured he he slot
    have still := slot.mem_freeChain_iff.mpr ((taken _).not.mpr out)
    have stopped := onSlab_of_error he (Slab.free_of_free pos slot still)
    exact ⟨_, _, Action.bind_of_error stopped, .free he (slot.mem_freeChain_iff.mpr out)⟩

/-! ### After every run -/

variable {K : AllocatorContract α} {σ : Session α} {n : Nat}

/-- **Objects can be taken back**, checked or not. -/
theorem Serves.free_runs (s : c.Serves K m objs) (hp : p ∈ objs) :
    tryFree p ⟨c, m⟩ = free p ⟨c, m⟩ ∧ ∃ s', free p ⟨c, m⟩ = .ok () s' := by
  obtain ⟨q, holds⟩ := s.booked.roster
  refine ⟨tryFree_of_none (s.refusal?_eq_none_iff.mpr hp), ?_⟩
  rcases (free_spec s holds hp).cases with ⟨_, s', run, -⟩ | ⟨_, _, -, never⟩
  · exact ⟨s', run⟩
  · exact never.elim

/-- **A checked return is exact.** After every run, and for every address: `tryFree` succeeds
exactly if the address is an object that is out, and is `free` then. Every other address is refused
with a reason that is true of it, and neither the cache nor memory changes. -/
theorem reachable_refuses (reachable : Reachable K n σ) (p : Nat) :
    ((∃ s, tryFree p ⟨σ.cache, σ.memory⟩ = .ok () s) ↔ p ∈ σ.live) ∧
      (p ∈ σ.live → tryFree p ⟨σ.cache, σ.memory⟩ = free p ⟨σ.cache, σ.memory⟩ ∧
        ∃ σ', σ.serve (.tryFree p) = .ok σ' ∧ σ.serve (.free p) = .ok σ' ∧
          σ'.live = σ.live.erase p) ∧
      (p ∉ σ.live → ∃ reason, σ.cache.Unfit σ.memory p reason ∧
        tryFree p ⟨σ.cache, σ.memory⟩ =
          .error (.fault (.invalidFree p reason)) ⟨σ.cache, σ.memory⟩) := by
  have serves := reachable.sound.1.serves
  have refuses := serves.toInOrder.tryFree_refuses (p := p)
  refine ⟨⟨fun ⟨s, run⟩ => ?_, fun hp => ?_⟩, fun hp => ?_, refuses⟩
  · by_contra absent
    obtain ⟨_, -, refused⟩ := refuses absent
    exact nomatch run.symm.trans refused
  · obtain ⟨same, s, run⟩ := serves.free_runs hp
    exact ⟨s, same.trans run⟩
  · obtain ⟨same, s, run⟩ := serves.free_runs hp
    exact ⟨same, _, Action.conclude_of_ok (same.trans run), Action.conclude_of_ok run, rfl⟩

theorem reachable_refuses_one : ∃ (σ : Session (Heap NoGrowth)) (reason : String),
    σ.live = [4152] ∧ (∃ s, tryFree 4152 ⟨σ.cache, σ.memory⟩ = .ok () s) ∧
    tryFree 4120 ⟨σ.cache, σ.memory⟩ =
      .error (.fault (.invalidFree 4120 reason)) ⟨σ.cache, σ.memory⟩ := by
  obtain ⟨D, m₀, σ, reachable, live⟩ := exists_reachable_one
  obtain ⟨taken, -⟩ := reachable_refuses reachable 4152
  obtain ⟨-, -, refused⟩ := reachable_refuses reachable 4120
  rw [live] at taken refused
  obtain ⟨reason, -, run⟩ := refused (by decide)
  exact ⟨σ, reason, live, taken.mpr (by decide), run⟩

/-- **Believing the owner header is as good as checking.** After every run, and for every address:
`free` succeeds exactly where `tryFree` does, and both end in the same state. Everywhere else `free`
stops, and the cache is as it was, its slabs, sequences and counts. So does freeing an object a
second time, whatever its slot holds for a header then. -/
theorem reachable_free_agrees (reachable : Reachable K n σ) (p : Nat) :
    (∀ s, free p ⟨σ.cache, σ.memory⟩ = .ok () s ↔ tryFree p ⟨σ.cache, σ.memory⟩ = .ok () s) ∧
      ((¬∃ s, tryFree p ⟨σ.cache, σ.memory⟩ = .ok () s) →
        ∃ k m, free p ⟨σ.cache, σ.memory⟩ = .error (.stop k) ⟨σ.cache, m⟩ ∧
          σ.cache.Rejects σ.memory p k m) ∧
      ∀ id e, σ.cache.lookup? id = some e → p - header ∈ e.slab.freeChain σ.memory →
        ∃ k m, free p ⟨σ.cache, σ.memory⟩ = .error (.stop k) ⟨σ.cache, m⟩ := by
  have serves := reachable.sound.1.serves
  by_cases hp : p ∈ σ.live
  · obtain ⟨same, s, run⟩ := serves.free_runs hp
    refine ⟨fun _ => by rw [same], fun none => (none ⟨s, same.trans run⟩).elim,
      fun id e he free => ?_⟩
    have slot := (serves.housed.sound he).free.slots _ free
    exact (((serves.mem_iff_taken he slot).mp hp).2 free).elim
  · obtain ⟨k, m, stopped, rejects⟩ := serves.free_rejects hp
    obtain ⟨reason, -, refused⟩ := serves.tryFree_refuses hp
    refine ⟨fun s => ?_, fun _ => ⟨k, m, stopped, rejects⟩, fun _ _ _ _ => ⟨k, m, stopped⟩⟩
    rw [stopped, refused]
    exact ⟨nofun, nofun⟩

theorem reachable_free_agrees_twice : ∃ (σ : Session (Heap NoGrowth)) (k : Stop) (m : Memory),
    σ.live = [4152] ∧ σ.memory.readWord (4120 - header) = 0 ∧ σ.cache.lookup? 0 ≠ none ∧
    free 4120 ⟨σ.cache, σ.memory⟩ = .error (.stop k) ⟨σ.cache, m⟩ := by
  obtain ⟨D, m₀, σ, reachable, seen⟩ := exists_reachable_over_heap
    { objectSize := 24, pageSize := 64 } [.alloc, .alloc, .tryFree 4120]
    (fun σ => (σ.live, σ.memory.readWord 4112,
      (σ.cache.lookup? 0).map fun e => e.slab.freeChain σ.memory))
    (by decide) (by decide +kernel : _ = some ([4152], 0, some [4112]))
  simp only [Prod.mk.injEq, Option.map_eq_some_iff] at seen
  obtain ⟨live, link, e, he, free⟩ := seen
  obtain ⟨-, -, twice⟩ := reachable_free_agrees reachable 4120
  obtain ⟨k, m, stopped⟩ := twice 0 e he (by rw [free]; decide)
  exact ⟨σ, k, m, live, link, he ▸ nofun, stopped⟩

end LayeredMemory.Cache
