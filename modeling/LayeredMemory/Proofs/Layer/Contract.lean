import LayeredMemory.Layer.Borrowed
import LayeredMemory.Proofs.Action
import LayeredMemory.Proofs.Extent

/-!
# The contract of an allocator

A layer knows of the allocator below it only that it honours a contract. A *lease* is a block that
the allocator handed out and did not get back, with the layout that it was acquired with. Every
block is real memory, fits its layout, and overlaps no other lease (`Fits`); the allocator leaves
the bytes of leases alone, and does not mind what happens there. It may fail every request with
whatever fault it likes.

What state an allocator must be in for this is its own matter: `Ready` names it. An allocator
reached through a reference honours the contract of the one behind it (`Borrowed.contract`).
-/

namespace LayeredMemory

/-- A block that is out, and the layout that it was acquired with. -/
structure Lease where
  block : Block
  layout : Layout

namespace Lease

/-- The bytes that are leased. -/
def extent (l : Lease) : Extent :=
  l.block.extent

/-- What a lease promises, next to others. -/
structure Fits (l : Lease) (others : Multiset Lease) : Prop where
  valid : l.extent.Valid
  size_le : l.layout.size ≤ l.block.len
  aligned : l.layout.align ∣ l.block.ptr
  apart : ∀ k ∈ others, k.extent.Apart l.extent

/-- Next to no others there is nothing to be apart from. -/
theorem Fits.alone {l : Lease} (valid : l.extent.Valid) (size_le : l.layout.size ≤ l.block.len)
    (aligned : l.layout.align ∣ l.block.ptr) : l.Fits 0 :=
  ⟨valid, size_le, aligned, fun _ none => (Multiset.notMem_zero _ none).elim⟩

end Lease

/-- The extents of some leases. -/
abbrev leased (L : Multiset Lease) : Multiset Extent :=
  L.map Lease.extent

theorem leased_subset {L M : Multiset Lease} (le : L ≤ M) : leased L ⊆ leased M :=
  Multiset.map_subset_map (Multiset.subset_of_le le)

/-- What happens in a lease is no matter of the others. -/
theorem Lease.Fits.keeps {l : Lease} {L : Multiset Lease} {m m' : Memory} (fits : l.Fits L)
    (changed : m.ChangedWithin m' l.block.ptr (l.block.ptr + l.block.len)) :
    m.Keeps m' (leased L) := by
  intro f hf x hx
  obtain ⟨k, hk, rfl⟩ := Multiset.mem_map.mp hf
  have off := (fits.apart k hk).not_mem hx
  refine changed x ?_
  rw [Extent.mem_iff] at off
  dsimp only [Lease.extent, Block.extent] at off
  omega

/-- Each of some leases is apart from the others. -/
def Separate (L : Multiset Lease) : Prop :=
  ∀ l M, L = l ::ₘ M → ∀ k ∈ M, k.extent.Apart l.extent

theorem Separate.zero : Separate 0 :=
  fun _ _ same => (Multiset.cons_ne_zero same.symm).elim

/-- A lease next to some that are separate. -/
theorem Separate.cons {l : Lease} {L : Multiset Lease} (h : Separate L)
    (apart : ∀ k ∈ L, k.extent.Apart l.extent) : Separate (l ::ₘ L) := by
  intro k M same j hj
  rcases Multiset.cons_eq_cons.mp same with ⟨rfl, rfl⟩ | ⟨-, N, rfl, rfl⟩
  · exact apart j hj
  · rcases Multiset.mem_cons.mp hj with rfl | hj
    · exact (apart k (Multiset.mem_cons_self k N)).symm
    · exact h k N rfl j hj

theorem Separate.of_cons {l : Lease} {L : Multiset Lease} (h : Separate (l ::ₘ L)) :
    Separate L := by
  rintro k M rfl j hj
  exact h k (l ::ₘ M) (Multiset.cons_swap l k M) j (Multiset.mem_cons_of_mem hj)

theorem Separate.apart {k l : Lease} {M L : Multiset Lease} (h : Separate (M + L)) (hl : l ∈ M)
    (hk : k ∈ L) : k.extent.Apart l.extent := by
  obtain ⟨N, rfl⟩ := Multiset.exists_cons_of_mem hl
  exact h l (N + L) (Multiset.cons_add l N L) k (Multiset.mem_add.mpr (.inr hk))

/-- Leases that are separate have extents that are apart. -/
theorem Separate.pairwise {ls : List Lease} (h : Separate ls) :
    (ls.map Lease.extent).Pairwise Extent.Apart := by
  induction ls with
  | nil => exact .nil
  | cons l ls ih =>
    have h : Separate (l ::ₘ ls) := h
    refine List.pairwise_cons.mpr ⟨fun e he => ?_, ih h.of_cons⟩
    obtain ⟨k, hk, rfl⟩ := List.mem_map.mp he
    exact (h l ls rfl k hk).symm

/-- Leases that fit their layouts next to each other. -/
structure Fitted (L : Multiset Lease) : Prop where
  separate : Separate L
  each : ∀ l ∈ L, l.Fits 0

namespace Fitted

variable {l : Lease} {L : Multiset Lease}

theorem zero : Fitted 0 :=
  ⟨.zero, fun _ none => (Multiset.notMem_zero _ none).elim⟩

theorem of_cons (h : Fitted (l ::ₘ L)) : Fitted L :=
  ⟨h.separate.of_cons, fun k hk => h.each k (Multiset.mem_cons_of_mem hk)⟩

theorem cons (h : Fitted L) (fits : l.Fits L) : Fitted (l ::ₘ L) := by
  have alone : l.Fits 0 := .alone fits.valid fits.size_le fits.aligned
  exact ⟨h.separate.cons fits.apart, Multiset.forall_mem_cons.mpr ⟨alone, h.each⟩⟩

end Fitted

/-- The contract of an allocator, towards layers that hold some leases. -/
structure AllocatorContract (α : Type) [Allocator α] where
  /-- The allocator is in order, and these leases are out. -/
  Ready : α → Memory → Multiset Lease → Prop
  /-- The allocator does not mind what is written into leases. -/
  frame : ∀ {a m m' L}, Ready a m L → m.ChangedIn m' (leased L) → Ready a m' L
  /-- A request is served or fails, and touches no lease. -/
  acquire : ∀ {a m L} (layout : Layout), Ready a m L → 0 < layout.size →
    Action.Meets (Allocator.acquire layout) ⟨a, m⟩
      (fun b s => Lease.Fits ⟨b, layout⟩ L ∧ m.Keeps s.memory (leased L) ∧
        Ready s.part s.memory (⟨b, layout⟩ ::ₘ L))
      (fun _ s => m.Keeps s.memory (leased L) ∧ Ready s.part s.memory L)
  /-- An allocator that takes blocks back does so, and touches no other lease. -/
  release : ∀ {a m L} (l : Lease), Ready a m (l ::ₘ L) → Allocator.canRelease a = true →
    Action.Meets (Allocator.release l.block.ptr l.layout) ⟨a, m⟩
      (fun _ s => m.Keeps s.memory (leased L) ∧ Ready s.part s.memory L)
      (fun _ _ => False)

namespace AllocatorContract

variable {α : Type} [Allocator α]

/-- In order, the allocator takes blocks back. -/
def TakesBack (K : AllocatorContract α) : Prop :=
  ∀ a m L, K.Ready a m L → Allocator.canRelease a = true

/-- In order, the allocator takes nothing back. -/
def TakesNothing (K : AllocatorContract α) : Prop :=
  ∀ a m L, K.Ready a m L → Allocator.canRelease a = false

end AllocatorContract

namespace Borrowed

variable {α β : Type} {b : Borrowed α} {m : Memory}

/-- What runs behind a reference meets what it meets there. -/
theorem below_meets {x : Action α β} {Q : β → Store α → Prop} {R : Fault → Store α → Prop}
    (h : Action.Meets x ⟨b.inner, m⟩ Q R) :
    Action.Meets (below x) ⟨b, m⟩ (fun r s => Q r ⟨s.part.inner, s.memory⟩)
      (fun f s => R f ⟨s.part.inner, s.memory⟩) := by
  unfold below
  exact h.within (fun _ _ _ answer => answer) fun _ _ _ fault => fault

/-- A reference honours the contract of the allocator behind it. -/
def contract [Allocator α] (K : AllocatorContract α) : AllocatorContract (Borrowed α) where
  Ready b := K.Ready b.inner
  frame := K.frame
  acquire layout ready pos := below_meets (K.acquire layout ready pos)
  release l ready can := below_meets (K.release l ready can)

end Borrowed

end LayeredMemory
