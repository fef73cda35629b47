import LayeredMemory.Proofs.Heap.Twins
import LayeredMemory.Proofs.Layer.Hosted
import LayeredMemory.Proofs.Layer.Watched

/-!
# Pairs of allocators

Two allocators make a pair when each honours the contract and both give the same answers to the same
calls, as long as the same leases are out. What the layers above write into leases is no matter of
either, so the two memories may differ there as they like, and in whatever is the allocators' own.

* `AllocatorPair.watched`: a pair stays one when it is watched, and is asked the same.
* `Heap.pair`: heaps make a pair if their growth sources do, however they are configured.
-/

namespace LayeredMemory

open LayeredMemory.Action (Lockstep)

/-- Two allocators that answer alike, towards layers that hold the same leases. -/
structure AllocatorPair (α β : Type) [Allocator α] [Allocator β] where
  /-- The allocators are in order, have these leases out, and will answer alike. -/
  Ready : Store α → Store β → Multiset Lease → Prop
  /-- Both take blocks back, or neither does. -/
  can : ∀ {s t L}, Ready s t L → Allocator.canRelease t.part = Allocator.canRelease s.part
  /-- The allocators do not mind what is written into leases. -/
  frame : ∀ {a b m m' n n' L}, Ready ⟨a, m⟩ ⟨b, n⟩ L → m.ChangedIn m' (leased L) →
    n.ChangedIn n' (leased L) → Ready ⟨a, m'⟩ ⟨b, n'⟩ L
  /-- A request is served with the same block or fails with the same fault, and touches no lease. -/
  acquire : ∀ {s t L} (layout : Layout), Ready s t L → 0 < layout.size →
    Lockstep (Allocator.acquire layout) (Allocator.acquire layout) s t
      (fun b s' t' => Lease.Fits ⟨b, layout⟩ L ∧ s.memory.Keeps s'.memory (leased L) ∧
        t.memory.Keeps t'.memory (leased L) ∧ Ready s' t' (⟨b, layout⟩ ::ₘ L))
      (fun s' t' => s.memory.Keeps s'.memory (leased L) ∧ t.memory.Keeps t'.memory (leased L) ∧
        Ready s' t' L)
  /-- Allocators that take blocks back do so, and touch no other lease. -/
  release : ∀ {s t L} (l : Lease), Ready s t (l ::ₘ L) → Allocator.canRelease s.part = true →
    Lockstep (Allocator.release l.block.ptr l.layout) (Allocator.release l.block.ptr l.layout) s t
      (fun _ s' t' => s.memory.Keeps s'.memory (leased L) ∧ t.memory.Keeps t'.memory (leased L) ∧
        Ready s' t' L)
      (fun _ _ => False)

/-! ### Watched pairs -/

variable {α β ρ : Type}

/-- What runs in lockstep is noted alike. -/
theorem Watched.noting_lockstep {w : Watched α} {v : Watched β} {m n : Memory}
    {call : Option ρ → Call} {x : Action α ρ} {y : Action β ρ} {Q : ρ → Store α → Store β → Prop}
    {R : Store α → Store β → Prop} (h : Lockstep x y ⟨w.inner, m⟩ ⟨v.inner, n⟩ Q R)
    (same : v.calls = w.calls) :
    Lockstep (noting call x) (noting call y) ⟨w, m⟩ ⟨v, n⟩
      (fun a s t => Q a ⟨s.part.inner, s.memory⟩ ⟨t.part.inner, t.memory⟩ ∧
        t.part.calls = s.part.calls)
      (fun s t => R ⟨s.part.inner, s.memory⟩ ⟨t.part.inner, t.memory⟩ ∧
        t.part.calls = s.part.calls) := by
  rcases h with ⟨a, s, t, run, run', ans⟩ | ⟨f, s, t, run, run', flt⟩
  · exact .of_ok (noting_of_ok run) (noting_of_ok run') ⟨ans, congrArg _ same⟩
  · exact .of_fault (noting_of_fault run) (noting_of_fault run') ⟨flt, congrArg _ same⟩

/-- **A watched pair** answers alike, and was asked the same. -/
def AllocatorPair.watched [Allocator α] [Allocator β] (P : AllocatorPair α β) :
    AllocatorPair (Watched α) (Watched β) where
  Ready s t L := P.Ready ⟨s.part.inner, s.memory⟩ ⟨t.part.inner, t.memory⟩ L ∧
    t.part.calls = s.part.calls
  can ready := P.can ready.1
  frame ready changed changed' := ⟨P.frame ready.1 changed changed', ready.2⟩
  acquire layout ready pos :=
    (Watched.noting_lockstep (P.acquire layout ready.1 pos) ready.2).mono
      (fun _ _ _ ⟨⟨fits, kept, kept', after⟩, same⟩ => ⟨fits, kept, kept', after, same⟩)
      fun _ _ ⟨⟨kept, kept', after⟩, same⟩ => ⟨kept, kept', after, same⟩
  release l ready can :=
    (Watched.noting_lockstep (P.release l ready.1 can) ready.2).mono
      (fun _ _ _ ⟨⟨kept, kept', after⟩, same⟩ => ⟨kept, kept', after, same⟩)
      fun _ _ ⟨never, _⟩ => never

/-! ### Pairs of heaps -/

namespace Heap

variable {γ δ : Type} [GrowthSource γ] [GrowthSource δ] {P : GrowthPair γ δ} {h : Heap γ}
  {k : Heap δ} {m m' n n' m₀ n₀ : Memory} {D : Multiset Extent} {L : Multiset Lease} {l : Lease}

namespace Twins

/-- **Nothing** that is written into what they lend makes twins differ. -/
theorem frame {E : Multiset Extent} (w : Twins P ⟨h, m⟩ ⟨k, n⟩ E) (changed : m.ChangedIn m' E)
    (changed' : n.ChangedIn n' E) : Twins P ⟨h, m'⟩ ⟨k, n'⟩ E := by
  have lends : h.Lends m E := w.lends
  have inside : ∀ x, (∀ f ∈ (h.extents : Multiset Extent), x ∉ f) → ∀ e ∈ E, x ∉ e := by
    intro x off e he hx
    obtain ⟨f, hf, hx'⟩ := lends.mem_extents he hx
    exact off f hf hx'
  refine ⟨lends.frame fun f _ x _ off => changed x off,
    w.lends'.frame fun f _ x _ off => changed' x off, w.segments, w.cursor, w.growths, ?_⟩
  exact P.frame w.ready (fun x off => changed x (inside x off)) fun x off =>
    changed' x (inside x off)

/-- **A layout becomes the same lease** of both, or of neither. -/
theorem acquire (w : Twins P ⟨h, m⟩ ⟨k, n⟩ (L.map Lease.payload + D)) (layout : Layout) :
    Lockstep (Allocator.acquire layout) (Allocator.acquire layout) ⟨h, m⟩ ⟨k, n⟩
      (fun b s t => Twins P s t ((⟨b, layout⟩ ::ₘ L).map Lease.payload + D))
      (fun s t => Twins P s t (L.map Lease.payload + D)) := by
  show Lockstep (Action.ofExcept (layout.validateUpTo granule) >>= fun _ =>
      Heap.malloc layout.size >>= fun ptr => (pure ⟨ptr, layout.size⟩ : Action (Heap γ) Block))
    (Action.ofExcept (layout.validateUpTo granule) >>= fun _ =>
      Heap.malloc layout.size >>= fun ptr => (pure ⟨ptr, layout.size⟩ : Action (Heap δ) Block))
    _ _ _ _
  cases layout.validateUpTo granule with
  | error f => exact .fault w
  | ok u =>
    refine .step rfl rfl (.bind (w.malloc layout.size) fun p s t ⟨size, fit, w'⟩ => .pure ?_)
    have payload : Lease.payload ⟨⟨p, layout.size⟩, layout⟩ = ⟨p, size - 8⟩ := Held.room_eq fit
    rwa [Multiset.map_cons, Multiset.cons_add, payload]

end Twins

/-- Twins with some leases out, and the payloads `D` of direct clients. -/
structure HostTwins (P : GrowthPair γ δ) (D : Multiset Extent) (m₀ n₀ : Memory) (s : Store (Heap γ))
    (t : Store (Heap δ)) (L : Multiset Lease) : Prop where
  twins : Twins P s t (L.map Lease.payload + D)
  hosts : s.part.Hosts P.left D m₀ s.memory L
  hosts' : t.part.Hosts P.right D n₀ t.memory L

namespace HostTwins

/-- **New heaps** are twins, however they are configured. -/
theorem new {growth : γ} {growth' : δ} {config config' : HeapConfig}
    (ready : P.Ready ⟨growth, m⟩ ⟨growth', n⟩ []) :
    HostTwins P 0 m n ⟨{ config, growth }, m⟩ ⟨{ config := config', growth := growth' }, n⟩ 0 :=
  ⟨⟨.new, .new, rfl, rfl, rfl, ready⟩, ⟨⟨.new, ⟨_, ready⟩, Nat.le_refl 0⟩, .refl m 0, nofun⟩,
    ⟨.new, ⟨_, ready⟩, Nat.le_refl 0⟩, .refl n 0, nofun⟩

theorem frame (w : HostTwins P D m₀ n₀ ⟨h, m⟩ ⟨k, n⟩ L) (changed : m.ChangedIn m' (leased L))
    (changed' : n.ChangedIn n' (leased L)) : HostTwins P D m₀ n₀ ⟨h, m'⟩ ⟨k, n'⟩ L := by
  -- What changes in leases changes in what the heaps lend.
  have inside : ∀ x, (∀ e ∈ L.map Lease.payload + D, x ∉ e) → ∀ e ∈ leased L, x ∉ e := by
    intro x off e he hx
    obtain ⟨l, hl, rfl⟩ := Multiset.mem_map.mp he
    exact off _ (Multiset.mem_add.mpr (.inl (Multiset.mem_map_of_mem _ hl)))
      (w.hosts.sized.subset_payload hl hx)
  exact ⟨w.twins.frame (fun x off => changed x (inside x off)) fun x off =>
    changed' x (inside x off), w.hosts.frame changed, w.hosts'.frame changed'⟩

/-- **A lease comes back** to both. -/
theorem release {R : Store (Heap γ) → Store (Heap δ) → Prop}
    (w : HostTwins P D m₀ n₀ ⟨h, m⟩ ⟨k, n⟩ (l ::ₘ L)) :
    Lockstep (Allocator.release l.block.ptr l.layout) (Allocator.release l.block.ptr l.layout)
      ⟨h, m⟩ ⟨k, n⟩ (fun _ s t => Twins P s t (L.map Lease.payload + D)) R := by
  obtain ⟨start, -⟩ := w.hosts.sized.len_le (Multiset.mem_cons_self l L)
  have twins := w.twins
  rw [Multiset.map_cons, Multiset.cons_add] at twins
  show Lockstep (free l.extent.start) (free l.extent.start) _ _ _ _
  rw [start]
  exact twins.free

end HostTwins

/-- **Heaps make a pair** if their growth sources do. -/
def pair (P : GrowthPair γ δ) (D : Multiset Extent) (m₀ n₀ : Memory) :
    AllocatorPair (Heap γ) (Heap δ) where
  Ready := HostTwins P D m₀ n₀
  can _ := rfl
  frame := HostTwins.frame
  acquire layout w _ :=
    ((w.twins.acquire layout).and_meets (w.hosts.acquire layout) (w.hosts'.acquire layout)).mono
      (fun _ _ _ ⟨twins, ⟨fits, kept, hosts⟩, _, kept', hosts'⟩ =>
        ⟨fits, kept, kept', twins, hosts, hosts'⟩)
      fun _ _ ⟨twins, _, ⟨kept, hosts⟩, kept', hosts'⟩ => ⟨kept, kept', twins, hosts, hosts'⟩
  release _ w _ :=
    ((w.release (R := fun _ _ => False)).and_meets w.hosts.release w.hosts'.release).mono
      (fun _ _ _ ⟨twins, ⟨kept, hosts⟩, kept', hosts'⟩ => ⟨kept, kept', twins, hosts, hosts'⟩)
      fun _ _ ⟨never, _⟩ => never

end Heap

end LayeredMemory
