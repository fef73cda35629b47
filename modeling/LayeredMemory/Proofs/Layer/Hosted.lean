import LayeredMemory.Layer.Hosted
import LayeredMemory.Proofs.Heap.Session
import LayeredMemory.Proofs.Layer.Contract

/-!
# Heaps as allocators — they honour the contract

A heap that serves layers above may serve direct clients as well. To the layers above, what the
direct clients hold is the heap's own business: a heap with some payloads `D` of direct clients is
an allocator that honours the contract, and as such never touches a byte of `D` (`Heap.contract`).

Each lease is the low end of the payload of one block (`Lease.payload`).
-/

namespace LayeredMemory

namespace Layout

variable {most : Nat}

theorem validateUpTo_eq_error (l : Layout) (misfit : l.size = 0 ∨ most < l.align) :
    ∃ reason, l.validateUpTo most = .error (.invalidArgument reason) := by
  unfold validateUpTo validate
  by_cases zero : l.size = 0
  · rw [if_pos zero]
    exact ⟨_, rfl⟩
  · rw [if_neg zero, if_pos (misfit.resolve_left zero)]
    exact ⟨_, rfl⟩

/-- The layouts that an allocator for alignments up to `most` looks at. -/
theorem validateUpTo_eq_ok_iff {l : Layout} {u : Unit} :
    l.validateUpTo most = .ok u ↔ 0 < l.size ∧ l.align ≤ most := by
  constructor
  · intro valid
    by_contra misfit
    have unfit : l.size = 0 ∨ most < l.align := by omega
    obtain ⟨_, error⟩ := l.validateUpTo_eq_error unfit
    rw [valid] at error
    cases error
  · rintro ⟨pos, le⟩
    unfold validateUpTo validate
    rw [if_neg (Nat.pos_iff_ne_zero.mp pos), if_neg (Nat.not_lt.mpr le)]
    rfl

/-- Of two powers of two the smaller divides the larger. -/
theorem align_dvd (l : Layout) {k : Nat} (le : l.align ≤ 2 ^ k) : l.align ∣ 2 ^ k := by
  obtain ⟨j, eq⟩ := Align.isPowerOfTwo_iff.mp l.powerOfTwo
  rw [eq] at le ⊢
  exact Nat.pow_dvd_pow 2 ((Nat.pow_le_pow_iff_right (by decide : 1 < 2)).mp le)

end Layout

/-- The payload that a heap finds for a lease. -/
def Lease.payload (l : Lease) : Extent :=
  (⟨l.block.ptr, l.layout.size⟩ : Heap.Held).room

namespace Heap

variable {γ : Type} {h : Heap γ} {m m' : Memory} {D : Multiset Extent} {L : Multiset Lease}
  {l : Lease} {e : Extent}

/-- Leases are as long as their layouts ask, and blocks can be. -/
def Sized (L : Multiset Lease) : Prop :=
  ∀ l ∈ L, l.block.len = l.layout.size ∧ ∃ size, blockSizeFor l.layout.size = some size

/-- A lease is the low end of its payload. -/
theorem Sized.len_le (sized : Sized L) (hl : l ∈ L) :
    l.extent.start = l.payload.start ∧ l.extent.len ≤ l.payload.len := by
  obtain ⟨len, size, fit⟩ := sized l hl
  obtain ⟨-, room, -⟩ := blockSizeFor_spec fit
  have payload : l.payload = ⟨l.block.ptr, size - 8⟩ := Held.room_eq fit
  have extent : l.extent = ⟨l.block.ptr, l.block.len⟩ := rfl
  rw [payload, extent]
  exact ⟨rfl, by dsimp only; omega⟩

theorem Sized.subset_payload (sized : Sized L) (hl : l ∈ L) {x : Nat} (hx : x ∈ l.extent) :
    x ∈ l.payload := by
  obtain ⟨start, len⟩ := sized.len_le hl
  rw [Extent.mem_iff] at hx ⊢
  omega

/-- **Leases** are apart from everything else that the heap lends. -/
theorem Lends.off_lease (lends : h.Lends m (L.map Lease.payload + D)) (sized : Sized L) (hl : l ∈ L)
    {x : Nat} (hx : x ∈ l.extent) : (∀ d ∈ D, x ∉ d) ∧ ∃ f ∈ h.extents, x ∈ f := by
  have inside := sized.subset_payload hl hx
  have mem : l.payload ∈ L.map Lease.payload := Multiset.mem_map_of_mem _ hl
  refine ⟨fun d hd => ?_, lends.mem_extents (Multiset.mem_add.mpr (.inl mem)) inside⟩
  obtain ⟨R, split⟩ := Multiset.exists_cons_of_mem mem
  rw [split, Multiset.cons_add] at lends
  exact (lends.apart (Multiset.mem_add.mpr (.inr hd))).not_mem inside

/-- The bytes of leases stay where those of all payloads do. -/
theorem Sized.keeps (sized : Sized L) (kept : m.Keeps m' (L.map Lease.payload + D)) :
    m.Keeps m' (leased L) := by
  intro f hf x hx
  obtain ⟨l, hl, rfl⟩ := Multiset.mem_map.mp hf
  exact kept _ (Multiset.mem_add.mpr (.inl (Multiset.mem_map_of_mem _ hl))) x
    (sized.subset_payload hl hx)

variable [GrowthSource γ]

/-- The heap lends the payloads of some leases, and to direct clients `D`, whose bytes are as in
`m₀`. -/
structure Hosts (C : GrowthContract γ) (D : Multiset Extent) (m₀ : Memory) (h : Heap γ) (m : Memory)
    (L : Multiset Lease) : Prop where
  serves : h.Serves C m (L.map Lease.payload + D)
  direct : m₀.Keeps m D
  sized : Sized L

variable {C : GrowthContract γ} {m₀ : Memory} {n : Option Nat} {h' : Heap γ} {L' : Multiset Lease}

theorem Hosts.frame (hosts : h.Hosts C D m₀ m L) (changed : m.ChangedIn m' (leased L)) :
    h.Hosts C D m₀ m' L := by
  have lends := hosts.serves.lends
  refine ⟨⟨lends.frame fun f _ x _ off => ?_, C.frame hosts.serves.ready fun x off => ?_,
    hosts.serves.counted⟩, fun d hd x hx => ?_, hosts.sized⟩
  -- A lease lies inside its payload, inside a segment, and apart from what direct clients hold.
  · refine changed x fun f hf hx => ?_
    obtain ⟨l, hl, rfl⟩ := Multiset.mem_map.mp hf
    exact off _ (Multiset.mem_add.mpr (.inl (Multiset.mem_map_of_mem _ hl)))
      (hosts.sized.subset_payload hl hx)
  · refine changed x fun f hf hx => ?_
    obtain ⟨l, hl, rfl⟩ := Multiset.mem_map.mp hf
    obtain ⟨-, f, hf, inside⟩ := lends.off_lease hosts.sized hl hx
    exact off f hf inside
  · rw [← hosts.direct d hd x hx]
    refine changed x fun f hf hx' => ?_
    obtain ⟨l, hl, rfl⟩ := Multiset.mem_map.mp hf
    exact (lends.off_lease hosts.sized hl hx').1 d hd hx

/-- After an operation of the heap that left direct clients alone. -/
theorem Hosts.served (hosts : h.Hosts C D m₀ m L) (sized : Sized L') {K : Multiset Extent}
    (w : Served C n h m K h' m' (L'.map Lease.payload + D)) (sub : D ⊆ K) : h'.Hosts C D m₀ m' L' :=
  ⟨w.serves, hosts.direct.trans (w.keeps.mono sub), sized⟩

/-- A layout that a heap accepts asks for no more alignment than every payload has. -/
theorem align_dvd_granule {l : Layout} {u : Unit} (valid : l.validateUpTo granule = .ok u) :
    l.align ∣ 16 :=
  l.align_dvd (k := 4) (Layout.validateUpTo_eq_ok_iff.mp valid).2

/-- A lease is apart from the low end of whatever else the heap lends. -/
theorem Hosts.apart (hosts : h.Hosts C D m₀ m (l ::ₘ L)) {f : Extent}
    (he : e ∈ L.map Lease.payload + D) (start : f.start = e.start) (len : f.len ≤ e.len) :
    f.Apart l.extent := by
  have lends := hosts.serves.lends
  rw [Multiset.map_cons, Multiset.cons_add] at lends
  have apart := lends.apart he
  obtain ⟨start', len'⟩ := hosts.sized.len_le (Multiset.mem_cons_self l L)
  unfold Extent.Apart at apart ⊢
  omega

/-- A lease among others is what it promises. -/
theorem Hosts.fits (hosts : h.Hosts C D m₀ m (l ::ₘ L)) (aligned : l.layout.align ∣ 16) :
    l.Fits L := by
  have here : l ∈ l ::ₘ L := Multiset.mem_cons_self l L
  have lends := hosts.serves.lends
  have lent : l.payload ∈ (l ::ₘ L).map Lease.payload + D :=
    Multiset.mem_add.mpr (.inl (Multiset.mem_map_of_mem _ here))
  obtain ⟨start, len⟩ := hosts.sized.len_le here
  refine ⟨?_, Nat.le_of_eq (hosts.sized l here).1.symm, ?_, fun k hk => ?_⟩
  · obtain ⟨pos, fits⟩ := lends.valid lent
    exact ⟨by omega, by omega⟩
  · have granular := (lends.bounds lent).1
    rw [← start] at granular
    exact aligned.trans granular
  · obtain ⟨start', len'⟩ := hosts.sized.len_le (Multiset.mem_cons_of_mem hk)
    exact hosts.apart (Multiset.mem_add.mpr (.inl (Multiset.mem_map_of_mem _ hk))) start' len'

/-- After an operation of the heap that made a lease for a layout that it accepts. -/
theorem Hosts.made (hosts : h.Hosts C D m₀ m L') (sized : Sized L) {layout : Layout} {u : Unit}
    (valid : layout.validateUpTo granule = .ok u) {p size : Nat}
    (fit : blockSizeFor layout.size = some size)
    (w : Served C n h m (L.map Lease.payload + D) h' m'
      (⟨p, size - 8⟩ ::ₘ (L.map Lease.payload + D))) :
    Lease.Fits ⟨⟨p, layout.size⟩, layout⟩ L ∧ m.Keeps m' (leased L) ∧
      Hosts C D m₀ h' m' (⟨⟨p, layout.size⟩, layout⟩ ::ₘ L) := by
  let l : Lease := ⟨⟨p, layout.size⟩, layout⟩
  have sized' : Sized (l ::ₘ L) := Multiset.forall_mem_cons.mpr ⟨⟨rfl, size, fit⟩, sized⟩
  have payload : l.payload = ⟨p, size - 8⟩ := Held.room_eq fit
  have all : (l ::ₘ L).map Lease.payload + D = ⟨p, size - 8⟩ ::ₘ (L.map Lease.payload + D) := by
    rw [Multiset.map_cons, Multiset.cons_add, payload]
  have keeps := w.keeps
  rw [← all] at w
  have after := hosts.served sized' w (Multiset.subset_of_le (Multiset.le_add_left ..))
  exact ⟨after.fits (align_dvd_granule valid), sized.keeps keeps, after⟩

/-- **A layout becomes a lease**, unless there is no room or it is refused. -/
theorem Hosts.acquire (hosts : h.Hosts C D m₀ m L) (layout : Layout) :
    Action.Meets (Allocator.acquire layout) ⟨h, m⟩
      (fun b s => Lease.Fits ⟨b, layout⟩ L ∧ m.Keeps s.memory (leased L) ∧
        Hosts C D m₀ s.part s.memory (⟨b, layout⟩ ::ₘ L))
      (fun _ s => m.Keeps s.memory (leased L) ∧ Hosts C D m₀ s.part s.memory L) := by
  have direct : D ⊆ L.map Lease.payload + D := Multiset.subset_of_le (Multiset.le_add_left ..)
  show Action.Meets (Action.ofExcept (layout.validateUpTo granule) >>= fun _ =>
    malloc layout.size >>= fun ptr => (pure ⟨ptr, layout.size⟩ : Action (Heap γ) Block)) _ _ _
  cases valid : layout.validateUpTo granule with
  | error f => exact .fault ⟨.refl m _, hosts⟩
  | ok u =>
    have malloced := (malloc_spec hosts.serves layout.size).mono (fun _ _ answer => answer)
      fun _ s' w => And.intro (hosts.sized.keeps w.served.keeps)
        (hosts.served hosts.sized w.served direct)
    have checked : Action.ofExcept (.ok u) (⟨h, m⟩ : Store (Heap γ)) = .ok u ⟨h, m⟩ := rfl
    refine .step checked (.bind malloced ?_)
    rintro p ⟨h', m'⟩ ⟨size, fit, w⟩
    exact .pure (hosts.made hosts.sized valid fit w)

/-- **A lease gets another layout**, and keeps what it holds as far as there is room. It stays as it
was if there is no room or the layout is refused. -/
theorem Hosts.resize (hosts : h.Hosts C D m₀ m (l ::ₘ L)) (layout : Layout) :
    Action.Meets (Allocator.resize l.block.ptr l.layout layout) ⟨h, m⟩
      (fun b s => Lease.Fits ⟨b, layout⟩ L ∧ m.Keeps s.memory (leased L) ∧
        Hosts C D m₀ s.part s.memory (⟨b, layout⟩ ::ₘ L) ∧
        ∀ i < min l.layout.size layout.size,
          s.memory.read (b.ptr + i) = m.read (l.block.ptr + i))
      (fun _ s => m.Keeps s.memory (leased (l ::ₘ L)) ∧
        Hosts C D m₀ s.part s.memory (l ::ₘ L)) := by
  have here : l ∈ l ::ₘ L := Multiset.mem_cons_self l L
  have sized : Sized L := fun k hk => hosts.sized k (Multiset.mem_cons_of_mem hk)
  have direct : D ⊆ (l ::ₘ L).map Lease.payload + D :=
    Multiset.subset_of_le (Multiset.le_add_left ..)
  have all : (l ::ₘ L).map Lease.payload + D = l.payload ::ₘ (L.map Lease.payload + D) := by
    rw [Multiset.map_cons, Multiset.cons_add]
  obtain ⟨-, large⟩ := hosts.sized.len_le here
  have len : l.extent.len = l.layout.size := (hosts.sized l here).1
  show Action.Meets (Action.ofExcept (layout.validateUpTo granule) >>= fun _ =>
    realloc l.block.ptr layout.size >>= fun ptr =>
      (pure ⟨ptr, layout.size⟩ : Action (Heap γ) Block)) _ _ _
  cases valid : layout.validateUpTo granule with
  | error f => exact .fault ⟨.refl m _, hosts⟩
  | ok u =>
    have moved : Action.Meets (realloc l.block.ptr layout.size) ⟨h, m⟩ _ _ :=
      realloc_spec (e := l.payload) (all ▸ hosts.serves) layout.size
    have checked : Action.ofExcept (.ok u) (⟨h, m⟩ : Store (Heap γ)) = .ok u ⟨h, m⟩ := rfl
    refine .step checked (.bind (moved.mono (fun _ _ answer => answer) fun _ s' refused => ?_) ?_)
    · have w := refused.served
      rw [← all] at w
      exact ⟨hosts.sized.keeps w.keeps, hosts.served hosts.sized w direct⟩
    · rintro p ⟨h', m'⟩ ⟨size, fit, w, same⟩
      obtain ⟨fits, keeps, after⟩ := hosts.made sized valid fit w
      exact .pure ⟨fits, keeps, after, fun i hi => same i (by omega)⟩

/-- **A lease comes back.** -/
theorem Hosts.release (hosts : h.Hosts C D m₀ m (l ::ₘ L)) :
    Action.Meets (Allocator.release l.block.ptr l.layout) ⟨h, m⟩
      (fun _ s => m.Keeps s.memory (leased L) ∧ Hosts C D m₀ s.part s.memory L)
      (fun _ _ => False) := by
  have serves := hosts.serves
  rw [Multiset.map_cons, Multiset.cons_add] at serves
  have sized : Sized L := fun k hk => hosts.sized k (Multiset.mem_cons_of_mem hk)
  refine (free_spec serves).mono ?_ fun _ _ never => never
  rintro _ s' w
  exact ⟨sized.keeps w.keeps,
    hosts.served sized w (Multiset.subset_of_le (Multiset.le_add_left ..))⟩

/-- A heap with direct clients alone. -/
theorem Session.Sound.hosts {τ : Session γ} (sound : τ.Sound C 0) :
    τ.heap.Hosts C τ.rooms τ.memory τ.memory 0 := by
  refine ⟨?_, .refl _ _, fun _ none => (Multiset.notMem_zero _ none).elim⟩
  rw [Multiset.map_zero, zero_add]
  exact sound.alone

/-- **A heap honours the contract** of an allocator, and leaves direct clients alone. -/
def contract (C : GrowthContract γ) (D : Multiset Extent) (m₀ : Memory) :
    AllocatorContract (Heap γ) where
  Ready := Hosts C D m₀
  frame := Hosts.frame
  acquire layout hosts _ := hosts.acquire layout
  release _ hosts _ := hosts.release

end Heap

end LayeredMemory
