import LayeredMemory.Layer.Host
import LayeredMemory.Proofs.Align
import LayeredMemory.Proofs.Layer.Usage

/-!
# The host below — its allocators honour the contract

Of the host no more is known than what it promises. A `HeapContract` is what it says of its heap, a
`MapContract` what it says of its maps. Each of the two allocators turns one into the contract
between layers (`System.contract`, `Pages.contract`), so that whatever holds of caches, heaps and
wrappers over any allocator holds of those over the host.

Users can rely on both (`System.honoured`, `Pages.honoured`). For `System` this says that a block
keeps what it holds also where the host's heap does not resize it, because its alignment changes.
-/

namespace LayeredMemory

/-- A lease of as many bytes as its layout asks for. -/
def Layout.lease (layout : Layout) (ptr : Nat) : Lease :=
  ⟨⟨ptr, layout.size⟩, layout⟩

theorem Lease.mem_extent (l : Lease) {i : Nat} (lt : i < l.block.len) :
    l.block.ptr + i ∈ l.extent :=
  Extent.mem_iff.mpr ⟨Nat.le_add_right .., Nat.add_lt_add_left lt _⟩

theorem Layout.validate_of_pos {σ : Type} {layout : Layout} (pos : 0 < layout.size) (s : Store σ) :
    Action.ofExcept layout.validate s = .ok () s := by
  unfold Layout.validate
  rw [if_neg (Nat.pos_iff_ne_zero.mp pos)]
  rfl

theorem Layout.validate_of_zero {σ : Type} {layout : Layout} (zero : layout.size = 0)
    (s : Store σ) : Action.ofExcept layout.validate s = .error (.fault .zeroSize) s := by
  unfold Layout.validate
  rw [if_pos zero]
  rfl

variable {η β : Type} {h : η} {m m' : Memory} {L : Multiset Lease} {l : Lease} {layout : Layout}

/-! ### Blocks of the heap -/

/-- What a host promises of its heap, while some blocks are out. -/
structure HeapContract (η : Type) [Host η] where
  /-- The heap is in order, and these blocks are out. -/
  Ready : η → Memory → Multiset Lease → Prop
  /-- Blocks may be written to. -/
  frame : ∀ {h m m' L}, Ready h m L → m.ChangedIn m' (leased L) → Ready h m' L
  /-- A block is given or not. -/
  alloc : ∀ {h m L} (layout : Layout), Ready h m L → 0 < layout.size →
    Action.Meets (Host.alloc layout) ⟨h, m⟩
      (fun a s => m.Keeps s.memory (leased L) ∧ match a with
        | some p => (layout.lease p).Fits L ∧ Ready s.part s.memory (layout.lease p ::ₘ L)
        | none => Ready s.part s.memory L)
      (fun _ _ => False)
  /-- A block gets another size and keeps what it holds, or stays as it was. -/
  realloc : ∀ {h m l L} (layout : Layout), Ready h m (l ::ₘ L) → 0 < layout.size →
    l.layout.align = layout.align →
    Action.Meets (Host.realloc l.block.ptr l.layout layout.size) ⟨h, m⟩
      (fun a s => match a with
        | some p => (layout.lease p).Fits L ∧ m.Keeps s.memory (leased L) ∧
            Ready s.part s.memory (layout.lease p ::ₘ L) ∧
            ∀ i < min l.layout.size layout.size,
              s.memory.read (p + i) = m.read (l.block.ptr + i)
        | none => m.Keeps s.memory (leased (l ::ₘ L)) ∧ Ready s.part s.memory (l ::ₘ L))
      (fun _ _ => False)
  /-- A block goes back. -/
  dealloc : ∀ {h m l L}, Ready h m (l ::ₘ L) →
    Action.Meets (Host.dealloc l.block.ptr l.layout) ⟨h, m⟩
      (fun _ s => m.Keeps s.memory (leased L) ∧ Ready s.part s.memory L) (fun _ _ => False)

namespace System

theorem below_meets {x : Action η β} {Q : β → Store η → Prop} {R : Fault → Store η → Prop}
    (meets : Action.Meets x ⟨h, m⟩ Q R) :
    Action.Meets (below x) ⟨⟨h⟩, m⟩ (fun r s => Q r ⟨s.part.host, s.memory⟩)
      (fun f s => R f ⟨s.part.host, s.memory⟩) := by
  unfold below
  exact meets.within (fun _ _ _ answer => answer) fun _ _ _ fault => fault

variable [Host η] {C : HeapContract η} {s : System η}

/-- The heap of the host is in order with some blocks out, as long as their layouts ask. -/
structure Hosts (C : HeapContract η) (s : System η) (m : Memory) (L : Multiset Lease) : Prop where
  ready : C.Ready s.host m L
  exact : ∀ l ∈ L, l.block.len = l.layout.size

/-- One more block. -/
theorem Hosts.cons {p : Nat} (exact : ∀ l ∈ L, l.block.len = l.layout.size)
    (ready : C.Ready s.host m (layout.lease p ::ₘ L)) : Hosts C s m (layout.lease p ::ₘ L) :=
  ⟨ready, Multiset.forall_mem_cons.mpr ⟨rfl, exact⟩⟩

/-- One block less. -/
theorem Hosts.rest (hosts : Hosts C s m (l ::ₘ L)) : ∀ k ∈ L, k.block.len = k.layout.size :=
  fun k hk => hosts.exact k (Multiset.mem_cons_of_mem hk)

/-- **A layout becomes a block**, or the host gives none. -/
theorem acquire_spec (hosts : Hosts C s m L) (pos : 0 < layout.size) :
    Action.Meets (acquire layout) ⟨s, m⟩
      (fun b t => (⟨b, layout⟩ : Lease).Fits L ∧ m.Keeps t.memory (leased L) ∧
        Hosts C t.part t.memory (⟨b, layout⟩ ::ₘ L))
      (fun _ t => m.Keeps t.memory (leased L) ∧ Hosts C t.part t.memory L) := by
  unfold acquire
  refine .step (layout.validate_of_pos pos _) (.bind
    ((below_meets (C.alloc layout hosts.ready pos)).mono (fun _ _ answer => answer)
      fun _ _ never => never.elim) ?_)
  rintro (_ | p) ⟨t, m'⟩ ⟨kept, after⟩
  · exact .fault ⟨kept, after, hosts.exact⟩
  · exact .pure ⟨after.1, kept, .cons hosts.exact after.2⟩

/-- **A block goes back.** -/
theorem release_spec (hosts : Hosts C s m (l ::ₘ L)) :
    Action.Meets (below (Host.dealloc l.block.ptr l.layout)) ⟨s, m⟩
      (fun _ t => m.Keeps t.memory (leased L) ∧ Hosts C t.part t.memory L) (fun _ _ => False) :=
  (below_meets (C.dealloc hosts.ready)).mono (fun _ _ ⟨kept, after⟩ => ⟨kept, after, hosts.rest⟩)
    fun _ _ never => never

/-- **A block moves** to a new one, and what it holds with it. -/
theorem move_spec (hosts : Hosts C s m (l ::ₘ L)) (pos : 0 < layout.size) :
    Action.Meets (move l.block.ptr l.layout layout) ⟨s, m⟩
      (fun b t => (⟨b, layout⟩ : Lease).Fits L ∧ m.Keeps t.memory (leased L) ∧
        Hosts C t.part t.memory (⟨b, layout⟩ ::ₘ L) ∧
        ∀ i < min l.layout.size layout.size,
          t.memory.read (b.ptr + i) = m.read (l.block.ptr + i))
      (fun _ t => m.Keeps t.memory (leased (l ::ₘ L)) ∧ Hosts C t.part t.memory (l ::ₘ L)) := by
  unfold move
  refine .bind (acquire_spec hosts pos) ?_
  rintro b ⟨t, m₁⟩ ⟨fits, kept, after⟩
  let n := min l.layout.size layout.size
  let k : Lease := ⟨b, layout⟩
  have size_le : layout.size ≤ b.len := fits.size_le
  have changed : m₁.ChangedWithin (m₁.copy l.block.ptr b.ptr n) b.ptr (b.ptr + b.len) :=
    (m₁.changedWithin_copy l.block.ptr b.ptr n).mono (Nat.le_refl _) (by omega)
  have both : Hosts C t (m₁.copy l.block.ptr b.ptr n) (l ::ₘ k ::ₘ L) := by
    have framed := C.frame after.ready (changed.changedIn (e := k.extent)
      (Multiset.mem_map_of_mem _ (Multiset.mem_cons_self ..)) (Nat.le_refl _) (Nat.le_refl _))
    rw [Multiset.cons_swap]
    exact ⟨framed, after.exact⟩
  refine .modifyMemory (.bind ((release_spec both).mono (fun _ _ answer => answer)
    fun _ _ never => never.elim) ?_)
  rintro - ⟨u, m₂⟩ ⟨kept', last⟩
  have others : leased L ⊆ leased (l ::ₘ L) := leased_subset (Multiset.le_cons_self ..)
  refine .pure ⟨⟨fits.valid, fits.size_le, fits.aligned, fun j hj =>
    fits.apart j (Multiset.mem_cons_of_mem hj)⟩, ?_, last, fun i hi => ?_⟩
  · exact (kept.mono others).trans (((fits.keeps changed).mono others).trans
      (kept'.mono (leased_subset (Multiset.le_cons_self ..))))
  · have len : l.block.len = l.layout.size := hosts.exact l (Multiset.mem_cons_self l L)
    have here : b.ptr + i ∈ k.extent := k.mem_extent (show i < b.len by omega)
    have there : l.block.ptr + i ∈ l.extent := l.mem_extent (by omega)
    dsimp only
    rw [kept' _ (Multiset.mem_map_of_mem _ (Multiset.mem_cons_self k L)) _ here,
      Memory.read_copy, if_pos (by omega), Nat.add_sub_cancel_left]
    exact kept _ (Multiset.mem_map_of_mem _ (Multiset.mem_cons_self l L)) _ there

/-- **A block gets another layout**, be it by the host's heap or by a move. -/
theorem resize_spec (hosts : Hosts C s m (l ::ₘ L)) (layout : Layout) :
    Action.Meets (Allocator.resize l.block.ptr l.layout layout) ⟨s, m⟩
      (fun b t => (⟨b, layout⟩ : Lease).Fits L ∧ m.Keeps t.memory (leased L) ∧
        Hosts C t.part t.memory (⟨b, layout⟩ ::ₘ L) ∧
        ∀ i < min l.layout.size layout.size,
          t.memory.read (b.ptr + i) = m.read (l.block.ptr + i))
      (fun _ t => m.Keeps t.memory (leased (l ::ₘ L)) ∧ Hosts C t.part t.memory (l ::ₘ L)) := by
  show Action.Meets (Action.ofExcept layout.validate >>= fun _ =>
    if l.layout.align = layout.align then _ else _) _ _ _
  rcases Nat.eq_zero_or_pos layout.size with zero | pos
  · exact .of_fault (Action.bind_of_error (layout.validate_of_zero zero _)) ⟨.refl _ _, hosts⟩
  refine .step (layout.validate_of_pos pos _) ?_
  by_cases same : l.layout.align = layout.align
  · rw [if_pos same]
    refine .bind ((below_meets (C.realloc layout hosts.ready pos same)).mono
      (fun _ _ answer => answer) fun _ _ never => never.elim) ?_
    rintro (_ | p) ⟨t, m'⟩ after
    · exact .fault ⟨after.1, after.2, hosts.exact⟩
    · obtain ⟨fits, kept, ready, bytes⟩ := after
      exact .pure ⟨fits, kept, .cons hosts.rest ready, bytes⟩
  · rw [if_neg same]
    exact move_spec hosts pos

/-- **The heap of a host honours the contract** of an allocator. -/
def contract (C : HeapContract η) : AllocatorContract (System η) where
  Ready := Hosts C
  frame hosts changed := ⟨C.frame hosts.ready changed, hosts.exact⟩
  acquire _ hosts pos := acquire_spec hosts pos
  release _ hosts _ := release_spec hosts

theorem extended (C : HeapContract η) (m₀ : Memory) :
    (contract C).Extended 0 m₀ fun _ _ => True where
  empty layout s zero := ⟨_, Action.bind_of_error (layout.validate_of_zero zero s)⟩
  resize layout hosts := resize_spec hosts layout
  takesBack _ _ _ _ := rfl
  apart _ _ none := (Multiset.notMem_zero _ none).elim
  others _ _ none := (Multiset.notMem_zero _ none).elim
  sound _ := trivial

/-- **Users can rely on the heap of a host**: blocks are apart and as asked for, keep what they hold
when they get another layout, whatever its alignment, and come back. -/
theorem honoured (ready : C.Ready h m 0) {t : Holding (System η)} (uses : Uses ⟨⟨h⟩, m, 0⟩ t) :
    t.Honoured 0 fun _ _ => True :=
  (extended C m).honoured (.start ⟨ready, fun _ none => (Multiset.notMem_zero _ none).elim⟩) uses

end System

/-! ### Maps of pages -/

/-- What a host promises of its maps, while some are there. Pages are of one size. -/
structure MapContract (η : Type) [Host η] (pageSize : Nat) where
  /-- The host is in order, and these maps are there. -/
  Ready : η → Memory → Multiset Extent → Prop
  /-- Maps may be written to. -/
  frame : ∀ {h m m' M}, Ready h m M → m.ChangedIn m' M → Ready h m' M
  /-- A map of whole pages is made or not. -/
  map : ∀ {h m M} (len : Nat), Ready h m M → 0 < len → pageSize ∣ len →
    Action.Meets (Host.map len) ⟨h, m⟩
      (fun a s => m.Keeps s.memory M ∧ match a with
        | some p => (⟨p, len⟩ : Extent).Valid ∧ pageSize ∣ p ∧ (∀ e ∈ M, e.Apart ⟨p, len⟩) ∧
            Ready s.part s.memory (⟨p, len⟩ ::ₘ M)
        | none => Ready s.part s.memory M)
      (fun _ _ => False)
  /-- A map ends. -/
  unmap : ∀ {h m e M}, Ready h m (e ::ₘ M) →
    Action.Meets (Host.unmap e.start e.len) ⟨h, m⟩
      (fun _ s => m.Keeps s.memory M ∧ Ready s.part s.memory M) (fun _ _ => False)

namespace Pages

theorem below_meets {s : Pages η} {x : Action η β} {Q : β → Store η → Prop}
    {R : Fault → Store η → Prop} (meets : Action.Meets x ⟨s.host, m⟩ Q R) :
    Action.Meets (below x) ⟨s, m⟩
      (fun r t => t.part.pageSize = s.pageSize ∧ Q r ⟨t.part.host, t.memory⟩)
      (fun f t => R f ⟨t.part.host, t.memory⟩) := by
  unfold below
  exact meets.within (fun _ _ _ answer => ⟨rfl, answer⟩) fun _ _ _ fault => fault

/-- Pages for a layout are whole, and have room for it. -/
theorem exists_mapLength (s : Pages η) (word : s.pageSize < Word.bound) (layout : Layout) :
    ∃ len, s.mapLength layout = .ok len ∧ s.pageSize ∣ len ∧ layout.size ≤ len := by
  -- Sizes are below half of the words, and no power of two that is a word is above it.
  have half : s.pageSize ≤ 2 ^ 63 := by
    obtain ⟨k, eq⟩ := Align.isPowerOfTwo_iff.mp s.powerOfTwo
    rw [eq, Word.bound_eq, Nat.pow_lt_pow_iff_right (by decide)] at word
    rw [eq]
    exact Nat.pow_le_pow_right (by decide) (Nat.le_of_lt_succ word)
  have small : layout.size < 2 ^ 63 :=
    Nat.lt_of_le_of_lt (Nat.le_trans layout.fits (Nat.sub_le ..)) (by decide)
  have bound : Word.bound = 2 ^ 63 + 2 ^ 63 := rfl
  refine ⟨_, Align.up_eq s.powerOfTwo (by omega), Nat.dvd_mul_left .., ?_⟩
  have := Nat.div_add_mod' (layout.size + (s.pageSize - 1)) s.pageSize
  have := Nat.mod_lt (layout.size + (s.pageSize - 1)) (Align.pos_of_isPowerOfTwo s.powerOfTwo)
  omega

theorem mapLength_congr {s t : Pages η} (same : t.pageSize = s.pageSize) :
    t.mapLength layout = s.mapLength layout := by
  unfold mapLength
  rw [same]

variable [Host η] {pageSize : Nat} {C : MapContract η pageSize} {s : Pages η}

/-- The host is in order with some blocks out, each of which is a map of its own. -/
structure Hosts (C : MapContract η pageSize) (s : Pages η) (m : Memory) (L : Multiset Lease) :
    Prop where
  ready : C.Ready s.host m (leased L)
  size : s.pageSize = pageSize
  whole : ∀ l ∈ L, s.mapLength l.layout = .ok l.block.len

theorem leased_cons : leased (l ::ₘ L) = l.extent ::ₘ leased L :=
  Multiset.map_cons ..

/-- After some blocks stayed and others came or went. -/
theorem Hosts.after {t : Pages η} {M : Multiset Lease} (hosts : Hosts C s m L)
    (same : t.pageSize = s.pageSize) (ready : C.Ready t.host m' (leased M))
    (whole : ∀ l ∈ M, s.mapLength l.layout = .ok l.block.len) : Hosts C t m' M :=
  ⟨ready, same.trans hosts.size, fun l hl => (mapLength_congr same).trans (whole l hl)⟩

/-- **A layout becomes a map of its own**, or there is none, or its alignment is too large. -/
theorem acquire_spec (word : pageSize < Word.bound) (hosts : Hosts C s m L)
    (pos : 0 < layout.size) :
    Action.Meets (Allocator.acquire layout) ⟨s, m⟩
      (fun b t => (⟨b, layout⟩ : Lease).Fits L ∧ m.Keeps t.memory (leased L) ∧
        Hosts C t.part t.memory (⟨b, layout⟩ ::ₘ L))
      (fun _ t => m.Keeps t.memory (leased L) ∧ Hosts C t.part t.memory L) := by
  have size := hosts.size
  show Action.Meets (Action.ofExcept layout.validate >>= fun _ =>
    Action.part >>= fun s : Pages η => _) _ _ _
  refine .step (layout.validate_of_pos pos _) (.part ?_)
  by_cases large : s.pageSize < layout.align
  · rw [if_pos large]
    exact .fault ⟨.refl _ _, hosts⟩
  rw [if_neg large]
  obtain ⟨len, run, whole, le⟩ := s.exists_mapLength (size ▸ word) layout
  refine .lift run (.bind ((below_meets (C.map len hosts.ready (by omega) (size ▸ whole))).mono
    (fun _ _ answer => answer) fun _ _ never => never.elim) ?_)
  rintro (_ | p) ⟨t, m'⟩ ⟨same, kept, after⟩
  · exact .fault ⟨kept, hosts.after same after hosts.whole⟩
  · obtain ⟨valid, aligned, apart, ready⟩ := after
    have some : ¬ p = 0 := Nat.pos_iff_ne_zero.mp valid.start_pos
    have divides : layout.align ∣ p := by
      obtain ⟨k, eq⟩ := Align.isPowerOfTwo_iff.mp s.powerOfTwo
      refine Nat.dvd_trans ?_ aligned
      rw [← size, eq]
      exact layout.align_dvd (by omega)
    refine .step rfl ?_
    rw [if_neg some]
    refine .pure ⟨⟨valid, le, divides, fun k hk => apart _ (Multiset.mem_map_of_mem _ hk)⟩, kept,
      hosts.after same ?_ (Multiset.forall_mem_cons.mpr ⟨run, hosts.whole⟩)⟩
    rw [leased_cons]
    exact ready

/-- **A block goes back**, and its map ends. -/
theorem release_spec (hosts : Hosts C s m (l ::ₘ L)) :
    Action.Meets (Allocator.release l.block.ptr l.layout) ⟨s, m⟩
      (fun _ t => m.Keeps t.memory (leased L) ∧ Hosts C t.part t.memory L) (fun _ _ => False) := by
  have ready := hosts.ready
  rw [leased_cons] at ready
  show Action.Meets (Action.part >>= fun s : Pages η => _) _ _ _
  refine .part (.lift (hosts.whole l (Multiset.mem_cons_self l L)) ?_)
  exact (below_meets (C.unmap ready)).mono (fun _ _ ⟨same, kept, after⟩ =>
    ⟨kept, hosts.after same after fun k hk => hosts.whole k (Multiset.mem_cons_of_mem hk)⟩)
    fun _ _ never => never

/-- **The maps of a host honour the contract** of an allocator. -/
def contract (C : MapContract η pageSize) (word : pageSize < Word.bound) :
    AllocatorContract (Pages η) where
  Ready := Hosts C
  frame hosts changed := ⟨C.frame hosts.ready changed, hosts.size, hosts.whole⟩
  acquire _ hosts pos := acquire_spec word hosts pos
  release _ hosts _ := release_spec hosts

theorem extended (C : MapContract η pageSize) (word : pageSize < Word.bound) (m₀ : Memory) :
    (contract C word).Extended 0 m₀ fun _ _ => True where
  empty layout s zero := ⟨_, Action.bind_of_error (layout.validate_of_zero zero s)⟩
  resize _ hosts := .fault ⟨.refl _ _, hosts⟩
  takesBack _ _ _ _ := rfl
  apart _ _ none := (Multiset.notMem_zero _ none).elim
  others _ _ none := (Multiset.notMem_zero _ none).elim
  sound _ := trivial

/-- **Users can rely on the maps of a host**, whatever the size of its pages. -/
theorem honoured (word : s.pageSize < Word.bound) {C : MapContract η s.pageSize}
    (ready : C.Ready s.host m 0) {t : Holding (Pages η)} (uses : Uses ⟨s, m, 0⟩ t) :
    t.Honoured 0 fun _ _ => True :=
  (extended C word m).honoured
    (.start ⟨ready, rfl, fun _ none => (Multiset.notMem_zero _ none).elim⟩) uses

end Pages

end LayeredMemory
