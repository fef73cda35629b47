import LayeredMemory.Proofs.Cache.Hosted

/-!
# Allocators in use — whole runs of the layers above

Whoever uses an allocator acquires, resizes and releases blocks, and writes into those that are out,
in any order and any number. `Uses` are the states that come about so; a block is resized and
released with the layout that it was last given, and that is all that users must keep to.

The contract between two layers says less than users rely on. It is `Extended` when requests for no
bytes fail too, every block comes back, blocks are resized or left as they were, and the allocator's
own check succeeds whenever it is in order. Then the allocator is `Honoured` in every state of every
run (`Extended.honoured`).

* `Heap.extended`, `Cache.extended`: heaps and caches do all this, whoever else uses them.
* `Heap.refuses`, `Cache.refuses`: the layouts that they refuse before anything is touched.
* `uses_honoured`: so their users can rely on them.
-/

namespace LayeredMemory

variable {α : Type}

/-- What users of an allocator rely on. The extents in `B` are somebody else's, and `valid` is the
allocator's own check. -/
structure Holding.Honoured [Allocator α] (B : Multiset Extent) (valid : α → Memory → Prop)
    (s : Holding α) : Prop where
  /-- The allocator is in order. -/
  sound : valid s.allocator s.memory
  /-- Every block that is out fits its layout, and is apart from all others. -/
  fits : ∀ l L, s.leases = l ::ₘ L → l.Fits L ∧ ∀ d ∈ B, d.Apart l.extent
  /-- Blocks can be written all over. -/
  write : ∀ l L m, s.leases = l ::ₘ L → s.memory.ChangedIn m {l.extent} →
    valid s.allocator m ∧ s.memory.Keeps m (leased L + B)
  /-- A layout becomes a block, or not. -/
  acquire : ∀ layout, Action.Meets (Allocator.acquire layout) ⟨s.allocator, s.memory⟩
    (fun b t => Lease.Fits ⟨b, layout⟩ s.leases ∧ (∀ d ∈ B, d.Apart b.extent) ∧
      s.memory.Keeps t.memory (leased s.leases + B))
    (fun _ t => s.memory.Keeps t.memory (leased s.leases + B))
  /-- A block gets another layout and keeps what it holds, or stays as it was. -/
  resize : ∀ l L layout, s.leases = l ::ₘ L →
    Action.Meets (Allocator.resize l.block.ptr l.layout layout) ⟨s.allocator, s.memory⟩
      (fun b t => Lease.Fits ⟨b, layout⟩ L ∧ (∀ d ∈ B, d.Apart b.extent) ∧
        s.memory.Keeps t.memory (leased L + B) ∧
        ∀ i < min l.layout.size layout.size,
          t.memory.read (b.ptr + i) = s.memory.read (l.block.ptr + i))
      (fun _ t => s.memory.Keeps t.memory (leased s.leases + B))
  /-- A block comes back. -/
  release : ∀ l L, s.leases = l ::ₘ L →
    Action.Meets (Allocator.release l.block.ptr l.layout) ⟨s.allocator, s.memory⟩
      (fun _ t => s.memory.Keeps t.memory (leased L + B)) (fun _ _ => False)

/-- The states that come about from one by using the allocator as its contract allows. -/
inductive Uses [Allocator α] (s : Holding α) : Holding α → Prop
  | start : Uses s s
  | acquire {t : Holding α} {layout : Layout} {b : Block} {u : Store α} (before : Uses s t)
      (run : Allocator.acquire layout ⟨t.allocator, t.memory⟩ = .ok b u) :
      Uses s ⟨u.part, u.memory, ⟨b, layout⟩ ::ₘ t.leases⟩
  | refuse {t : Holding α} {layout : Layout} {f : Fault} {u : Store α} (before : Uses s t)
      (run : Allocator.acquire layout ⟨t.allocator, t.memory⟩ = .error (.fault f) u) :
      Uses s ⟨u.part, u.memory, t.leases⟩
  | resize {t : Holding α} {l : Lease} {L : Multiset Lease} {layout : Layout} {b : Block}
      {u : Store α} (before : Uses s t) (out : t.leases = l ::ₘ L)
      (run : Allocator.resize l.block.ptr l.layout layout ⟨t.allocator, t.memory⟩ = .ok b u) :
      Uses s ⟨u.part, u.memory, ⟨b, layout⟩ ::ₘ L⟩
  | stay {t : Holding α} {l : Lease} {L : Multiset Lease} {layout : Layout} {f : Fault}
      {u : Store α} (before : Uses s t) (out : t.leases = l ::ₘ L)
      (run : Allocator.resize l.block.ptr l.layout layout ⟨t.allocator, t.memory⟩ =
        .error (.fault f) u) :
      Uses s ⟨u.part, u.memory, t.leases⟩
  | release {t : Holding α} {l : Lease} {L : Multiset Lease} {u : Store α} (before : Uses s t)
      (out : t.leases = l ::ₘ L)
      (run : Allocator.release l.block.ptr l.layout ⟨t.allocator, t.memory⟩ = .ok () u) :
      Uses s ⟨u.part, u.memory, L⟩
  | write {t : Holding α} {l : Lease} {m : Memory} (before : Uses s t) (out : l ∈ t.leases)
      (changed : t.memory.ChangedIn m {l.extent}) : Uses s ⟨t.allocator, m, t.leases⟩

/-- A contract that says everything about users of the allocator. Besides them, the extents in `B`
are somebody else's, with bytes as in `m₀`. -/
structure AllocatorContract.Extended [Allocator α] (K : AllocatorContract α) (B : Multiset Extent)
    (m₀ : Memory) (valid : α → Memory → Prop) : Prop where
  empty : ∀ (layout : Layout) (s : Store α), layout.size = 0 → ∃ f,
    Allocator.acquire layout s = .error (.fault f) s
  resize : ∀ {a m l L} (layout : Layout), K.Ready a m (l ::ₘ L) →
    Action.Meets (Allocator.resize l.block.ptr l.layout layout) ⟨a, m⟩
      (fun b s => Lease.Fits ⟨b, layout⟩ L ∧ m.Keeps s.memory (leased L) ∧
        K.Ready s.part s.memory (⟨b, layout⟩ ::ₘ L) ∧
        ∀ i < min l.layout.size layout.size,
          s.memory.read (b.ptr + i) = m.read (l.block.ptr + i))
      (fun _ s => m.Keeps s.memory (leased (l ::ₘ L)) ∧ K.Ready s.part s.memory (l ::ₘ L))
  takesBack : K.TakesBack
  apart : ∀ {a m l L}, K.Ready a m (l ::ₘ L) → ∀ d ∈ B, d.Apart l.extent
  others : ∀ {a m L}, K.Ready a m L → m₀.Keeps m B
  sound : ∀ {a m L}, K.Ready a m L → valid a m

/-- The allocator is in order with some blocks out, which fit their layouts and are apart. -/
structure Holding.Fitting [Allocator α] (K : AllocatorContract α) (s : Holding α) : Prop where
  ready : K.Ready s.allocator s.memory s.leases
  separate : Separate s.leases
  each : ∀ l ∈ s.leases, l.Fits 0

namespace Holding.Fitting

variable [Allocator α] {K : AllocatorContract α} {s : Holding α} {a : α} {m : Memory} {l : Lease}
  {L : Multiset Lease}

theorem fits (h : s.Fitting K) (out : s.leases = l ::ₘ L) : l.Fits L := by
  have alone := h.each l (out ▸ Multiset.mem_cons_self l L)
  exact { alone with apart := h.separate l L out }

/-- Before any block is out. -/
theorem start (ready : K.Ready a m 0) : Fitting K ⟨a, m, 0⟩ :=
  ⟨ready, Fitted.zero.separate, Fitted.zero.each⟩

/-- Without one of the blocks. -/
theorem rest (h : s.Fitting K) (out : s.leases = l ::ₘ L) : Fitted L :=
  (out ▸ ⟨h.separate, h.each⟩ : Fitted (l ::ₘ L)).of_cons

/-- With one more block. -/
theorem cons (fitted : Fitted L) (fits : l.Fits L) (ready : K.Ready a m (l ::ₘ L)) :
    Fitting K ⟨a, m, l ::ₘ L⟩ :=
  ⟨ready, (fitted.cons fits).separate, (fitted.cons fits).each⟩

end Holding.Fitting

namespace AllocatorContract.Extended

variable [Allocator α] {K : AllocatorContract α} {B : Multiset Extent} {m₀ m m' : Memory}
  {valid : α → Memory → Prop} {a a' : α} {s t : Holding α} {L L' : Multiset Lease}

/-- Every request is served or fails, also those for no bytes. -/
theorem acquire (R : K.Extended B m₀ valid) (ready : K.Ready a m L) (layout : Layout) :
    Action.Meets (Allocator.acquire layout) ⟨a, m⟩
      (fun b s => Lease.Fits ⟨b, layout⟩ L ∧ m.Keeps s.memory (leased L) ∧
        K.Ready s.part s.memory (⟨b, layout⟩ ::ₘ L))
      (fun _ s => m.Keeps s.memory (leased L) ∧ K.Ready s.part s.memory L) := by
  by_cases zero : layout.size = 0
  · obtain ⟨f, run⟩ := R.empty layout ⟨a, m⟩ zero
    exact .of_fault run ⟨.refl m _, ready⟩
  · exact K.acquire layout ready (Nat.pos_of_ne_zero zero)

theorem release (R : K.Extended B m₀ valid) {l : Lease} (ready : K.Ready a m (l ::ₘ L)) :
    Action.Meets (Allocator.release l.block.ptr l.layout) ⟨a, m⟩
      (fun _ s => m.Keeps s.memory (leased L) ∧ K.Ready s.part s.memory L) (fun _ _ => False) :=
  K.release l ready (R.takesBack a m _ ready)

/-- **The invariant of every run.** -/
theorem fitting (R : K.Extended B m₀ valid) (start : s.Fitting K) (uses : Uses s t) :
    t.Fitting K := by
  induction uses with
  | start => exact start
  | acquire before run ih =>
    obtain ⟨fits, -, ready⟩ := (R.acquire ih.ready _).answer run
    exact .cons ⟨ih.separate, ih.each⟩ fits ready
  | refuse before run ih => exact ⟨((R.acquire ih.ready _).refusal run).2, ih.separate, ih.each⟩
  | resize before out run ih =>
    obtain ⟨fits, -, ready, -⟩ := (R.resize _ (out ▸ ih.ready)).answer run
    exact .cons (ih.rest out) fits ready
  | stay before out run ih =>
    have ready := ((R.resize _ (out ▸ ih.ready)).refusal run).2
    exact ⟨out ▸ ready, ih.separate, ih.each⟩
  | release before out run ih =>
    have ready := ((R.release (out ▸ ih.ready)).answer run).2
    exact ⟨ready, (ih.rest out).separate, (ih.rest out).each⟩
  | write before out changed ih =>
    refine ⟨K.frame ih.ready (changed.mono ?_), ih.separate, ih.each⟩
    exact Multiset.singleton_subset.mpr (Multiset.mem_map_of_mem _ out)

/-- What stays from one state to another, others' bytes included. -/
theorem keeps (R : K.Extended B m₀ valid) (ready : K.Ready a m L) (ready' : K.Ready a' m' L')
    {M : Multiset Lease} (kept : m.Keeps m' (leased M)) : m.Keeps m' (leased M + B) := by
  intro f hf x hx
  rcases Multiset.mem_add.mp hf with hf | hf
  · exact kept f hf x hx
  · exact (R.others ready' f hf x hx).trans (R.others ready f hf x hx).symm

/-- **An allocator is honoured** in every state of every run. -/
theorem honoured (R : K.Extended B m₀ valid) (start : s.Fitting K) (uses : Uses s t) :
    t.Honoured B valid := by
  have fitting := R.fitting start uses
  have ready := fitting.ready
  refine ⟨R.sound ready, fun l L out => ⟨fitting.fits out, R.apart (out ▸ ready)⟩,
    fun l L m out changed => ?_, fun layout => ?_, fun l L layout out => ?_, fun l L out => ?_⟩
  · have after : K.Ready t.allocator m t.leases := by
      refine K.frame ready (changed.mono ?_)
      rw [out]
      exact Multiset.singleton_subset.mpr (Multiset.mem_map_of_mem _ (Multiset.mem_cons_self l L))
    refine ⟨R.sound after, R.keeps ready after fun f hf x hx => changed x fun g hg hx' => ?_⟩
    obtain ⟨k, hk, rfl⟩ := Multiset.mem_map.mp hf
    rw [Multiset.mem_singleton.mp hg] at hx'
    exact ((fitting.fits out).apart k hk).not_mem hx hx'
  · exact (R.acquire ready layout).mono
      (fun _ _ ⟨fits, kept, after⟩ => ⟨fits, R.apart after, R.keeps ready after kept⟩)
      fun _ _ ⟨kept, after⟩ => R.keeps ready after kept
  · exact (R.resize layout (out ▸ ready)).mono
      (fun _ _ ⟨fits, kept, after, same⟩ =>
        ⟨fits, R.apart after, R.keeps ready after kept, same⟩)
      fun _ _ ⟨kept, after⟩ => out ▸ R.keeps ready after kept
  · exact (R.release (out ▸ ready)).mono (fun _ _ ⟨kept, after⟩ => R.keeps ready after kept)
      fun _ _ never => never

end AllocatorContract.Extended

/-! ### Heaps -/

theorem Heap.refuses {γ : Type} [GrowthSource γ] (layout : Layout) (s : Store (Heap γ))
    (misfit : layout.size = 0 ∨ granule < layout.align) :
    ∃ reason, Allocator.acquire layout s = .error (.fault (.invalidArgument reason)) s ∧
      ∀ ptr old, Allocator.resize ptr old layout s =
        .error (.fault (.invalidArgument reason)) s := by
  obtain ⟨reason, refusal⟩ := layout.validateUpTo_eq_error misfit
  have checked : Action.ofExcept (layout.validateUpTo granule) s =
      .error (.fault (.invalidArgument reason)) s := by
    rw [refusal]
    rfl
  exact ⟨reason, Action.bind_of_error checked, fun _ _ => Action.bind_of_error checked⟩

/-- **Heaps** do all that users rely on, and leave direct clients alone. -/
theorem Heap.extended {γ : Type} [GrowthSource γ] (C : GrowthContract γ) (D : Multiset Extent)
    (m₀ : Memory) :
    (Heap.contract C D m₀).Extended D m₀ fun h m => ∃ report, h.validate m = .ok report := by
  refine ⟨fun layout s zero => ?_, fun layout hosts => hosts.resize layout, fun _ _ _ _ => rfl,
    fun {h m l L} hosts d hd => ?_, fun hosts => hosts.direct, fun {h m L} hosts => ?_⟩
  · obtain ⟨reason, run, -⟩ := Heap.refuses layout s (.inl zero)
    exact ⟨_, run⟩
  · have hosts : h.Hosts C D m₀ m (l ::ₘ L) := hosts
    exact hosts.apart (Multiset.mem_add.mpr (.inr hd)) rfl (Nat.le_refl _)
  · have hosts : h.Hosts C D m₀ m L := hosts
    obtain ⟨report, run, -⟩ := hosts.serves.lends.validate_eq
    exact ⟨report, run⟩

/-! ### Caches -/

section Caches

variable [Allocator α]

theorem Cache.refuses (layout : Layout) (s : Store (Cache α))
    (misfit : layout.size = 0 ∨ Word.bytes < layout.align ∨
      s.part.config.objectSize < layout.size) :
    ∃ reason, Allocator.acquire layout s = .error (.fault (.invalidArgument reason)) s := by
  by_cases refused : layout.size = 0 ∨ Word.bytes < layout.align
  · obtain ⟨reason, refusal⟩ := layout.validateUpTo_eq_error refused
    have checked : Action.ofExcept (layout.validateUpTo Word.bytes) s =
        .error (.fault (.invalidArgument reason)) s := by
      rw [refusal]
      rfl
    exact ⟨reason, Action.bind_of_error checked⟩
  · have large : s.part.config.objectSize < layout.size := by omega
    have valid : layout.validateUpTo Word.bytes = .ok () :=
      Layout.validateUpTo_eq_ok_iff.mpr ⟨by omega, by omega⟩
    have checked : Action.ofExcept (layout.validateUpTo Word.bytes) s = .ok () s := by
      rw [valid]
      rfl
    exact ⟨_, (Action.bind_of_ok checked).trans (congrFun (if_pos large) s)⟩

/-- **Caches** do all that users rely on, and leave direct clients alone. -/
theorem Cache.extended (K : AllocatorContract α) (c : Cache α) (D : List Nat) (m₀ : Memory) :
    (Cache.contract K D c.config m₀).Extended (c.rooms D) m₀ fun c m => c.validate m = .ok () := by
  refine ⟨fun layout s zero => ?_, fun layout hosts => ?_, fun _ _ _ _ => rfl,
    fun {c' m l L} hosts d hd => ?_, fun {c' m L} hosts => ?_, fun {c' m L} hosts => ?_⟩
  · obtain ⟨reason, run⟩ := Cache.refuses layout s (.inl zero)
    exact ⟨_, run⟩
  · exact .fault ⟨.refl _ _, hosts⟩
  · have hosts : c'.Hosts K D c.config m₀ m (l ::ₘ L) := hosts
    rw [← rooms_congr hosts.config] at hd
    exact hosts.apart (Multiset.mem_add.mpr (.inr hd))
  · have hosts : c'.Hosts K D c.config m₀ m L := hosts
    exact rooms_congr hosts.config D ▸ hosts.direct
  · have hosts : c'.Hosts K D c.config m₀ m L := hosts
    obtain ⟨objs, serves, -⟩ := hosts.serves
    exact validate_eq serves.booked serves.housed

end Caches

/-! ### Whole runs -/

/-- **Users can rely on heaps and caches**, whoever used them directly before. In every state that
comes about by using a heap, it is honoured, its blocks are as long as their layouts ask, and
layouts for no bytes or with an alignment above the granule are refused as malformed before anything
is touched. The same holds of a cache over any allocator; its blocks are whole objects, it refuses
alignments above a word and layouts larger than an object, and it never resizes. -/
theorem uses_honoured :
    (∀ {γ : Type} [GrowthSource γ] {C : GrowthContract γ} {σ : Heap.Session γ}
        {s : Holding (Heap γ)},
      Heap.Reachable C σ → Uses ⟨σ.heap, σ.memory, 0⟩ s →
        s.Honoured σ.rooms (fun h m => ∃ report, h.validate m = .ok report) ∧
        σ.memory.Keeps s.memory σ.rooms ∧
        (∀ l ∈ s.leases, l.block.len = l.layout.size) ∧
        ∀ layout : Layout, layout.size = 0 ∨ granule < layout.align → ∃ reason,
          Allocator.acquire layout ⟨s.allocator, s.memory⟩ =
            .error (.fault (.invalidArgument reason)) ⟨s.allocator, s.memory⟩ ∧
          ∀ ptr old, Allocator.resize ptr old layout ⟨s.allocator, s.memory⟩ =
            .error (.fault (.invalidArgument reason)) ⟨s.allocator, s.memory⟩) ∧
    ∀ {α : Type} [Allocator α] {K : AllocatorContract α} {n : Nat} {σ : Cache.Session α}
        {s : Holding (Cache α)},
      Cache.Reachable K n σ → Uses ⟨σ.cache, σ.memory, 0⟩ s →
        s.Honoured (σ.cache.rooms σ.live) (fun c m => c.validate m = .ok ()) ∧
        σ.memory.Keeps s.memory (σ.cache.rooms σ.live) ∧
        (∀ l ∈ s.leases, l.block.len = s.allocator.config.objectSize) ∧
        (∀ layout : Layout, layout.size = 0 ∨ Word.bytes < layout.align ∨
            s.allocator.config.objectSize < layout.size → ∃ reason,
          Allocator.acquire layout ⟨s.allocator, s.memory⟩ =
            .error (.fault (.invalidArgument reason)) ⟨s.allocator, s.memory⟩) ∧
        ∀ ptr old layout, Allocator.resize ptr old layout ⟨s.allocator, s.memory⟩ =
          .error (.fault (.unsupported "resize")) ⟨s.allocator, s.memory⟩ := by
  refine ⟨fun {γ _ C σ s} reachable uses => ?_, fun {α _ K n σ s} reachable uses => ?_⟩
  · have extended := Heap.extended C σ.rooms σ.memory
    have start : Holding.Fitting (Heap.contract C σ.rooms σ.memory) ⟨σ.heap, σ.memory, 0⟩ :=
      .start reachable.sound.hosts
    have hosts : s.allocator.Hosts C σ.rooms σ.memory s.memory s.leases :=
      (extended.fitting start uses).ready
    exact ⟨extended.honoured start uses, hosts.direct, fun l hl => (hosts.sized l hl).1,
      fun layout misfit => Heap.refuses layout _ misfit⟩
  · have extended := Cache.extended K σ.cache σ.live σ.memory
    have start : Holding.Fitting (Cache.contract K σ.live σ.cache.config σ.memory)
        ⟨σ.cache, σ.memory, 0⟩ :=
      .start (Cache.Hosts.start reachable.sound.1.serves)
    have hosts : s.allocator.Hosts K σ.live σ.cache.config σ.memory s.memory s.leases :=
      (extended.fitting start uses).ready
    exact ⟨extended.honoured start uses, extended.others hosts, hosts.whole,
      fun layout misfit => Cache.refuses layout _ misfit, fun _ _ _ => rfl⟩

/-- A heap serves two blocks; the first is written to and gets larger, which moves it with what it
holds, and the second comes back. A cache over the same heap serves two objects; the first comes
back, and the second is not resized. -/
theorem uses_honoured_pair :
    (∃ (s t u : Holding (Heap NoGrowth)) (a b c : Lease),
      s.leases = {b, a} ∧ a.extent = ⟨4112, 20⟩ ∧ s.memory.read 4112 = 7 ∧
      Allocator.resize 4112 a.layout c.layout ⟨s.allocator, s.memory⟩ =
        .ok c.block ⟨t.allocator, t.memory⟩ ∧
      t.leases = {c, b} ∧ c.extent = ⟨4176, 200⟩ ∧ t.memory.read 4176 = 7 ∧
      Allocator.release b.block.ptr b.layout ⟨t.allocator, t.memory⟩ =
        .ok () ⟨u.allocator, u.memory⟩ ∧
      u.leases = {c} ∧ c.Fits 0 ∧ ∃ report, u.allocator.validate u.memory = .ok report) ∧
    ∃ (s : Holding (Cache (Heap NoGrowth))) (a : Lease), s.leases = {a} ∧
      a.extent = ⟨4152, 24⟩ ∧ a.Fits 0 ∧ s.allocator.validate s.memory = .ok () ∧
      Allocator.resize 4152 a.layout a.layout ⟨s.allocator, s.memory⟩ =
        .error (.fault (.unsupported "resize")) ⟨s.allocator, s.memory⟩ := by
  let small : Layout := ⟨20, 8, by decide, by decide⟩
  let large : Layout := ⟨200, 8, by decide, by decide⟩
  let config : CacheConfig := { objectSize := 24, pageSize := 256 }
  let fresh : Heap.Session NoGrowth := ⟨{ growth := {} }, Memory.zero, []⟩
  have outcome : (do
      let σ ← (fresh.serve (.addPool ⟨4096, 1024⟩)).toOption
      let c ← (Cache.new config σ.heap).toOption
      let (a, s) ← (Allocator.acquire small).answer? ⟨σ.heap, σ.memory⟩
      let (b, s) ← (Allocator.acquire small).answer? s
      let (d, s) ← (Allocator.resize a.ptr small large).answer? ⟨s.part, s.memory.write 4112 7⟩
      let (_, _) ← (Allocator.release b.ptr small).answer? s
      let (e, s) ← (Allocator.acquire small).answer? ⟨c, σ.memory⟩
      let (f, s) ← (Allocator.acquire small).answer? s
      let (_, _) ← (Allocator.release e.ptr small).answer? s
      return (a, b, d, e, f)) =
        some (⟨4112, 20⟩, ⟨4144, 20⟩, ⟨4176, 200⟩, ⟨4120, 24⟩, ⟨4152, 24⟩) := by
    decide +kernel
  obtain ⟨σ, served, outcome⟩ := Action.exists_of_bind outcome
  obtain ⟨k, made, outcome⟩ := Action.exists_of_bind outcome
  obtain ⟨a, s₁, first, outcome⟩ := Action.exists_of_answer outcome
  obtain ⟨b, s₂, second, outcome⟩ := Action.exists_of_answer outcome
  obtain ⟨d, s₃, resized, outcome⟩ := Action.exists_of_answer outcome
  obtain ⟨_, s₄, released, outcome⟩ := Action.exists_of_answer outcome
  obtain ⟨e, t₁, first', outcome⟩ := Action.exists_of_answer outcome
  obtain ⟨f, t₂, second', outcome⟩ := Action.exists_of_answer outcome
  obtain ⟨_, t₃, released', outcome⟩ := Action.exists_of_answer outcome
  simp only [Option.pure_def, Option.some.injEq, Prod.mk.injEq] at outcome
  obtain ⟨rfl, rfl, rfl, rfl, rfl⟩ := outcome
  have legal : Heap.Request.Legal NoGrowth.contract fresh (.addPool ⟨4096, 1024⟩) :=
    ⟨⟨by decide, by decide⟩, fun _ => trivial⟩
  have heap := (Heap.Reachable.start trivial).serve legal served
  have cache : Cache.Reachable (Heap.contract NoGrowth.contract σ.rooms σ.memory) 0
      ⟨k, σ.memory, []⟩ := .start made heap.sound.hosts
  have swap (a b : Lease) : ({a, b} : Multiset Lease) = b ::ₘ {a} := Multiset.cons_swap a b 0
  refine ⟨?heap, ?cache⟩
  case heap =>
    let x : Lease := ⟨⟨4112, 20⟩, small⟩
    let y : Lease := ⟨⟨4144, 20⟩, small⟩
    let z : Lease := ⟨⟨4176, 200⟩, large⟩
    have taken : Uses ⟨σ.heap, σ.memory, 0⟩ ⟨s₂.part, s₂.memory, {y, x}⟩ :=
      (Uses.start.acquire first).acquire second
    have written := taken.write (l := x) (m := s₂.memory.write 4112 7)
      (Multiset.mem_cons_of_mem (Multiset.mem_singleton_self x))
      ((s₂.memory.changedWithin_write 4112 7).changedIn (Multiset.mem_singleton_self x.extent)
        (by decide) (by decide))
    have grown := written.resize (swap y x) resized
    have left := grown.release (l := y) (L := {z}) (swap z y) released
    obtain ⟨⟨-, -, -, -, resize, -⟩, -⟩ := uses_honoured.1 heap written
    have kept := ((resize x {y} large (swap y x)).answer resized).2.2.2 0 (by decide)
    have seven : (s₂.memory.write 4112 7).read 4112 = 7 := by
      rw [Memory.read_write, if_pos rfl]
    obtain ⟨⟨sound, fits, -⟩, -⟩ := uses_honoured.1 heap left
    exact ⟨⟨s₂.part, s₂.memory.write 4112 7, {y, x}⟩, ⟨s₃.part, s₃.memory, {z, y}⟩,
      ⟨s₄.part, s₄.memory, {z}⟩, x, y, z, rfl, rfl, seven, resized, rfl, rfl, kept.trans seven,
      released, rfl, (fits z 0 rfl).1, sound⟩
  case cache =>
    let x : Lease := ⟨⟨4120, 24⟩, small⟩
    let y : Lease := ⟨⟨4152, 24⟩, small⟩
    have taken : Uses ⟨k, σ.memory, 0⟩ ⟨t₂.part, t₂.memory, {y, x}⟩ :=
      (Uses.start.acquire first').acquire second'
    have left := taken.release (l := x) (L := {y}) (swap y x) released'
    obtain ⟨⟨sound, fits, -⟩, -, -, -, never⟩ := uses_honoured.2 cache left
    exact ⟨_, y, rfl, rfl, (fits y 0 rfl).1, sound, never ..⟩

end LayeredMemory
