import LayeredMemory.Layer.Arena
import LayeredMemory.Proofs.Cache.Service
import LayeredMemory.Proofs.Slab.Geometry

/-!
# Admission — configurations that a cache can serve

A configuration `Fits` when one object and its owner header, in whole words, fit a page, and a page
is a layout. Exactly these make a cache, and what the cache computes from its configuration once,
the distance of slots and their number, agrees ever after with what a slab computes from its own
extent.

`Lives` follows a cache through anything that may happen to it: requests that are right or wrong and
however they end, and whatever others do to memory and to the allocator meanwhile. All that is asked
is that a block which the allocator hands out for a slab is a `Page`.

* `Admitted`: what stays true of a cache; `alloc_leaves`, `tryFree_leaves`, `evictAbove_leaves`: how
  every operation leaves it.
* `init_of_page`, `grow_of_acquired`: a page is always cut into slots.
* `admits_exactly`: which configurations are admitted, and how their slabs are cut.
-/

namespace LayeredMemory

/-- A block that serves as a page of the configuration: real memory, aligned, and long enough. -/
structure CacheConfig.Page (config : CacheConfig) (b : Block) : Prop where
  valid : b.extent.Valid
  aligned : 8 ∣ b.ptr
  len_le : config.pageSize ≤ b.len

/-- A slab whose slots are so far apart, as many as a page has room for, each of them aligned,
inside the slab's extent, and with room for an owner header and an object. -/
structure CacheConfig.Portions (config : CacheConfig) (distance : Nat) (s : Slab) : Prop where
  stride : s.stride = distance
  capacity : s.capacity = config.pageSize / distance
  aligned : ∀ i < s.capacity, 8 ∣ s.slotAddr i
  inside : ∀ i < s.capacity, s.extent.start ≤ s.slotAddr i ∧
    s.slotAddr i + distance ≤ s.extent.start + s.extent.len
  room : Cache.header + config.objectSize ≤ distance

namespace Cache

variable {α : Type} {config : CacheConfig} {c c' : Cache α} {m : Memory} {id : Nat}
  {e : CacheEntry} {o : Option CacheEntry}

/-- The cache was made from the configuration, and its slabs are cut as the configuration says. -/
structure Admitted (config : CacheConfig) (c : Cache α) : Prop where
  configured : c.Configured
  stride : c.stride = Slab.strideOf (config.objectSize + 8)
  perSlab : c.perSlab = config.pageSize / c.stride
  config : c.config = config
  cut : ∀ id e, c.lookup? id = some e → c.Cut e ∧ e.slab.Shaped

/-! ### Making a cache -/

/-- **A new cache** is cut as its configuration says. -/
theorem new_admitted {allocator : α} (made : Cache.new config allocator = .ok c) :
    Admitted config c := by
  have configured := (new_spec made).1.configured
  obtain ⟨-, l, -, -, new⟩ | ⟨-, reason, refused⟩ := new_cases config allocator
  · cases made.symm.trans new
    exact ⟨configured, rfl, rfl, rfl, nofun⟩
  · cases made.symm.trans refused

/-! ### What stays of a cache -/

namespace Admitted

/-- Whatever else of a cache changes. -/
theorem change (h : Admitted config c) {allocator : α} {slabs : Array (Option CacheEntry)}
    {vacant : List Nat} {roster : Roster} {live : Nat} {counters : CacheCounters}
    (cut : ∀ (id : Nat) e, (slabs[id]?).join = some e → c.Cut e ∧ e.slab.Shaped) :
    Admitted config { c with allocator, slabs, vacant, roster, live, counters } := by
  refine ⟨{ h.configured with }, h.stride, h.perSlab, h.config, fun id e he => ?_⟩
  obtain ⟨same, shaped⟩ := cut id e he
  exact ⟨{ same with }, shaped⟩

/-- One number gets another slab, or none. -/
theorem swap (h : Admitted config c) (w : Swapped c id o c')
    (fits : ∀ e, o = some e → c.Cut e ∧ e.slab.Shaped) (j : Nat) (d : CacheEntry)
    (hd : c'.lookup? j = some d) : c.Cut d ∧ d.slab.Shaped := by
  rw [w.lookup?_eq] at hd
  split at hd
  · exact fits d hd
  · exact h.cut j d hd

theorem setSlab {s : Slab} (h : Admitted config c) (he : c.lookup? id = some e)
    (recounts : e.slab.Recounts s) : Admitted config (c.setSlab id s) := by
  have w : Swapped c id (some { e with slab := s }) (c.setSlab id s) :=
    .of_set (lt_size_of_lookup? he) (setSlab_slabs he) rfl rfl rfl rfl
  refine h.change (h.swap w ?_)
  rintro _ ⟨⟩
  obtain ⟨same, shaped⟩ := h.cut id e he
  refine ⟨?_, recounts.shaped shaped⟩
  obtain ⟨count, head, rfl⟩ := recounts
  exact ⟨same.start, same.stride, same.capacity, same.aligned⟩

theorem registering (h : Admitted config c) (cut : c.Cut e) (shaped : e.slab.Shaped) :
    Admitted config (c.registering e) := by
  obtain ⟨j, w⟩ : ∃ j, Swapped c j (some e) (c.registering e) := by
    by_cases lt : c.nextId < c.slabs.size
    · exact ⟨_, .of_set lt (if_pos lt) rfl rfl rfl rfl⟩
    · exact ⟨_, .of_push (if_neg lt) rfl rfl rfl rfl⟩
  refine h.change (h.swap w ?_)
  rintro _ ⟨⟩
  exact ⟨cut, shaped⟩

/-! ### Slabs from pages -/

/-- **A page is cut into slots**, with the distance and the number that the cache keeps. -/
theorem init_of_page {σ : Type} {b : Block} (h : Admitted config c) (page : config.Page b) (p : σ)
    (m : Memory) :
    ∃ s m', Slab.init b.extent c.stride c.perSlab ⟨p, m⟩ = .ok s ⟨p, m'⟩ ∧ c.Cut ⟨s, b.ptr⟩ ∧
      s.Shaped ∧ s.extent = b.extent := by
  have long : c.extentLayout.size ≤ b.len := by
    rw [h.configured.size_eq, h.config]
    exact page.len_le
  obtain ⟨s, m', run, sound, -, extent, cut, -⟩ :=
    h.configured.init_spec page.valid page.aligned long p m
  exact ⟨s, m', run, cut, sound.shaped, extent⟩

theorem portions (h : Admitted config c) {s : Slab} {block : Nat} (cut : c.Cut ⟨s, block⟩)
    (shaped : s.Shaped) : config.Portions (Slab.strideOf (config.objectSize + 8)) s := by
  have stride : s.stride = Slab.strideOf (config.objectSize + 8) := cut.stride.trans h.stride
  refine ⟨stride, ?_, fun i _ => ?_, fun i lt => ?_, ?_⟩
  · rw [← h.stride, ← h.perSlab]
    exact cut.capacity
  · exact Nat.dvd_add cut.aligned
      (Nat.dvd_mul_left_of_dvd (cut.stride ▸ h.configured.stride_dvd) i)
  · rw [← stride]
    exact (shaped.slot_bounds ⟨i, lt, rfl⟩).2
  · rw [Nat.add_comm header]
    exact (strideOf_object_isLeast config).1.2

/-! ### Operations, however they end -/

theorem below_leaves {β : Type} (h : Admitted config c) (x : Action α β) :
    Action.Leaves (Admitted config) (below x) ⟨c, m⟩ :=
  Action.Leaves.within (J := fun _ => True) trivial fun _ _ => h.change h.cut

theorem onSlab_leaves {β : Type} {x : Action Slab β} (h : Admitted config c)
    (he : c.lookup? id = some e) (recounts : Action.Leaves e.slab.Recounts x ⟨e.slab, m⟩) :
    Action.Leaves (Admitted config) (onSlab id e x) ⟨c, m⟩ :=
  Action.Leaves.within (recounts.bind fun _ _ same => same) fun _ same => h.setSlab he same

variable [Allocator α]

theorem releaseBlock_leaves (h : Admitted config c) (block : Nat) :
    Action.Leaves (Admitted config) (releaseBlock block) ⟨c, m⟩ := by
  unfold releaseBlock
  refine .part ?_
  split
  · exact (h.below_leaves _).bind fun _ _ h => h.change h.cut
  · exact .finish (h.change h.cut)

theorem releaseSlab_leaves (h : Admitted config c) (id : Nat) :
    Action.Leaves (Admitted config) (releaseSlab id) ⟨c, m⟩ := by
  unfold releaseSlab
  refine .modifyPart (.part ?_)
  split
  · exact .pure (h.change h.cut)
  · next e he =>
    have he : c.lookup? id = some e := he
    refine .modifyPart (releaseBlock_leaves ?_ _)
    exact h.change (h.swap (swapped_striking (k := c.counters) he) nofun)

theorem evict_leaves {s : Store (Cache α)} (h : Admitted config s.part) (n : Nat) :
    Action.Leaves (Admitted config) (evict n) s := by
  induction n generalizing s with
  | zero => exact h
  | succ n ih =>
    unfold evict
    refine .part ?_
    split
    · exact h
    · exact (h.releaseSlab_leaves _).bind fun _ _ h => ih h

theorem evictAbove_leaves {s : Store (Cache α)} (h : Admitted config s.part) (keep : Nat) :
    Action.Leaves (Admitted config) (evictAbove keep) s := by
  unfold evictAbove
  exact .part (evict_leaves h _)

theorem free_leaves (h : Admitted config c) (p : Nat) :
    Action.Leaves (Admitted config) (free p) ⟨c, m⟩ := by
  unfold free
  refine .part (.memory ?_)
  dsimp only
  split
  · exact .stop h
  next e he =>
  -- The slab may stop the call halfway, which leaves its cut alone like everything else it does.
  refine .step (Pattern.fill_eq ..) ((h.onSlab_leaves he (Slab.free_leaves ..)).bind ?_)
  rintro ⟨⟨⟩, state⟩ ⟨c₁, m₁⟩ h
  refine .modifyPart (.bind (.lift _ (h.change h.cut)) ?_)
  rintro live ⟨c₂, m₂⟩ h
  refine .modifyPart ?_
  split
  · exact evictAbove_leaves (h.change h.cut) _
  · exact .pure (h.change h.cut)

theorem tryFree_leaves (h : Admitted config c) (p : Nat) :
    Action.Leaves (Admitted config) (tryFree p) ⟨c, m⟩ := by
  unfold tryFree
  refine .part (.memory ?_)
  split
  · exact .fault h
  · exact h.free_leaves p

/-! ### Growing -/

/-- **A cache grows** by every page that it gets. -/
theorem grow_of_acquired {b : Block} {x : α} {m₁ : Memory} (h : Admitted config c)
    (extensible : c.Extensible)
    (run : Allocator.acquire c.extentLayout ⟨c.allocator, m⟩ = .ok b ⟨x, m₁⟩)
    (page : config.Page b) :
    ∃ s m₂, grow ⟨c, m⟩ =
        .ok c.nextId ⟨({ c with allocator := x } : Cache α).registering ⟨s, b.ptr⟩, m₂⟩ ∧
      c.Cut ⟨s, b.ptr⟩ ∧ s.Shaped ∧ s.extent = b.extent := by
  have below : Admitted config { c with allocator := x } := h.change h.cut
  obtain ⟨s, m₂, made, cut, shaped, extent⟩ := below.init_of_page page { c with allocator := x } m₁
  refine ⟨s, m₂, ?_, { cut with }, shaped, extent⟩
  unfold grow
  rw [Action.part_bind, if_neg fun full => limit_iff.mp full extensible,
    Action.bind_of_ok (acquireBlock_of_ok run), Action.bind_of_ok (initSlab_of_ok made)]
  exact register_run

theorem grow_leaves (h : Admitted config c)
    (pages : ∀ b t, Allocator.acquire c.extentLayout ⟨c.allocator, m⟩ = .ok b t → config.Page b) :
    Action.Leaves (Admitted config) grow ⟨c, m⟩ := by
  by_cases extensible : c.Extensible
  case neg =>
    unfold grow
    refine .part ?_
    rw [if_pos (limit_iff.mpr extensible)]
    exact .fault h
  -- What the allocator hands out is a page, so no block has to go back.
  rcases run : Allocator.acquire c.extentLayout ⟨c.allocator, m⟩ with ⟨b, x, m₁⟩ | ⟨f, x, m₁⟩
  · obtain ⟨s, m₂, grown, cut, shaped, -⟩ := h.grow_of_acquired extensible run (pages b _ run)
    have below : Admitted config { c with allocator := x } := h.change h.cut
    exact .of_ok grown (below.registering { cut with } shaped)
  · obtain ⟨g, failed⟩ := acquireBlock_of_error run
    unfold grow
    refine .part ?_
    rw [if_neg fun full => limit_iff.mp full extensible]
    exact .of_error (Action.bind_of_error failed) (h.change h.cut)

theorem alloc_leaves (h : Admitted config c)
    (pages : ∀ b t, Allocator.acquire c.extentLayout ⟨c.allocator, m⟩ = .ok b t → config.Page b) :
    Action.Leaves (Admitted config) alloc ⟨c, m⟩ := by
  have chosen : Action.Leaves (Admitted config) chooseSlab ⟨c, m⟩ := by
    unfold chooseSlab
    refine .part ?_
    split
    · exact .pure h
    · exact h.grow_leaves pages
  refine chosen.bind ?_
  rintro id ⟨c₁, m₁⟩ h
  refine .part ?_
  split
  · exact .fault h
  next e he =>
  refine (h.onSlab_leaves he (Slab.alloc_leaves ..)).bind ?_
  rintro ⟨slot, state⟩ ⟨c₂, m₂⟩ h
  exact .step (Action.writeWord_run ..) (.step (Pattern.fill_eq ..)
    (.modifyPart (.pure (h.change h.cut))))

end Admitted

/-! ### Whole runs -/

section Runs

variable [Allocator α]

/-- Caches of one configuration and their memory, whatever happens to them: from a new cache, by
requests that are right or wrong and however they end, and by anything that others do to memory and
to the allocator. Only pages are handed out for slabs. -/
inductive Lives (config : CacheConfig) : Store (Cache α) → Prop
  | start {allocator : α} {c : Cache α} (made : Cache.new config allocator = .ok c) (m : Memory) :
      Lives config ⟨c, m⟩
  | alloc {s : Store (Cache α)} (before : Lives config s)
      (pages : ∀ b t, Allocator.acquire s.part.extentLayout ⟨s.part.allocator, s.memory⟩ = .ok b t →
        config.Page b) : Lives config (Action.final (alloc s))
  | free {s : Store (Cache α)} (before : Lives config s) (p : Nat) :
      Lives config (Action.final (free p s))
  | tryFree {s : Store (Cache α)} (before : Lives config s) (p : Nat) :
      Lives config (Action.final (tryFree p s))
  | shrink {s : Store (Cache α)} (before : Lives config s) : Lives config (Action.final (shrink s))
  | outside {s : Store (Cache α)} (before : Lives config s) (x : α) (m : Memory) :
      Lives config ⟨{ s.part with allocator := x }, m⟩

theorem Lives.admitted {s : Store (Cache α)} (lives : Lives config s) : Admitted config s.part := by
  induction lives with
  | start made m => exact new_admitted made
  | alloc _ pages ih => exact ih.alloc_leaves pages
  | free _ p ih => exact ih.free_leaves p
  | tryFree _ p ih => exact ih.tryFree_leaves p
  | shrink _ ih => exact Admitted.evictAbove_leaves ih 0
  | outside _ x m ih => exact ih.change ih.cut

/-- **Exactly the configurations that can be served are admitted.** With objects and their owner
headers in whole words `stride` apart, a cache is made if objects are not empty, not too large, and
`stride` fits a page that is a layout. Every other configuration is refused.

Whatever happens to a cache that was made, a page has room for a slot. Every page is cut into slots
without fail, so the cache grows by every page that the allocator hands out while it may grow. All
slabs have their slots `stride` apart, as many as a page has room for; each slot is aligned, lies
inside the block and has room for an owner header and an object. -/
theorem admits_exactly (config : CacheConfig) : ∃ stride,
    IsLeast {k | 8 ∣ k ∧ config.objectSize + 8 ≤ k} stride ∧
      (∀ allocator : α,
        ((∃ c, Cache.new config allocator = .ok c) ↔
          1 ≤ config.objectSize ∧ config.objectSize ≤ (2 ^ 63 - 1) / 2 ∧
            stride ≤ config.pageSize ∧ config.pageSize ≤ 2 ^ 63 - 8) ∧
        ((¬∃ c, Cache.new config allocator = .ok c) → ∃ reason,
          Cache.new config allocator = .error (.fault (.invalidArgument reason)))) ∧
      ∀ (c : Cache α) (m : Memory), Lives config ⟨c, m⟩ →
        1 ≤ config.pageSize / stride ∧
        (∀ b, config.Page b → ∀ {σ : Type} (p : σ) (m₁ : Memory), ∃ s m₂,
          Slab.init b.extent c.stride c.perSlab ⟨p, m₁⟩ = .ok s ⟨p, m₂⟩ ∧ s.extent = b.extent ∧
            config.Portions stride s) ∧
        (∀ b x m₁, c.Extensible →
          Allocator.acquire c.extentLayout ⟨c.allocator, m⟩ = .ok b ⟨x, m₁⟩ → config.Page b →
          ∃ s m₂, grow ⟨c, m⟩ =
              .ok c.nextId ⟨({ c with allocator := x } : Cache α).registering ⟨s, b.ptr⟩, m₂⟩ ∧
            s.extent = b.extent ∧ config.Portions stride s) ∧
        ∀ id e, c.lookup? id = some e → config.Portions stride e.slab := by
  refine ⟨_, strideOf_object_isLeast config, fun allocator => ?_, fun c m lives => ?_⟩
  · obtain ⟨fits, l, -, -, made⟩ | ⟨unfit, refused⟩ := new_cases config allocator
    · exact ⟨⟨fun _ => ⟨fits.object_pos, fits.object_le, fits.stride_le, fits.page_le⟩,
        fun _ => ⟨_, made⟩⟩, fun none => (none ⟨_, made⟩).elim⟩
    · refine ⟨⟨?_, fun ⟨pos, small, room, page⟩ => (unfit ⟨pos, small, room, page⟩).elim⟩,
        fun _ => refused⟩
      rintro ⟨c, made⟩
      obtain ⟨reason, refused⟩ := refused
      cases made.symm.trans refused
  · have h : Admitted config c := lives.admitted
    refine ⟨?_, fun b page σ p m₁ => ?_, fun b x m₁ extensible run page => ?_, fun id e he => ?_⟩
    · rw [← h.stride, ← h.perSlab]
      exact h.configured.perSlab_pos
    · obtain ⟨s, m₂, run, cut, shaped, extent⟩ := h.init_of_page page p m₁
      exact ⟨s, m₂, run, extent, h.portions cut shaped⟩
    · obtain ⟨s, m₂, grown, cut, shaped, extent⟩ := h.grow_of_acquired extensible run page
      exact ⟨s, m₂, grown, extent, h.portions cut shaped⟩
    · obtain ⟨cut, shaped⟩ := h.cut id e he
      exact h.portions cut shaped

theorem admits_exactly_two : ∃ (c : Cache Arena) (id : Nat) (t : Store (Cache Arena)),
    Cache.new { objectSize := 24, pageSize := 64 } { next := 4096, limit := 8192 } = .ok c ∧
      Lives { objectSize := 24, pageSize := 64 } ⟨c, Memory.zero⟩ ∧
      grow ⟨c, Memory.zero⟩ = .ok id t ∧ ∃ e, t.part.lookup? id = some e ∧ e.slab.stride = 32 ∧
        e.slab.capacity = 2 := by
  obtain ⟨stride, least, admits, lives⟩ :=
    admits_exactly (α := Arena) { objectSize := 24, pageSize := 64 }
  obtain rfl : stride = 32 :=
    least.unique ⟨by decide, fun k ⟨aligned, (le : 24 + 8 ≤ k)⟩ => by omega⟩
  obtain ⟨c, made⟩ := (admits { next := 4096, limit := 8192 }).1.mpr (by decide)
  have alive : Lives { objectSize := 24, pageSize := 64 } ⟨c, Memory.zero⟩ := .start made _
  obtain ⟨-, -, grows, -⟩ := lives c Memory.zero alive
  cases made
  obtain ⟨s, m₂, grown, -, portions⟩ := grows ⟨4096, 64⟩ _ _ (.inl rfl) rfl
    ⟨⟨by decide, by decide⟩, by decide, by decide⟩
  exact ⟨_, _, _, rfl, alive, grown, ⟨s, 4096⟩, rfl, portions.stride, portions.capacity⟩

end Runs

end Cache

end LayeredMemory
