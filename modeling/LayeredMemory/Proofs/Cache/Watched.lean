import LayeredMemory.Proofs.Cache.Session
import LayeredMemory.Proofs.Layer.Watched

/-!
# Caches over watched allocators

A cache does not know whether its allocator is watched. Each of its operations over a watched
allocator is, without the watch, the same operation over the allocator itself (`alloc_shadows` and
its neighbours): the same answer or failure, the same memory, the same cache but for the calls that
were noted. The proofs follow the definitions, step by step; calls of the allocator are the only
steps at which there is something to show, and there it is `Watched.noting_shadows`.

So every run of a cache is one that can be watched from the start (`Reachable.exists_observed`), and
without the watch every watched run is a run (`Observed.reachable`).
-/

namespace LayeredMemory.Cache

open LayeredMemory.Action (Shadows)

variable {α : Type}

/-- A cache over a watched allocator, without the watch. -/
def unwatched (c : Cache (Watched α)) : Cache α :=
  { c with allocator := c.allocator.inner }

@[simp] theorem unwatched_lookup? (c : Cache (Watched α)) (id : Nat) :
    c.unwatched.lookup? id = c.lookup? id := rfl

@[simp] theorem unwatched_roster (c : Cache (Watched α)) : c.unwatched.roster = c.roster := rfl

@[simp] theorem unwatched_refusal? (c : Cache (Watched α)) (m : Memory) (p : Nat) :
    c.unwatched.refusal? m p = c.refusal? m p := rfl

theorem below_shadows {β : Type} {x : Action (Watched α) β} {y : Action α β}
    (h : Shadows Watched.inner x y) : Shadows unwatched (below x) (below y) :=
  h.within (fun _ => rfl) fun _ _ => rfl

theorem onSlab_shadows {β : Type} (id : Nat) (e : CacheEntry) (x : Action Slab β) :
    Shadows unwatched (onSlab (α := Watched α) id e x) (onSlab id e x) :=
  Shadows.within .refl (fun _ => rfl) fun _ _ => rfl

variable [Allocator α]

theorem releaseBlock_shadows (block : Nat) :
    Shadows (unwatched (α := α)) (releaseBlock block) (releaseBlock block) := by
  unfold releaseBlock
  refine .part fun c => .ite (.bind (below_shadows Watched.noting_shadows) fun _ => ?_) ?_
  · exact .modifyPart fun _ => rfl
  · exact .modifyPart fun _ => rfl

theorem releaseSlab_shadows (id : Nat) :
    Shadows (unwatched (α := α)) (releaseSlab id) (releaseSlab id) := by
  unfold releaseSlab
  refine .bind (.modifyPart fun _ => rfl) fun _ => .part fun c => ?_
  rw [unwatched_lookup?]
  cases c.lookup? id with
  | none => exact .pure ()
  | some e => exact .bind (.modifyPart fun _ => rfl) fun _ => releaseBlock_shadows e.block

theorem evict_shadows (n : Nat) : Shadows (unwatched (α := α)) (evict n) (evict n) := by
  induction n with
  | zero => exact .pure ()
  | succ n ih =>
    unfold evict
    refine .part fun c => ?_
    rw [unwatched_roster]
    cases c.roster.front .empty with
    | none => exact .pure ()
    | some id => exact .bind (releaseSlab_shadows id) fun _ => ih

theorem evictAbove_shadows (keep : Nat) :
    Shadows (unwatched (α := α)) (evictAbove keep) (evictAbove keep) := by
  unfold evictAbove
  exact .part fun c => evict_shadows (c.roster.length .empty - keep)

theorem acquireBlock_shadows :
    Shadows (unwatched (α := α)) acquireBlock acquireBlock := by
  unfold acquireBlock
  refine .part fun c => .bind (below_shadows Watched.noting_shadows).attempt fun answer => ?_
  cases answer with
  | ok block => exact .pure block
  | error f => exact .fault c.extentLayout.outOfMemory

theorem slab_init_shadows {σ τ : Type} {f : σ → τ} (e : Extent) (slotSize capacity : Nat) :
    Shadows f (Slab.init e slotSize capacity) (Slab.init e slotSize capacity) := by
  unfold Slab.init
  refine .ite (.fault _) (.ite (.fault _) (.bind (.lift _) fun fits => .ite (.fault _) ?_))
  exact .bind (.lift _) fun first => .bind (.lift _) fun stride p m => rfl

theorem initSlab_shadows (block : Block) :
    Shadows (unwatched (α := α)) (initSlab block) (initSlab block) := by
  unfold initSlab
  refine .part fun c => .bind (slab_init_shadows _ _ _).attempt fun answer => ?_
  cases answer with
  | ok slab => exact .pure slab
  | error f =>
    exact .ite (.bind (below_shadows Watched.noting_shadows) fun _ => .fault f) (.fault f)

omit [Allocator α] in
theorem register_shadows (e : CacheEntry) :
    Shadows (unwatched (α := α)) (register e) (register e) := by
  unfold register
  exact .part fun c => .bind (.modifyPart fun _ => rfl) fun _ => .pure _

theorem grow_shadows : Shadows (unwatched (α := α)) grow grow := by
  unfold grow
  refine .part fun c => .ite (.fault _) (.bind acquireBlock_shadows fun block => ?_)
  exact .bind (initSlab_shadows block) fun slab => register_shadows ⟨slab, block.ptr⟩

theorem chooseSlab_shadows : Shadows (unwatched (α := α)) chooseSlab chooseSlab := by
  unfold chooseSlab
  refine .part fun c => ?_
  rw [unwatched_roster]
  cases c.roster.front .available <|> c.roster.back .empty with
  | none => exact grow_shadows
  | some id => exact .pure id

theorem alloc_shadows : Shadows (unwatched (α := α)) alloc alloc := by
  unfold alloc
  refine .bind chooseSlab_shadows fun id => .part fun c => ?_
  rw [unwatched_lookup?]
  cases c.lookup? id with
  | none => exact .fault _
  | some e =>
    refine .bind (onSlab_shadows id e _) fun _ => .bind (.modifyMemory _) fun _ => ?_
    exact .bind (.fill _ _ _) fun _ => .bind (.modifyPart fun _ => rfl) fun _ => .pure _

theorem free_shadows (ptr : Nat) : Shadows (unwatched (α := α)) (free ptr) (free ptr) := by
  unfold free
  refine .part fun c => .memory fun m => ?_
  dsimp only
  rw [unwatched_lookup?]
  cases c.lookup? (m.readWord (ptr - header)) with
  | none => exact .stop _
  | some e =>
    refine .bind (.fill _ _ _) fun _ => .bind (onSlab_shadows _ e _) fun answer => ?_
    refine .bind (.modifyPart fun _ => rfl) fun _ => .bind (.lift _) fun live =>
      .bind (.modifyPart fun _ => rfl) fun _ => ?_
    cases answer.2 with
    | empty => exact evictAbove_shadows _
    | available | full => exact .pure ()

theorem tryFree_shadows (ptr : Nat) :
    Shadows (unwatched (α := α)) (tryFree ptr) (tryFree ptr) := by
  unfold tryFree
  refine .part fun c => .memory fun m => ?_
  rw [unwatched_refusal?]
  cases c.refusal? m ptr with
  | none => exact free_shadows ptr
  | some reason => exact .fault _

theorem shrink_shadows : Shadows (unwatched (α := α)) shrink shrink :=
  evictAbove_shadows 0

theorem releaseAll_shadows (layout : Layout) (blocks : List Nat) :
    Shadows (unwatched (α := α)) (releaseAll layout blocks) (releaseAll layout blocks) := by
  induction blocks with
  | nil => exact .pure ()
  | cons block blocks ih =>
    unfold releaseAll
    exact .bind (below_shadows Watched.noting_shadows) fun _ => ih

theorem close_shadows : Shadows (unwatched (α := α)) close close := by
  unfold close
  exact .part fun c => .ite (releaseAll_shadows _ _) (.pure ())

omit [Allocator α] in
theorem new_shadows {config : CacheConfig} {w : Watched α} :
    Cache.new config w.inner = (Cache.new config w).map unwatched := by
  unfold Cache.new
  rcases config.validate with e | -
  · rfl
  cases Layout.of? config.pageSize Word.bytes with
  | none => rfl
  | some layout =>
    rcases config.slotStride with e | stride
    · rfl
    rcases config.objectsPerSlab with e | perSlab
    · rfl
    · rfl

namespace Session

/-- A session over a watched allocator, without the watch. -/
def unwatched (w : Session (Watched α)) : Session α :=
  ⟨w.cache.unwatched, w.memory, w.live⟩

/-- **A watched session** is served as it would be without the watch. -/
theorem serve_unwatched (w : Session (Watched α)) (r : Request) :
    w.unwatched.serve r = (w.serve r).map unwatched := by
  cases r with
  | alloc => exact alloc_shadows.conclude (fun _ _ _ => rfl) fun _ _ _ => rfl
  | free ptr => exact (free_shadows ptr).conclude (fun _ _ _ => rfl) fun _ _ _ => rfl
  | tryFree ptr => exact (tryFree_shadows ptr).conclude (fun _ _ _ => rfl) fun _ _ _ => rfl
  | shrink => exact shrink_shadows.conclude (fun _ _ _ => rfl) fun _ _ _ => rfl

omit [Allocator α] in
theorem legal_unwatched {w : Session (Watched α)} {r : Request} :
    r.Legal w.unwatched ↔ r.Legal w := by
  cases r <;> rfl

end Session

section Contract

variable {K : AllocatorContract α} {n : Nat} {σ : Session α} {w w' : Session (Watched α)}

theorem Leads.unwatched (leads : Leads n w w') : Leads n w.unwatched w'.unwatched := by
  induction leads with
  | refl => exact .refl _
  | serve _ legal served ih =>
    refine ih.serve (Session.legal_unwatched.mpr legal) ?_
    rw [Session.serve_unwatched, served]
    rfl
  | write _ usable ih => exact ih.write usable

/-- Every run can be watched. -/
theorem Leads.exists_watched (leads : Leads n w.unwatched σ) :
    ∃ w', Leads n w w' ∧ w'.unwatched = σ := by
  generalize start : w.unwatched = τ at leads
  induction leads with
  | refl => exact ⟨w, .refl w, start⟩
  | @serve _ _ _ _ r _ legal served ih =>
    obtain ⟨w₁, leads, rfl⟩ := ih start
    rw [Session.serve_unwatched] at served
    cases run : w₁.serve r with
    | error => rw [run] at served; cases served
    | ok w₂ =>
      rw [run] at served
      cases served
      exact ⟨w₂, leads.serve (Session.legal_unwatched.mp legal) run, rfl⟩
  | write _ usable ih =>
    obtain ⟨w₁, leads, rfl⟩ := ih start
    exact ⟨_, leads.write usable, rfl⟩

variable (K) in
/-- The sessions that come about over an allocator that is watched from the start. -/
def Observed (n : Nat) (w : Session (Watched α)) : Prop :=
  ∃ (config : CacheConfig) (allocator : α) (cache : Cache (Watched α)) (memory : Memory),
    Cache.new config ⟨allocator, []⟩ = .ok cache ∧ K.Ready allocator memory 0 ∧
      Leads n ⟨cache, memory, []⟩ w

/-- Without the watch it is a run as any other. -/
theorem Observed.reachable (observed : Observed K n w) : Reachable K n w.unwatched := by
  obtain ⟨config, allocator, cache, memory, made, ready, leads⟩ := observed
  have same : Cache.new config allocator = .ok cache.unwatched :=
    (new_shadows (w := ⟨allocator, []⟩)).trans (congrArg (Except.map Cache.unwatched) made)
  have start : Reachable K 0 ⟨cache.unwatched, memory, []⟩ := .start same ready
  rw [← Nat.zero_add n]
  exact start.trans leads.unwatched

/-- **Every run** is one that can be watched from the start. -/
theorem Reachable.exists_observed (reachable : Reachable K n σ) :
    ∃ w, Observed K n w ∧ w.unwatched = σ := by
  obtain ⟨config, allocator, cache, memory, made, ready, leads⟩ := reachable.exists_start
  have same := (new_shadows (w := ⟨allocator, []⟩)).symm.trans made
  cases watched : Cache.new config (⟨allocator, []⟩ : Watched α) with
  | error => rw [watched] at same; cases same
  | ok c =>
    rw [watched] at same
    cases same
    obtain ⟨w, leads, same⟩ := Leads.exists_watched (w := ⟨c, memory, []⟩) leads
    exact ⟨w, ⟨config, allocator, c, memory, watched, ready, leads⟩, same⟩

end Contract

end LayeredMemory.Cache
