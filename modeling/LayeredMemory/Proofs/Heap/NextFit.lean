import LayeredMemory.Proofs.Heap.Session

/-!
# Next fit — which block a request gets

The search ends, with the first block of the `circle` that is free and large enough
(`InOrder.search_eq`). What that comes to for requests:

* `InOrder.malloc_found`: a request is served from the low end of that block; what is left of the
  block stays one free block, and the cursor goes behind what was handed out (`Carves`).
* `InOrder.circle_head`: a cursor at a block means that the search starts with it. After a block is
  freed this is the free block that it became a part of.
* `reachable_next_fit`: so after every run requests are served without growth exactly if the largest
  free block is large enough.
-/

namespace LayeredMemory.Heap

variable {γ : Type} {h : Heap γ} {m : Memory} {parts : List Part} {b d : BlockInfo} {n need : Nat}

/-- Before and after a request that was served from the free block `b`: its low `need` bytes are
allocated, what is left of it is one free block, the cursor is behind what was allocated, and
nothing else about the heap or its blocks is new. -/
structure Carves (h : Heap γ) (m : Memory) (b : BlockInfo) (need : Nat) (s' : Store (Heap γ)) :
    Prop where
  part : s'.part = { h with cursor := some (b.addr + need) }
  blocks : ∃ xs ys, h.blocks m = .ok (xs ++ b :: ys) ∧
    s'.part.blocks s'.memory = .ok (xs ++ (b.carve need ++ ys))

/-- The payload `e` is a part of the free block `d`. -/
structure Absorbed (s : Store (Heap γ)) (e : Extent) (d : BlockInfo) : Prop where
  blocks : ∃ bs, s.part.blocks s.memory = .ok bs ∧ d ∈ bs
  free : d.allocated = false
  le : payload d.addr ≤ e.start
  stop : e.start + e.len ≤ d.addr + d.size

/-- **A cursor at a block** is where the search starts. -/
theorem InOrder.circle_head (o : InOrder h m parts) (hd : d ∈ blocksIn parts)
    (cursor : h.cursor = some d.addr) : ∃ rest, circle h.cursor parts = d :: rest := by
  obtain ⟨before, home, behind, rfl, off, at_home, boundary⟩ := o.exists_home cursor
  obtain ⟨t, ht, inside⟩ := List.mem_flatMap.mp hd
  have mem : home ∈ before ++ home :: behind := List.mem_append_right _ List.mem_cons_self
  obtain rfl : t = home := o.eq_of_mem_extent ht mem
    (o.mem_extent ht inside (Nat.le_refl _) (Nat.le_add_right ..))
    (o.boundary_mem_extent mem boundary)
  obtain ⟨q, -, ⟨r, row, -⟩, -⟩ := (o.tiled t ht).cut_at boundary
  rw [cursor, circle_eq off at_home]
  -- The blocks from `d`'s address on start with `d` itself.
  cases from_here : t.2.filter (d.addr ≤ ·.addr) with
  | nil =>
    have : d ∈ t.2.filter (d.addr ≤ ·.addr) :=
      List.mem_filter.mpr ⟨inside, decide_eq_true (Nat.le_refl _)⟩
    rw [from_here] at this
    cases this
  | cons f rest =>
    rw [from_here] at row
    have hf : f ∈ t.2 := List.mem_of_mem_filter (from_here ▸ List.mem_cons_self)
    rw [o.eq_of_addr ht inside hf row.uncons.1]
    exact ⟨_, rfl⟩

variable [GrowthSource γ]

/-- **A request is served** from the low end of the block that the search finds. -/
theorem InOrder.malloc_found (o : InOrder h m parts) (pos : 0 < n)
    (fit : blockSizeFor n = some need)
    (found : (circle h.cursor parts).find? (·.fits need) = some b) :
    ∃ s', malloc n ⟨h, m⟩ = .ok (payload b.addr) s' ∧ Carves h m b need s' := by
  obtain ⟨aligned, -, large, -⟩ := blockSizeFor_spec fit
  have mem := (circle_perm h.cursor parts).mem_iff.mp (List.mem_of_find?_eq_some found)
  obtain ⟨t, ht, hb⟩ := List.mem_flatMap.mp mem
  have fits : b.fits need = true := List.find?_some found
  obtain ⟨free, room⟩ := of_decide_eq_true fits
  obtain ⟨front, s, xs, ys, back, rfl, -⟩ := exists_cut ht hb
  obtain ⟨h', m', run, w, -, cursor⟩ := place_spec o rfl free room aligned large
  refine ⟨⟨h', m'⟩, ?_, ?_, blocksIn front ++ xs, ys ++ blocksIn back, ?_, ?_⟩
  · unfold malloc
    rw [if_neg (Nat.pos_iff_ne_zero.mp pos), fit]
    dsimp only
    rw [Action.bind_of_ok (o.seek_eq need), o.findFit_eq, found]
    exact run
  · exact w.same.trans (by rw [cursor])
  · rw [o.blocks_eq, blocksIn_append, blocksIn_cons]
    simp only [List.append_assoc, List.cons_append, List.nil_append]
  · rw [w.order.blocks_eq, blocksIn_append, blocksIn_cons]
    simp only [List.append_assoc]

/-- **What was freed last is the first to be handed out again**: the free block that it became a
part of serves the next request for which it is large enough. -/
theorem Lends.malloc_freed {e : Extent} {L : Multiset Extent} (lends : h.Lends m (e ::ₘ L)) :
    ∃ s' d, free e.start ⟨h, m⟩ = .ok () s' ∧ tryFree e.start ⟨h, m⟩ = .ok () s' ∧
      Absorbed s' e d ∧ ∀ n need, 0 < n → blockSizeFor n = some need → need ≤ d.size →
        ∃ s'', malloc n s' = .ok (payload d.addr) s'' ∧ Carves s'.part s'.memory d need s'' := by
  have mem := Multiset.mem_cons_self e L
  have start := lends.payload_eq mem
  obtain ⟨h', m', parts, d, run, w, -, hd, joined, cursor⟩ := release_spec lends
  have := joined.le
  have := joined.stop
  refine ⟨⟨h', m'⟩, d, (lends.free_eq mem).trans run, (lends.tryFree_eq mem).trans run,
    ⟨⟨_, w.order.blocks_eq, hd⟩, joined.free, ?_, by omega⟩, ?_⟩
  · rw [payload, Word.bytes_eq]
    omega
  · intro n need pos fit room
    obtain ⟨rest, first⟩ := w.order.circle_head hd cursor
    refine w.order.malloc_found pos fit ?_
    rw [first, List.find?_cons_of_pos]
    exact decide_eq_true ⟨joined.free, room⟩

/-- **Requests are served by next fit.** After every run the search ends, and none of its scans
needs room for more headers than its segment has. It finds the first block that is free and large
enough, in the order in which it meets all blocks, each once, starting at the cursor; it finds none
only if there is none. A request is served without growth exactly if the largest free block is large
enough, and then from the low end of what the search finds; otherwise the heap grows once, or the
request is refused. What was freed last is looked at first. -/
theorem reachable_next_fit {C : GrowthContract γ} {σ : Session γ} (reachable : Reachable C σ) :
    ∃ parts report, σ.heap.InOrder σ.memory parts ∧
      σ.heap.blocks σ.memory = .ok (blocksIn parts) ∧ σ.heap.validate σ.memory = .ok report ∧
      (circle σ.heap.cursor parts).Perm (blocksIn parts) ∧
      (∀ t ∈ parts, t.2.length < maxBlocks) ∧
      (∀ need room, (∀ t ∈ parts, t.2.length < room) →
        σ.heap.searchWithin room σ.memory need =
          .ended (((circle σ.heap.cursor parts).find? (·.fits need)).map (·.addr))) ∧
      (∀ need, σ.heap.search σ.memory need = .ended (σ.heap.findFit σ.memory need)) ∧
      (∀ need, σ.heap.findFit σ.memory need =
          ((circle σ.heap.cursor parts).find? (·.fits need)).map (·.addr)) ∧
      (∀ need, σ.heap.findFit σ.memory need = none ↔
          ∀ b ∈ blocksIn parts, b.allocated = false → b.size < need) ∧
      (∀ n need, 0 < n → blockSizeFor n = some need →
        ((∃ p s', malloc n ⟨σ.heap, σ.memory⟩ = .ok p s' ∧ s'.part.growths = σ.heap.growths) ↔
            need ≤ report.largestFree) ∧
          (∀ b, (circle σ.heap.cursor parts).find? (·.fits need) = some b →
            ∃ s', malloc n ⟨σ.heap, σ.memory⟩ = .ok (payload b.addr) s' ∧
              Carves σ.heap σ.memory b need s') ∧
          (report.largestFree < need → Action.Meets (malloc n) ⟨σ.heap, σ.memory⟩
            (fun _ s' => s'.part.growths = σ.heap.growths + 1)
            fun f _ => f = .outOfMemory n granule)) ∧
      ∀ b ∈ σ.live, ∃ s' d, free b.ptr ⟨σ.heap, σ.memory⟩ = .ok () s' ∧
        tryFree b.ptr ⟨σ.heap, σ.memory⟩ = .ok () s' ∧ Absorbed s' b.room d ∧
        ∀ n need, 0 < n → blockSizeFor n = some need → need ≤ d.size →
          ∃ s'', malloc n s' = .ok (payload d.addr) s'' ∧
            Carves s'.part s'.memory d need s'' := by
  have serves := reachable.sound.alone
  obtain ⟨parts, o, lent⟩ := serves.lends
  have validated : σ.heap.validate σ.memory = .ok (σ.heap.report (blocksIn parts)) := by
    rw [validate_of_blocks o.blocks_eq, if_pos o.cursorFound]
  refine ⟨parts, _, o, o.blocks_eq, validated, circle_perm .., fun t => o.length_lt_maxBlocks,
    fun need room => o.searchWithin_eq need, fun need => (o.findFit_eq need) ▸ o.search_eq need,
    o.findFit_eq, fun need => o.findFit_eq_none_iff, fun n need pos fit => ?requests,
    fun b hb => ?freed⟩
  case freed =>
    obtain ⟨L, split⟩ := Multiset.exists_cons_of_mem (Session.mem_rooms hb)
    exact (split ▸ serves.lends).malloc_freed
  case requests =>
    have large : 0 < need := Nat.lt_of_lt_of_le (by decide) (blockSizeFor_spec fit).2.2.1
    rw [← Nat.not_le, le_largestFree_iff large]
    -- Whether anything fits decides whether the search finds something, and so how a request ends.
    have none_iff : σ.heap.findFit σ.memory need = none ↔
        ¬∃ b ∈ blocksIn parts, b.allocated = false ∧ need ≤ b.size := by
      rw [o.findFit_eq_none_iff]
      simp only [not_exists, not_and, Nat.not_le]
    have outcome := malloc_outcome serves n
    refine ⟨⟨?_, fun fits => ?_⟩, fun b found => o.malloc_found pos fit found, fun none => ?_⟩
    · rintro ⟨p, s', run, ungrown⟩
      obtain ⟨size, fit', ⟨⟨x, found⟩, -⟩ | ⟨-, -, grown⟩⟩ := outcome.answer run
      · obtain rfl := Option.some.inj (fit.symm.trans fit')
        by_contra none
        rw [none_iff.mpr none] at found
        cases found
      · exact absurd (grown.symm.trans ungrown) (Nat.succ_ne_self _)
    · cases found : (circle σ.heap.cursor parts).find? (·.fits need) with
      | none =>
        refine absurd fits (none_iff.mp ?_)
        rw [o.findFit_eq, found]
        rfl
      | some b =>
        obtain ⟨s', run, carves⟩ := o.malloc_found pos fit found
        exact ⟨_, s', run, by rw [carves.part]⟩
    · refine outcome.mono ?_ ?_
      · rintro p s' ⟨size, fit', ⟨⟨x, found⟩, -⟩ | ⟨-, -, grown⟩⟩
        · obtain rfl := Option.some.inj (fit.symm.trans fit')
          rw [none_iff.mpr none] at found
          cases found
        · exact grown
      · intro f s' refused
        exact refused.fault.trans (if_neg (Nat.pos_iff_ne_zero.mp pos))

theorem reachable_next_fit_two : ∃ σ : Session NoGrowth, σ.live = [⟨4144, 8⟩, ⟨4112, 24⟩] ∧
    ∃ s' p s'', free 4112 ⟨σ.heap, σ.memory⟩ = .ok () s' ∧ malloc 24 s' = .ok p s'' ∧
      p ≤ 4112 := by
  obtain ⟨σ, reachable, live, -⟩ := exists_reachable_two
  obtain ⟨_, _, -, -, -, -, -, -, -, -, -, -, freed⟩ := reachable_next_fit reachable
  obtain ⟨s', d, run, -, joined, next⟩ := freed ⟨4112, 24⟩ (by rw [live]; decide)
  have stop : 4112 + 24 ≤ d.addr + d.size := joined.stop
  have le : d.addr + 8 ≤ 4112 := joined.le
  obtain ⟨s'', again, -⟩ := next 24 32 (by decide) (by decide) (by omega)
  exact ⟨σ, live, s', _, s'', run, again, le⟩

end LayeredMemory.Heap
