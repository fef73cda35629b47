import LayeredMemory.Proofs.Heap.Order

/-!
# Lending — what the clients of a heap know of it

A heap `Lends` a multiset of extents when it is in order and these are the payloads of its allocated
blocks. So a client knows that the payloads are apart from each other (`Lends.pairwise`), on
multiples of the granule, and inside one segment each (`Lends.bounds`), and that the heap stands by
them: `checkLive`, `usableSize` and `owns` answer as they should.

`Became` relates a heap to what it is after work that left its segments as they are: what it lends
now, whose bytes stayed, and that no byte outside its segments changed.
-/

namespace LayeredMemory.Heap

variable {γ : Type} {h h' h'' : Heap γ} {m m' m'' : Memory} {parts front back : List Part}
  {t : Part} {s : Segment} {b : BlockInfo} {K K' L L' : Multiset Extent} {e f : Extent}

/-- The heap is in order, and the payloads of its allocated blocks are `L`. -/
def Lends (h : Heap γ) (m : Memory) (L : Multiset Extent) : Prop :=
  ∃ parts, InOrder h m parts ∧ lent (blocksIn parts) = L

/-- The extents of the heap's segments. -/
def extents (h : Heap γ) : List Extent :=
  h.segments.map (·.extent)

theorem exists_cut (ht : t ∈ parts) (hb : b ∈ t.2) :
    ∃ front s xs ys back, parts = front ++ (s, xs ++ ([b] ++ ys)) :: back ∧ s = t.1 := by
  obtain ⟨front, back, rfl⟩ := List.append_of_mem ht
  obtain ⟨xs, ys, split⟩ := List.append_of_mem hb
  refine ⟨front, t.1, xs, ys, back, ?_, rfl⟩
  rw [List.singleton_append, ← split]

/-- Behind every payload that is lent there is an allocated block. -/
theorem exists_block (he : e ∈ lent (blocksIn parts)) :
    ∃ t ∈ parts, ∃ b ∈ t.2, b.allocated = true ∧ b.room = e := by
  obtain ⟨b, hb, live, rfl⟩ := mem_lent.mp he
  obtain ⟨t, ht, hb⟩ := List.mem_flatMap.mp hb
  exact ⟨t, ht, b, hb, live, rfl⟩

namespace InOrder

theorem blocks_pairwise (o : InOrder h m parts) :
    (blocksIn parts).Pairwise fun b d => b.addr + b.size ≤ d.addr ∨ d.addr + d.size ≤ b.addr := by
  unfold blocksIn
  rw [List.pairwise_flatMap]
  constructor
  · intro t ht
    obtain ⟨q, row, -⟩ := o.tiled t ht
    exact row.pairwise.imp .inl
  · refine o.pairwise.imp_of_mem fun {t u} ht hu apart b hb d hd => ?_
    by_contra overlap
    have := o.mem_bounds ht hb
    have := o.mem_bounds hu hd
    -- Blocks that overlap would share the larger of their addresses.
    exact apart.not_mem (o.mem_extent ht hb (x := max b.addr d.addr) (by omega) (by omega))
      (o.mem_extent hu hd (by omega) (by omega))

theorem lent_pairwise (o : InOrder h m parts) :
    (((blocksIn parts).filter (·.allocated)).map BlockInfo.room).Pairwise Extent.Apart := by
  rw [List.pairwise_map]
  refine (o.blocks_pairwise.sublist List.filter_sublist).imp_of_mem fun {b d} hb hd apart => ?_
  have bounds {b : BlockInfo} (hb : b ∈ (blocksIn parts).filter (·.allocated)) : 16 ≤ b.size := by
    obtain ⟨t, ht, hb⟩ := List.mem_flatMap.mp (List.mem_of_mem_filter hb)
    exact (o.mem_bounds ht hb).2.2.1
  have := bounds hb
  have := bounds hd
  dsimp only [Extent.Apart, BlockInfo.room]
  omega

end InOrder

namespace Lends

/-- A new heap lends nothing. -/
theorem new {config : HeapConfig} {growth : γ} : Lends { config, growth } m 0 :=
  ⟨[], ⟨rfl, nofun, .nil, nofun, nofun, fun _ => rfl⟩, rfl⟩

/-- **No two payloads overlap.** -/
theorem pairwise {l : List Extent} (lends : h.Lends m L) (le : (l : Multiset Extent) ≤ L) :
    l.Pairwise Extent.Apart := by
  obtain ⟨parts, o, rfl⟩ := lends
  obtain ⟨k, same, sub⟩ := Multiset.coe_le.mp le
  exact (same.pairwise_iff Extent.Apart.symm).mp (o.lent_pairwise.sublist sub)

theorem apart (lends : h.Lends m (e ::ₘ L)) (hf : f ∈ L) : e.Apart f := by
  induction L using Quot.inductionOn with
  | h l => exact (List.pairwise_cons.mp (pairwise (l := e :: l) lends le_rfl)).1 f hf

/-- Where payloads lie. -/
theorem bounds (lends : h.Lends m L) (he : e ∈ L) :
    16 ∣ e.start ∧ 8 ≤ e.len ∧ 16 ∣ e.len + 8 ∧
      ∃ s ∈ h.segments, s.Legal ∧ s.first + 8 ≤ e.start ∧ e.start + e.len ≤ s.stop := by
  obtain ⟨parts, o, rfl⟩ := lends
  obtain ⟨t, ht, b, hb, -, rfl⟩ := exists_block he
  have := o.mem_bounds ht hb
  have := o.mem_aligned ht hb
  dsimp only [BlockInfo.room]
  exact ⟨by omega, by omega, by omega, t.1, o.segments ▸ List.mem_map_of_mem ht, o.legal_of_mem ht,
    by omega, by omega⟩

theorem valid (lends : h.Lends m L) (he : e ∈ L) : e.Valid := by
  obtain ⟨-, -, -, s, -, legal, lo, hi⟩ := lends.bounds he
  have := legal.stop_lt
  exact ⟨by omega, by omega⟩

/-- Payloads lie inside the segments' extents. -/
theorem mem_extents (lends : h.Lends m L) (he : e ∈ L) {x : Nat} (hx : x ∈ e) :
    ∃ f ∈ h.extents, x ∈ f := by
  obtain ⟨-, -, -, s, hs, legal, lo, hi⟩ := lends.bounds he
  have := legal.start_le
  have := legal.stop_le
  have := Extent.mem_iff.mp hx
  exact ⟨s.extent, List.mem_map_of_mem hs, Extent.mem_iff.mpr ⟨by omega, by omega⟩⟩

/-- What stays in all segments stays in what is lent of them. -/
theorem keeps (lends : h.Lends m L) (kept : m.Keeps m' (h.extents : Multiset Extent)) :
    m.Keeps m' L := by
  intro e he x hx
  obtain ⟨f, hf, hx⟩ := lends.mem_extents he hx
  exact kept f hf x hx

theorem checkLive_eq (lends : h.Lends m L) (he : e ∈ L) : h.checkLive m e.start = .ok () := by
  obtain ⟨parts, o, rfl⟩ := lends
  obtain ⟨t, ht, b, hb, live, rfl⟩ := exists_block he
  exact o.checkLive_eq ht hb live

/-- A live pointer passes, whether the heap verifies it or not. -/
theorem verified (lends : h.Lends m L) (he : e ∈ L) :
    (if h.config.verifyFrees = true then h.checkLive m e.start else .ok ()) = .ok () := by
  rw [lends.checkLive_eq he, ite_self]

theorem usableSize_eq (lends : h.Lends m L) (he : e ∈ L) : usableSize m e.start = .ok e.len := by
  obtain ⟨parts, o, rfl⟩ := lends
  obtain ⟨t, ht, b, hb, -, rfl⟩ := exists_block he
  exact o.usableSize_eq ht hb

theorem owns_eq (lends : h.Lends m L) (he : e ∈ L) : h.owns e.start = true := by
  obtain ⟨-, large, -, s, hs, -, lo, hi⟩ := lends.bounds he
  refine List.any_eq_true.mpr ⟨s, hs, decide_eq_true_iff.mpr ⟨by omega, by omega⟩⟩

theorem validate_eq (lends : h.Lends m L) :
    ∃ r, h.validate m = .ok r ∧ r.segments = h.segments.length ∧
      r.totalBytes = Segment.total h.segments ∧ r.allocatedBytes + r.freeBytes = r.totalBytes ∧
      r.allocatedBlocks + r.freeBlocks ≤ r.totalBytes ∧ r.allocatedBlocks = L.card := by
  obtain ⟨parts, o, rfl⟩ := lends
  exact o.validate_eq

/-- There are fewer segments than bytes, and fewer bytes than words. -/
theorem total_lt (lends : h.Lends m L) :
    h.segments.length ≤ Segment.total h.segments ∧ Segment.total h.segments < Word.bound := by
  obtain ⟨parts, o, -⟩ := lends
  exact ⟨(Segment.total_bounds o.legal).1, o.total_lt⟩

/-- What a walk meets: the blocks tile the segments, those that are allocated are what the heap
lends, and no two neighbours are free. -/
theorem tiled (lends : h.Lends m L) :
    ∃ parts, InOrder h m parts ∧ h.blocks m = .ok (blocksIn parts) ∧ lent (blocksIn parts) = L ∧
      ∀ t ∈ parts, t.2.IsChain fun b d => b.allocated = true ∨ d.allocated = true := by
  obtain ⟨parts, o, same⟩ := lends
  refine ⟨parts, o, o.blocks_eq, same, fun t ht => ?_⟩
  obtain ⟨q, row, -⟩ := o.tiled t ht
  exact row.isChain

/-- **A heap does not see** what happens in the payloads it lent, nor outside its segments. -/
theorem frame (lends : h.Lends m L)
    (same : ∀ f ∈ h.extents, ∀ x ∈ f, (∀ e ∈ L, x ∉ e) → m'.read x = m.read x) : h.Lends m' L := by
  obtain ⟨parts, o, rfl⟩ := lends
  exact ⟨parts, o.frame fun s hs => same s.extent (List.mem_map_of_mem hs), rfl⟩

end Lends

/-- Before and after work on a heap that left its segments as they are: the heap now lends `L`, the
bytes of the extents in `K` stayed, and so did all bytes outside the segments. -/
structure Became (h : Heap γ) (m : Memory) (K : Multiset Extent) (h' : Heap γ) (m' : Memory)
    (L : Multiset Extent) : Prop where
  lends : h'.Lends m' L
  keeps : m.Keeps m' K
  changed : m.ChangedIn m' h.extents
  same : h' = { h with cursor := h'.cursor }

namespace Became

theorem extents_eq (w : Became h m K h' m' L) : h'.extents = h.extents := by
  rw [w.same]
  rfl

theorem growth_eq (w : Became h m K h' m' L) : h'.growth = h.growth := by
  rw [w.same]

theorem refl (lends : h.Lends m L) : Became h m K h m L :=
  ⟨lends, .refl m K, .refl m _, rfl⟩

theorem mono (w : Became h m K h' m' L) (sub : K' ⊆ K) : Became h m K' h' m' L :=
  { w with keeps := w.keeps.mono sub }

theorem trans (w : Became h m K h' m' L') (w' : Became h' m' K h'' m'' L) :
    Became h m K h'' m'' L := by
  refine ⟨w'.lends, w.keeps.trans w'.keeps, w.changed.trans (w.extents_eq ▸ w'.changed), ?_⟩
  rw [w'.same, w.same]

/-- One more extent whose bytes stayed. -/
theorem and_keeps (w : Became h m K h' m' L) (kept : ∀ x ∈ e, m'.read x = m.read x) :
    Became h m (e ::ₘ K) h' m' L := by
  refine { w with keeps := fun f hf => ?_ }
  rcases Multiset.mem_cons.mp hf with rfl | hf
  · exact kept
  · exact w.keeps f hf

end Became

/-- The same with the blocks themselves: the heap is now in order with `parts`. -/
structure Turned (h : Heap γ) (m : Memory) (K : Multiset Extent) (h' : Heap γ) (m' : Memory)
    (parts : List Part) : Prop where
  order : InOrder h' m' parts
  keeps : m.Keeps m' K
  changed : m.ChangedIn m' h.extents
  same : h' = { h with cursor := h'.cursor }

theorem Turned.became (w : Turned h m K h' m' parts) (lends : lent (blocksIn parts) = L) :
    Became h m K h' m' L :=
  ⟨⟨parts, w.order, lends⟩, w.keeps, w.changed, w.same⟩

/-- Work of which only the blocks at the end are of interest, after other work. -/
theorem Turned.after (w' : Turned h' m' K h'' m'' parts) (w : Became h m K h' m' L) :
    Turned h m K h'' m'' parts := by
  refine ⟨w'.order, w.keeps.trans w'.keeps, w.changed.trans (w.extents_eq ▸ w'.changed), ?_⟩
  rw [w'.same, w.same]

/-- **Writing into a payload** leaves all blocks and all other payloads as they are. -/
theorem InOrder.write {lo hi : Nat} (o : InOrder h m parts)
    (lends : lent (blocksIn parts) = e ::ₘ L) (changed : m.ChangedWithin m' lo hi)
    (le : e.start ≤ lo) (le' : hi ≤ e.start + e.len) : Turned h m L h m' parts := by
  have inside : ∀ x, x ∉ e → m'.read x = m.read x := by
    intro x hx
    rw [Extent.mem_iff] at hx
    exact changed x (by omega)
  have mem : e ∈ lent (blocksIn parts) := lends ▸ Multiset.mem_cons_self e L
  have all : h.Lends m (e ::ₘ L) := ⟨parts, o, lends⟩
  refine ⟨o.frame fun s _ x _ off => inside x (off e mem), fun f hf x hx => inside x ?_,
    fun x off => inside x fun hx => ?_, rfl⟩
  · exact (all.apart hf).symm.not_mem hx
  · obtain ⟨f, hf, hx⟩ := all.mem_extents (lends ▸ mem) hx
    exact off f hf hx

/-- **Writing into a payload** is no matter of the heap or of the other payloads. -/
theorem Lends.write {lo hi : Nat} (lends : h.Lends m (e ::ₘ L)) (changed : m.ChangedWithin m' lo hi)
    (le : e.start ≤ lo) (le' : hi ≤ e.start + e.len) : Became h m L h m' (e ::ₘ L) := by
  obtain ⟨parts, o, same⟩ := lends
  exact (o.write same changed le le').became same

/-! ### Changing one row -/

/-- **One row for another**: the heap has the new row in place of the old one, and lends what the
new one lends. -/
theorem InOrder.recut {xs old ys new : List BlockInfo} {c d k : Nat} {q r r' : Bool}
    (o : InOrder h m (front ++ (s, xs ++ (old ++ ys)) :: back))
    (lends : lent (blocksIn (front ++ (s, xs ++ (old ++ ys)) :: back)) = lent old + L)
    (before : Row m true s.first xs q c) (after : Tiled m s.stop r d ys)
    (changed : m.ChangedWithin m' c (d + 8)) (middle : Row m' q c new r' d)
    (header : m'.readWord d = Tag.withPrev (m.readWord d) r')
    (apart : r' = false → ∀ b ∈ ys.head?, b.allocated = true)
    (cursor : ∃ t ∈ front ++ (s, xs ++ (new ++ ys)) :: back, AtBoundary t k) :
    Turned h m L { h with cursor := some k } m' (front ++ (s, xs ++ (new ++ ys)) :: back) ∧
      lent (blocksIn (front ++ (s, xs ++ (new ++ ys)) :: back)) = lent new + L := by
  rw [lent_blocksIn_cut] at lends
  obtain rfl := add_left_cancel lends
  exact ⟨⟨o.replace before after changed middle header apart cursor,
    o.keeps_others before after changed, o.changedIn before after changed, rfl⟩, lent_blocksIn_cut⟩

theorem boundary_new {xs new ys : List BlockInfo} {c : Nat} (here : ∃ b ∈ new, b.addr = c) :
    ∃ t ∈ front ++ (s, xs ++ (new ++ ys)) :: back, AtBoundary t c := by
  obtain ⟨b, hb, e⟩ := here
  exact ⟨_, List.mem_append_right _ List.mem_cons_self,
    .inr ⟨b, List.mem_append_right _ (List.mem_append_left _ hb), e⟩⟩

theorem boundary_after {xs new ys : List BlockInfo} {c : Nat} {r : Bool}
    (after : Tiled m s.stop r c ys) :
    ∃ t ∈ front ++ (s, xs ++ (new ++ ys)) :: back, AtBoundary t c := by
  refine ⟨_, List.mem_append_right _ List.mem_cons_self, after.start_mem.imp_right ?_⟩
  rintro ⟨b, hb, e⟩
  exact ⟨b, List.mem_append_right _ (List.mem_append_right _ hb), e⟩

/-- A boundary stays one if it is not among the blocks that go, or is one of the new row. -/
theorem boundary_kept {xs old ys new : List BlockInfo} {c : Nat}
    (cursor : ∃ t ∈ front ++ (s, xs ++ (old ++ ys)) :: back, AtBoundary t c)
    (new_row : ∀ b ∈ old, b.addr = c → ∃ d ∈ new, d.addr = c) :
    ∃ t ∈ front ++ (s, xs ++ (new ++ ys)) :: back, AtBoundary t c := by
  obtain ⟨t, ht, boundary⟩ := cursor
  have here (at_new : AtBoundary (s, xs ++ (new ++ ys)) c) :
      ∃ t ∈ front ++ (s, xs ++ (new ++ ys)) :: back, AtBoundary t c :=
    ⟨_, List.mem_append_right _ List.mem_cons_self, at_new⟩
  rcases List.mem_append.mp ht with ht | ht
  · exact ⟨t, List.mem_append_left _ ht, boundary⟩
  cases ht with
  | tail _ ht => exact ⟨t, List.mem_append_right _ (List.mem_cons_of_mem _ ht), boundary⟩
  | head =>
    rcases boundary with at_stop | ⟨b, hb, rfl⟩
    · exact here (.inl at_stop)
    · rcases List.mem_append.mp hb with hb | hb
      · exact here (.inr ⟨b, List.mem_append_left _ hb, rfl⟩)
      · rcases List.mem_append.mp hb with hb | hb
        · obtain ⟨d, hd, e⟩ := new_row b hb rfl
          exact here (.inr ⟨d, List.mem_append_right _ (List.mem_append_left _ hd), e⟩)
        · exact here (.inr ⟨b, List.mem_append_right _ (List.mem_append_right _ hb), rfl⟩)

end LayeredMemory.Heap
