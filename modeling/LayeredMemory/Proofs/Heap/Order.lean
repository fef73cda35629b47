import LayeredMemory.Proofs.Heap.Report
import LayeredMemory.Proofs.Heap.Segment
import LayeredMemory.Proofs.Heap.Tiling
import Mathlib.Tactic.Abel

/-!
# Heaps in order — the invariant

A *part* is a segment together with the blocks that tile it. A heap is `InOrder` with a list of
parts when these are its segments, all legal and apart from each other, tiled in memory as the parts
say, and its cursor is at a boundary between blocks.

* `InOrder.validate_eq`: validation succeeds and reports the sums over the blocks.
* `InOrder.checkLive_eq`: the payload of an allocated block passes the check of a pointer.
* `InOrder.frame`: nothing depends on the payloads of allocated blocks, nor on bytes outside.
* `InOrder.replace`: one row of blocks for another, in one segment.

What the rest of the library knows of a heap is which payloads are `lent`.
-/

namespace LayeredMemory

/-- The payload of a block. -/
def BlockInfo.room (b : BlockInfo) : Extent :=
  ⟨b.addr + 8, b.size - 8⟩

/-- The payloads of the allocated blocks. -/
def lent (bs : List BlockInfo) : Multiset Extent :=
  ((bs.filter (·.allocated)).map BlockInfo.room : List Extent)

section Lent

variable {xs ys : List BlockInfo} {b : BlockInfo} {e : Extent}

@[simp] theorem lent_nil : lent [] = 0 := rfl

@[simp] theorem lent_append : lent (xs ++ ys) = lent xs + lent ys := by
  unfold lent
  rw [List.filter_append, List.map_append, Multiset.coe_add]

theorem lent_cons_of_allocated (h : b.allocated = true) : lent (b :: xs) = b.room ::ₘ lent xs := by
  unfold lent
  rw [List.filter_cons_of_pos h]
  rfl

theorem lent_cons_of_free (h : b.allocated = false) : lent (b :: xs) = lent xs := by
  unfold lent
  rw [List.filter_cons_of_neg (by rw [h]; exact Bool.false_ne_true)]

theorem mem_lent : e ∈ lent xs ↔ ∃ b ∈ xs, b.allocated = true ∧ b.room = e := by
  simp [lent, and_assoc]

theorem card_lent : (lent xs).card = (xs.filter (·.allocated)).length := by
  simp [lent]

end Lent

/-- A segment and the blocks that tile it. -/
abbrev Part : Type :=
  Segment × List BlockInfo

/-- All blocks of some parts. -/
def blocksIn (parts : List Part) : List BlockInfo :=
  parts.flatMap Prod.snd

theorem lent_blocksIn_cut {front back : List Part} {s : Segment} {xs row ys : List BlockInfo} :
    lent (blocksIn (front ++ (s, xs ++ (row ++ ys)) :: back)) =
      lent row + lent (blocksIn (front ++ (s, xs ++ ys) :: back)) := by
  simp only [blocksIn, List.flatMap_append, List.flatMap_cons, lent_append]
  abel

/-- The address is that of a block of the part, or of its epilogue. -/
def AtBoundary (t : Part) (c : Nat) : Prop :=
  c = t.1.stop ∨ ∃ b ∈ t.2, b.addr = c

namespace Heap

variable {γ : Type} {h : Heap γ} {m m' : Memory} {parts front back : List Part} {s : Segment}
  {b : BlockInfo} {t u : Part}

/-- The heap's segments are tiled by the blocks of `parts`. -/
structure InOrder (h : Heap γ) (m : Memory) (parts : List Part) : Prop where
  segments : parts.map Prod.fst = h.segments
  legal : ∀ s ∈ h.segments, s.Legal
  apart : h.segments.Pairwise fun s t => s.extent.Apart t.extent
  tiled : ∀ t ∈ parts, Tiled m t.1.stop true t.1.first t.2
  cursor : ∀ c, h.cursor = some c → ∃ t ∈ parts, AtBoundary t c
  idle : h.cursor = none → parts = []

namespace InOrder

/-! ### One segment among the others -/

theorem legal_of_mem (o : InOrder h m parts) (ht : t ∈ parts) : t.1.Legal :=
  o.legal _ (o.segments ▸ List.mem_map_of_mem ht)

theorem pairwise (o : InOrder h m parts) :
    parts.Pairwise fun t u => t.1.extent.Apart u.1.extent := by
  have apart : (parts.map Prod.fst).Pairwise fun s t => s.extent.Apart t.extent :=
    o.segments ▸ o.apart
  rwa [List.pairwise_map] at apart

/-- Parts that share an address are the same part. -/
theorem eq_of_mem_extent (o : InOrder h m parts) (ht : t ∈ parts) (hu : u ∈ parts) {x : Nat}
    (hxt : x ∈ t.1.extent) (hxu : x ∈ u.1.extent) : t = u := by
  have : Std.Symm fun t u : Part => t.1.extent.Apart u.1.extent := ⟨fun _ _ => Extent.Apart.symm⟩
  by_contra ne
  exact (o.pairwise.forall ht hu ne).not_mem hxt hxu

theorem others_apart {bs : List BlockInfo} (o : InOrder h m (front ++ (s, bs) :: back))
    (ht : t ∈ front ∨ t ∈ back) : t.1.extent.Apart s.extent := by
  obtain ⟨-, cons, cross⟩ := List.pairwise_append.mp o.pairwise
  rcases ht with ht | ht
  · exact cross t ht _ List.mem_cons_self
  · exact ((List.pairwise_cons.mp cons).1 t ht).symm

/-- The blocks of a part lie in its extent, one granule below its end at the most. -/
theorem mem_bounds (o : InOrder h m parts) (ht : t ∈ parts) (hb : b ∈ t.2) :
    t.1.first ≤ b.addr ∧ b.addr + b.size ≤ t.1.stop ∧ 16 ≤ b.size ∧ 16 ∣ b.size :=
  (o.tiled t ht).mem_bounds hb

theorem mem_aligned (o : InOrder h m parts) (ht : t ∈ parts) (hb : b ∈ t.2) : b.addr % 16 = 8 := by
  obtain ⟨q, row, -⟩ := o.tiled t ht
  exact row.mem_aligned (o.legal_of_mem ht).first_mod hb

theorem mem_extent (o : InOrder h m parts) (ht : t ∈ parts) (hb : b ∈ t.2) {x : Nat}
    (lo : b.addr ≤ x) (hi : x ≤ b.addr + b.size) : x ∈ t.1.extent := by
  have := o.mem_bounds ht hb
  exact (o.legal_of_mem ht).mem_extent (by omega) (by omega)

theorem boundary_mem_extent (o : InOrder h m parts) (ht : t ∈ parts) {c : Nat}
    (hc : AtBoundary t c) : c ∈ t.1.extent := by
  rcases hc with rfl | ⟨b, hb, rfl⟩
  · exact (o.legal_of_mem ht).mem_extent (Nat.le_add_right ..) (by omega)
  · exact o.mem_extent ht hb (Nat.le_refl _) (Nat.le_add_right ..)

/-- A block of a part, and what lies before and behind it. -/
theorem around (o : InOrder h m parts) (ht : t ∈ parts) (hb : b ∈ t.2) :
    ∃ xs ys r, t.2 = xs ++ b :: ys ∧ Row m true t.1.first xs r b.addr ∧ b.Tagged m r ∧
      Tiled m t.1.stop b.allocated (b.addr + b.size) ys := by
  obtain ⟨xs, ys, split⟩ := List.append_of_mem hb
  obtain ⟨r, around⟩ := (split ▸ o.tiled t ht : Tiled m _ _ _ (xs ++ b :: ys)).split_cons
  exact ⟨xs, ys, r, split, around⟩

/-- A block is known by its address. -/
theorem eq_of_addr (o : InOrder h m parts) (ht : t ∈ parts) {d : BlockInfo} (hb : b ∈ t.2)
    (hd : d ∈ t.2) (e : b.addr = d.addr) : b = d := by
  obtain ⟨q, row, -⟩ := o.tiled t ht
  have := (row.mem_bounds hb).2.2.1
  have := (row.mem_bounds hd).2.2.1
  exact BlockInfo.eq_of_apart (x := b.addr) (row.pairwise.imp .inl) hb hd (by omega) (by omega)

end InOrder

/-! ### Validation -/

theorem segmentBlocks_eq {bs : List BlockInfo} (tiled : Tiled m s.stop true s.first bs) :
    segmentBlocks m s = .ok bs := by
  have total : BlockInfo.total bs = s.usable := by
    obtain ⟨q, row, -⟩ := tiled
    exact Nat.add_left_cancel row.end_eq.symm
  unfold segmentBlocks
  rw [walk_of_tiled tiled]
  exact if_pos total

theorem blocksOf_eq : ∀ {parts : List Part},
    (∀ t ∈ parts, Tiled m t.1.stop true t.1.first t.2) →
      blocksOf m (parts.map Prod.fst) = .ok (parts.map Prod.snd)
  | [], _ => rfl
  | t :: parts, tiled => by
    rw [List.map_cons, blocksOf, segmentBlocks_eq (tiled t List.mem_cons_self),
      blocksOf_eq fun u hu => tiled u (List.mem_cons_of_mem t hu)]
    rfl

theorem total_append (xs ys : List BlockInfo) :
    BlockInfo.total (xs ++ ys) = BlockInfo.total xs + BlockInfo.total ys := by
  induction xs with
  | nil => exact (Nat.zero_add _).symm
  | cons b xs ih => rw [List.cons_append, BlockInfo.total, BlockInfo.total, ih, Nat.add_assoc]

theorem total_blocksIn : ∀ {parts : List Part},
    (∀ t ∈ parts, Tiled m t.1.stop true t.1.first t.2) →
      BlockInfo.total (blocksIn parts) = Segment.total (parts.map Prod.fst)
  | [], _ => rfl
  | t :: parts, tiled => by
    obtain ⟨q, row, -⟩ := tiled t List.mem_cons_self
    have here : BlockInfo.total t.2 = t.1.usable := Nat.add_left_cancel row.end_eq.symm
    rw [blocksIn, List.flatMap_cons, total_append, List.map_cons, Segment.total, here]
    exact congrArg _ (total_blocksIn fun u hu => tiled u (List.mem_cons_of_mem t hu))

theorem length_le_total {bs : List BlockInfo} (pos : ∀ b ∈ bs, 16 ≤ b.size) :
    bs.length ≤ BlockInfo.total bs := by
  induction bs with
  | nil => exact Nat.le_refl 0
  | cons b bs ih =>
    have := pos b List.mem_cons_self
    have := ih fun d hd => pos d (List.mem_cons_of_mem b hd)
    rw [List.length_cons, BlockInfo.total]
    omega

namespace InOrder

theorem blocks_eq (o : InOrder h m parts) : h.blocks m = .ok (blocksIn parts) := by
  unfold blocks
  rw [← o.segments, blocksOf_eq o.tiled]
  rfl

theorem cursorFound (o : InOrder h m parts) : h.cursorFound (blocksIn parts) = true := by
  unfold Heap.cursorFound
  cases hc : h.cursor with
  | none => rfl
  | some c =>
    obtain ⟨t, ht, at_stop | ⟨b, hb, here⟩⟩ := o.cursor c hc
    · have : t.1 ∈ h.segments := o.segments ▸ List.mem_map_of_mem ht
      simp only [Bool.or_eq_true, List.any_eq_true, beq_iff_eq]
      exact .inr ⟨t.1, this, at_stop.symm⟩
    · simp only [Bool.or_eq_true, List.any_eq_true, beq_iff_eq]
      exact .inl ⟨b, List.mem_flatMap.mpr ⟨t, ht, hb⟩, here⟩

theorem laidOut (o : InOrder h m parts) : h.LaidOut :=
  ⟨o.legal, o.apart⟩

theorem total_lt (o : InOrder h m parts) : Segment.total h.segments < Word.bound :=
  o.laidOut.total_lt

/-- **Validation of a heap in order** succeeds, and its report adds up. -/
theorem validate_eq (o : InOrder h m parts) :
    ∃ r, h.validate m = .ok r ∧ r.segments = h.segments.length ∧
      r.totalBytes = Segment.total h.segments ∧ r.allocatedBytes + r.freeBytes = r.totalBytes ∧
      r.allocatedBlocks + r.freeBlocks ≤ r.totalBytes ∧
      r.allocatedBlocks = (lent (blocksIn parts)).card := by
  have all := total_blocksIn o.tiled
  rw [o.segments] at all
  have fewer : (blocksIn parts).length ≤ BlockInfo.total (blocksIn parts) := by
    refine length_le_total fun b hb => ?_
    obtain ⟨t, ht, hb⟩ := List.mem_flatMap.mp hb
    exact (o.mem_bounds ht hb).2.2.1
  refine ⟨h.report (blocksIn parts), ?_, rfl, rfl, (sum_sizes _).trans all, ?_, ?_⟩
  · rw [validate_of_blocks o.blocks_eq, if_pos o.cursorFound]
  · exact (length_sizes _).trans_le (fewer.trans_eq all)
  · simp [report, sizes, card_lent]

/-! ### Pointers -/

theorem find?_of_unique {α : Type} {l : List α} {f : α → Bool} {x : α} (hx : x ∈ l)
    (fx : f x = true) (unique : ∀ y ∈ l, f y = true → y = x) : l.find? f = some x := by
  cases found : l.find? f with
  | none => exact absurd fx (List.find?_eq_none.mp found x hx)
  | some y => rw [unique y (List.mem_of_find?_eq_some found) (List.find?_some found)]

/-- The payload of an allocated block passes the check. -/
theorem checkLive_eq (o : InOrder h m parts) (ht : t ∈ parts) (hb : b ∈ t.2)
    (live : b.allocated = true) : h.checkLive m (b.addr + 8) = .ok () := by
  obtain ⟨lo, hi, pos, -⟩ := o.mem_bounds ht hb
  have aligned : Align.isMultiple (b.addr + 8) granule = true := by
    have := o.mem_aligned ht hb
    rw [Align.isMultiple_iff granule_isPowerOfTwo, granule_eq]
    omega
  -- No other segment spans the address, and no other block has this payload.
  have segment : h.segments.find? (fun s => s.first < b.addr + 8 && b.addr + 8 < s.stop) =
      some t.1 := by
    apply find?_of_unique (o.segments ▸ List.mem_map_of_mem ht)
    · simp only [Bool.and_eq_true, decide_eq_true_eq]
      omega
    · intro s hs inside
      simp only [Bool.and_eq_true, decide_eq_true_eq] at inside
      rw [← o.segments] at hs
      obtain ⟨u, hu, rfl⟩ := List.mem_map.mp hs
      rw [o.eq_of_mem_extent hu ht ((o.legal_of_mem hu).mem_extent (by omega) (by omega))
        (o.mem_extent ht hb (x := b.addr + 8) (by omega) (by omega))]
  have block : t.2.find? (fun d => payload d.addr == b.addr + 8) = some b := by
    apply find?_of_unique hb
    · exact beq_self_eq_true _
    · intro d hd same
      exact o.eq_of_addr ht hd hb (Nat.add_right_cancel (beq_iff_eq.mp same))
  unfold checkLive
  rw [if_neg (by rw [aligned]; nofun), segment]
  dsimp only
  rw [segmentBlocks_eq (o.tiled t ht)]
  dsimp only
  rw [block]
  exact if_pos live

/-- Whatever passes the check is the payload of an allocated block. -/
theorem exists_of_checkLive (o : InOrder h m parts) {ptr : Nat}
    (live : h.checkLive m ptr = .ok ()) : ∃ e ∈ lent (blocksIn parts), e.start = ptr := by
  unfold checkLive at live
  split at live
  · cases live
  split at live
  · cases live
  next s found =>
  obtain ⟨t, ht, rfl⟩ := List.mem_map.mp (o.segments ▸ List.mem_of_find?_eq_some found)
  rw [segmentBlocks_eq (o.tiled t ht)] at live
  dsimp only at live
  split at live
  · cases live
  next b found =>
  split at live
  · next allocated =>
    have mem := List.mem_flatMap.mpr ⟨t, ht, List.mem_of_find?_eq_some found⟩
    have here := List.find?_some found
    exact ⟨b.room, mem_lent.mpr ⟨b, mem, allocated, rfl⟩, beq_iff_eq.mp here⟩
  · cases live

theorem usableSize_eq (o : InOrder h m parts) (ht : t ∈ parts) (hb : b ∈ t.2) :
    usableSize m (b.addr + 8) = .ok (b.size - 8) := by
  obtain ⟨_, _, r, -, -, tagged, -⟩ := o.around ht hb
  unfold usableSize ofPayload
  rw [Word.bytes_eq, Nat.add_sub_cancel, tagged.header, Tag.size_make tagged.aligned]
  exact Word.sub_eq_ok_iff.mpr ⟨Nat.le_trans (by decide) tagged.pos, rfl⟩

/-! ### Frames -/

/-- **A heap does not see** what its clients do with their payloads, nor what happens outside. -/
theorem frame (o : InOrder h m parts)
    (same : ∀ s ∈ h.segments, ∀ x ∈ s.extent, (∀ e ∈ lent (blocksIn parts), x ∉ e) →
      m'.read x = m.read x) : InOrder h m' parts := by
  refine ⟨o.segments, o.legal, o.apart, fun t ht => ?_, o.cursor, o.idle⟩
  refine (o.tiled t ht).frame fun x lo hi l => ?_
  have here : x ∈ t.1.extent := (o.legal_of_mem ht).mem_extent lo hi
  apply same t.1 (o.segments ▸ List.mem_map_of_mem ht) x here
  intro e he hx
  obtain ⟨b, hb, live, rfl⟩ := mem_lent.mp he
  obtain ⟨u, hu, hb⟩ := List.mem_flatMap.mp hb
  -- Only a payload of this very part can hold `x`.
  have := o.mem_bounds hu hb
  have inside := Extent.mem_iff.mp hx
  dsimp only [BlockInfo.room] at inside
  have same : t = u := o.eq_of_mem_extent ht hu here (o.mem_extent hu hb (by omega) (by omega))
  exact l ⟨b, same ▸ hb, live, inside.1, by omega⟩

/-! ### Changing one row -/

variable {xs old ys new : List BlockInfo} {c d k : Nat} {q r r' : Bool}

theorem mem_cut {u : Part} (ht : t ∈ front ∨ t ∈ back) : t ∈ front ++ u :: back :=
  List.mem_append.mpr (ht.imp_right (List.mem_cons_of_mem u))

/-- Changes inside one part leave the others. -/
theorem frame_others {bs : List BlockInfo} (o : InOrder h m (front ++ (s, bs) :: back))
    (changed : m.ChangedWithin m' s.first (s.stop + 8)) (ht : t ∈ front ∨ t ∈ back) :
    Tiled m' t.1.stop true t.1.first t.2 := by
  have here : s.Legal := o.legal_of_mem (t := (s, bs)) (by simp)
  have there := o.legal_of_mem (mem_cut ht)
  have := here.start_le
  have := here.stop_le
  have := there.start_le
  have := there.stop_le
  have := o.others_apart ht
  unfold Extent.Apart at this
  exact (o.tiled t (mem_cut ht)).frame_outside changed (by omega)

/-- **One row for another**, in one segment; the cursor goes to a boundary. -/
theorem replace (o : InOrder h m (front ++ (s, xs ++ (old ++ ys)) :: back))
    (before : Row m true s.first xs q c) (after : Tiled m s.stop r d ys)
    (changed : m.ChangedWithin m' c (d + 8)) (middle : Row m' q c new r' d)
    (header : m'.readWord d = Tag.withPrev (m.readWord d) r')
    (apart : r' = false → ∀ b ∈ ys.head?, b.allocated = true)
    (cursor : ∃ t ∈ front ++ (s, xs ++ (new ++ ys)) :: back, AtBoundary t k) :
    InOrder { h with cursor := some k } m' (front ++ (s, xs ++ (new ++ ys)) :: back) := by
  have inside : m.ChangedWithin m' s.first (s.stop + 8) :=
    changed.mono before.le (Nat.add_le_add_right after.le 8)
  refine ⟨?_, o.legal, o.apart, fun t ht => ?_, fun c hc => ?_, nofun⟩
  · have := o.segments
    rw [List.map_append, List.map_cons] at this ⊢
    exact this
  · rcases List.mem_append.mp ht with ht | ht
    · exact o.frame_others inside (.inl ht)
    · cases ht with
      | head => exact Tiled.replace before after changed middle header apart
      | tail _ ht => exact o.frame_others inside (.inr ht)
  · cases hc
    exact cursor

/-- **What stays**: the payloads of all blocks but those of the row. -/
theorem keeps_others (o : InOrder h m (front ++ (s, xs ++ (old ++ ys)) :: back))
    (before : Row m true s.first xs q c) (after : Tiled m s.stop r d ys)
    (changed : m.ChangedWithin m' c (d + 8)) :
    m.Keeps m' (lent (blocksIn (front ++ (s, xs ++ ys) :: back))) := by
  intro e he x hx
  obtain ⟨b, hb, -, rfl⟩ := mem_lent.mp he
  obtain ⟨t, ht, hb⟩ := List.mem_flatMap.mp hb
  have inside := Extent.mem_iff.mp hx
  dsimp only [BlockInfo.room] at inside
  have := before.le
  have := after.le
  apply changed
  -- Blocks of other parts lie outside this extent; those of this part before or behind the row.
  have elsewhere : t ∈ front ∨ t ∈ back → x < c ∨ d + 8 ≤ x := by
    intro ht
    have here : s.Legal := o.legal_of_mem (t := (s, xs ++ (old ++ ys))) (by simp)
    have := here.start_le
    have := here.stop_le
    have := o.others_apart ht
    unfold Extent.Apart at this
    have := Extent.mem_iff.mp (o.mem_extent (mem_cut ht) hb (x := x) (by omega) (by omega))
    omega
  rcases List.mem_append.mp ht with ht | ht
  · exact elsewhere (.inl ht)
  · cases ht with
    | head =>
      rcases List.mem_append.mp hb with hb | hb
      · have := (before.mem_bounds hb).2.1
        omega
      · have := (after.mem_bounds hb).1
        omega
    | tail _ ht => exact elsewhere (.inr ht)

/-- Nothing outside the segment's extent changes. -/
theorem changedIn (o : InOrder h m (front ++ (s, xs ++ (old ++ ys)) :: back))
    (before : Row m true s.first xs q c) (after : Tiled m s.stop r d ys)
    (changed : m.ChangedWithin m' c (d + 8)) : m.ChangedIn m' (h.segments.map (·.extent)) := by
  have mem : (s, xs ++ (old ++ ys)) ∈ front ++ (s, xs ++ (old ++ ys)) :: back := by simp
  have legal : s.Legal := o.legal_of_mem mem
  have := legal.start_le
  have := legal.stop_le
  have := before.le
  have := after.le
  have here : s ∈ h.segments := o.segments ▸ List.mem_map_of_mem mem
  exact changed.changedIn (List.mem_map_of_mem here) (by omega) (by omega)

end InOrder

end Heap

end LayeredMemory
