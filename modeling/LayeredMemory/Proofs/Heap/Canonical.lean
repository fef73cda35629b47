import LayeredMemory.Proofs.Heap.Session
import Mathlib.Data.List.Dedup
import Mathlib.Data.List.Sort

/-!
# Canonical layouts — what is lent says where everything is

A heap coalesces at once, so its blocks have no history: the free ones are what the allocated ones
leave over. Two descriptions of that, and then what follows for runs.

* `arrange` computes the blocks of some segments from what is lent: it sorts the allocated blocks of
  each segment and fills every gap with one free block. `InOrder.blocks_eq_arrange` says that a walk
  meets these blocks.
* `IsGap` says without computing what a gap is: a longest run of bytes of a segment that belong to
  no allocated block. `InOrder.free_iff` says that the free blocks are these.
* `reachable_canonical`: whatever a heap and its clients did, its blocks are those; how it came to
  its segments and its clients to their blocks leaves no trace.
-/

namespace LayeredMemory

/-- The allocated block whose payload this is. -/
def Extent.block (e : Extent) : BlockInfo :=
  ⟨e.start - 8, e.len + 8, true⟩

/-- Blocks in order, with free ones in the gaps from `a` to `stop`. -/
def weave (stop a : Nat) : List BlockInfo → List BlockInfo
  | [] => gap a stop
  | b :: bs => gap a b.addr ++ b :: weave stop (b.addr + b.size) bs

/-- The blocks of a segment in which the extents of `live` are lent, as far as they lie in it. Order
and repetition in `live` do not matter. -/
def Segment.arrange (s : Segment) (live : List Extent) : List BlockInfo :=
  weave s.stop s.first
    (((live.map Extent.block).filter (s.holds ·.addr)).dedup.mergeSort (·.addr ≤ ·.addr))

/-- The blocks of some segments in which the extents of `live` are lent. -/
def arrange (segments : List Segment) (live : List Extent) : List BlockInfo :=
  segments.flatMap (·.arrange live)

/-- The byte at `x` is one of the segment's, and belongs to no block that is lent. -/
def Idle (s : Segment) (live : Multiset Extent) (x : Nat) : Prop :=
  s.first ≤ x ∧ x < s.stop ∧ ∀ e ∈ live, ¬(e.start ≤ x + 8 ∧ x < e.start + e.len)

/-- A longest interval of idle bytes. -/
structure IsGap (s : Segment) (live : Multiset Extent) (lo hi : Nat) : Prop where
  lt : lo < hi
  idle : ∀ x, lo ≤ x → x < hi → Idle s live x
  longest : ∀ a c, a ≤ lo → hi ≤ c → (∀ x, a ≤ x → x < c → Idle s live x) → a = lo ∧ c = hi

variable {m : Memory} {p q : Bool} {a c : Nat} {b : BlockInfo} {bs : List BlockInfo} {s : Segment}
  {live : Multiset Extent}

/-- An allocated block is that of its payload. -/
theorem BlockInfo.block_room (live : b.allocated = true) (pos : 16 ≤ b.size) :
    b.room.block = b := by
  have size : b.size - 8 + 8 = b.size := Nat.sub_add_cancel (Nat.le_trans (by decide) pos)
  rw [Extent.block, BlockInfo.room, Nat.add_sub_cancel, size, ← live]

/-! ### Filling gaps -/

/-- **A row is woven** from its allocated blocks. -/
theorem Row.weave_eq (h : Row m p a bs q c) : weave c a (bs.filter (·.allocated)) = bs := by
  induction h with
  | nil => exact gap_self
  | @cons p q c b bs tagged rest ih =>
    cases live : b.allocated with
    | true => rw [List.filter_cons_of_pos live, weave, gap_self, ih, List.nil_append]
    | false =>
      have pos : 0 < b.size := Nat.lt_of_lt_of_le (by decide) tagged.pos
      have here : gap b.addr (b.addr + b.size) = [b] := by rw [gap_of_pos pos, ← live]
      rw [List.filter_cons_of_neg (by rw [live]; exact Bool.false_ne_true)]
      -- What comes next is allocated or the end, so the gap is no longer than `b`.
      cases bs with
      | nil =>
        obtain ⟨-, rfl⟩ := rest.eq_of_nil
        exact here
      | cons d ds =>
        obtain ⟨next, tagged, -⟩ := rest.uncons
        have taken : d.allocated = true := (live ▸ tagged : d.Tagged _ false).allocated
        rw [List.filter_cons_of_pos taken, weave, ← next, gap_self, List.nil_append] at ih
        rw [List.filter_cons_of_pos taken, weave, ← next, here, ih, List.singleton_append]

/-- A row leaves no byte out. -/
theorem Row.exists_block (h : Row m p a bs q c) {x : Nat} (lo : a ≤ x) (hi : x < c) :
    ∃ b ∈ bs, b.addr ≤ x ∧ x < b.addr + b.size := by
  induction h with
  | nil => omega
  | @cons _ _ _ b bs _ _ ih =>
    by_cases inside : x < b.addr + b.size
    · exact ⟨b, List.mem_cons_self, lo, inside⟩
    · obtain ⟨d, hd, within⟩ := ih (Nat.le_of_not_lt inside) hi
      exact ⟨d, List.mem_cons_of_mem b hd, within⟩

/-- What is before the end of a row is the block that its flag is about. -/
theorem Row.ends (h : Row m p a bs q c) (lt : a < c) :
    ∃ d ∈ bs, d.allocated = q ∧ d.addr < c ∧ d.addr + d.size = c := by
  rcases List.eq_nil_or_concat' bs with rfl | ⟨front, d, rfl⟩
  · exact absurd h.eq_of_nil.2 (Nat.ne_of_lt lt)
  · obtain ⟨r, k, -, last⟩ := h.split
    obtain ⟨-, tagged, rest⟩ := last.uncons
    obtain ⟨flag, stop⟩ := rest.eq_of_nil
    have := tagged.pos
    exact ⟨d, List.mem_append_right _ List.mem_cons_self, flag, by omega, stop⟩

/-- Gaps that share a byte are the same: neither is shorter than both together. -/
theorem IsGap.eq_of_mem {a c lo hi x : Nat} (g : IsGap s live a c) (g' : IsGap s live lo hi)
    (hx : a ≤ x ∧ x < c) (hx' : lo ≤ x ∧ x < hi) : a = lo ∧ c = hi := by
  have both (y : Nat) (le : min a lo ≤ y) (lt : y < max c hi) : Idle s live y := by
    by_cases inside : a ≤ y ∧ y < c
    · exact g.idle y inside.1 inside.2
    · exact g'.idle y (by omega) (by omega)
  have first := g.longest _ _ (Nat.min_le_left a lo) (Nat.le_max_left c hi) both
  have second := g'.longest _ _ (Nat.min_le_right a lo) (Nat.le_max_right c hi) both
  omega

namespace Heap

variable {γ : Type} {h : Heap γ} {parts : List Part} {t : Part} {d : BlockInfo}

namespace InOrder

/-! ### The blocks of a heap in order -/

/-- Blocks that share a byte are the same. -/
theorem eq_of_mem_block (o : InOrder h m parts) (hb : b ∈ blocksIn parts) (hd : d ∈ blocksIn parts)
    {x : Nat} (in_b : b.addr ≤ x ∧ x < b.addr + b.size) (in_d : d.addr ≤ x ∧ x < d.addr + d.size) :
    b = d :=
  BlockInfo.eq_of_apart o.blocks_pairwise hb hd in_b in_d

/-- What is lent tells which allocated blocks a segment has. -/
theorem mem_allocated (o : InOrder h m parts) (ht : t ∈ parts) :
    b ∈ t.2.filter (·.allocated) ↔
      ∃ e ∈ lent (blocksIn parts), e.block = b ∧ t.1.holds b.addr = true := by
  rw [List.mem_filter]
  constructor
  · rintro ⟨hb, live⟩
    have := o.mem_bounds ht hb
    exact ⟨b.room, mem_lent.mpr ⟨b, List.mem_flatMap.mpr ⟨t, ht, hb⟩, live, rfl⟩,
      BlockInfo.block_room live (by omega), decide_eq_true_iff.mpr ⟨by omega, by omega⟩⟩
  · rintro ⟨e, he, rfl, inside⟩
    obtain ⟨u, hu, d, hd, live, rfl⟩ := exists_block he
    have := o.mem_bounds hu hd
    have same : d.room.block = d := BlockInfo.block_room live (by omega)
    rw [same] at inside ⊢
    have inside := decide_eq_true_iff.mp inside
    have here : u = t := o.eq_of_mem_extent hu ht (o.mem_extent hu hd (Nat.le_refl _) (by omega))
      ((o.legal_of_mem ht).mem_extent inside.1 (by omega))
    exact ⟨here ▸ hd, live⟩

/-- **The blocks of a segment** are those that `arrange` computes from what is lent. -/
theorem arrange_eq (o : InOrder h m parts) (ht : t ∈ parts) {live : List Extent}
    (same : ∀ e, e ∈ live ↔ e ∈ lent (blocksIn parts)) : t.1.arrange live = t.2 := by
  obtain ⟨q, row, -⟩ := o.tiled t ht
  let found := ((live.map Extent.block).filter (t.1.holds ·.addr)).dedup
  have ordered : (t.2.filter (·.allocated)).Pairwise fun b d => b.addr ≤ d.addr :=
    (row.pairwise.imp fun le => Nat.le_trans (Nat.le_add_right ..) le).sublist List.filter_sublist
  have nodup : (t.2.filter (·.allocated)).Nodup := by
    refine (row.pairwise.imp_of_mem fun {b d} hb hd le => ?_).sublist List.filter_sublist
    have := (row.mem_bounds hb).2.2.1
    rintro rfl
    omega
  have members (b : BlockInfo) : b ∈ found ↔ b ∈ t.2.filter (·.allocated) := by
    rw [List.mem_dedup, List.mem_filter, List.mem_map, o.mem_allocated ht]
    simp only [same, ← exists_and_right, and_assoc]
  -- Both lists are sorted and have the same members, each once.
  have perm : (found.mergeSort (·.addr ≤ ·.addr)).Perm (t.2.filter (·.allocated)) :=
    (List.mergeSort_perm ..).trans
      ((List.perm_ext_iff_of_nodup (List.nodup_dedup _) nodup).mpr members)
  have sorted : (found.mergeSort (·.addr ≤ ·.addr)).Pairwise fun b d => b.addr ≤ d.addr :=
    (List.pairwise_mergeSort (by simpa using fun _ _ _ => Nat.le_trans)
      (by simpa using fun _ _ => Nat.le_total ..) found).imp decide_eq_true_iff.mp
  have equal : found.mergeSort (·.addr ≤ ·.addr) = t.2.filter (·.allocated) := by
    refine perm.eq_of_pairwise (fun b d hb hd le ge => ?_) sorted ordered
    exact o.eq_of_addr ht (List.mem_of_mem_filter (perm.mem_iff.mp hb)) (List.mem_of_mem_filter hd)
      (Nat.le_antisymm le ge)
  rw [Segment.arrange, equal]
  exact row.weave_eq

/-- The parts of a heap are known from its segments and from what is lent. -/
theorem eq_arrange (o : InOrder h m parts) {live : List Extent}
    (same : ∀ e, e ∈ live ↔ e ∈ lent (blocksIn parts)) :
    parts = h.segments.map fun s => (s, s.arrange live) := by
  rw [← o.segments, List.map_map]
  refine ((List.map_congr_left fun t ht => ?_).trans (List.map_id parts)).symm
  exact congrArg (Prod.mk t.1) (o.arrange_eq ht same)

/-- **The blocks of a heap** are those that `arrange` computes from what is lent. -/
theorem blocks_eq_arrange (o : InOrder h m parts) {live : List Extent}
    (same : ∀ e, e ∈ live ↔ e ∈ lent (blocksIn parts)) :
    h.blocks m = .ok (arrange h.segments live) := by
  rw [o.blocks_eq, ← o.segments, arrange, List.flatMap_map]
  exact congrArg _ (List.flatMap_congr fun t ht => (o.arrange_eq ht same).symm)

/-! ### Free blocks are gaps -/

/-- A byte is idle exactly if it is a free block's. -/
theorem idle_iff (o : InOrder h m parts) (ht : t ∈ parts) {x : Nat} :
    Idle t.1 (lent (blocksIn parts)) x ↔
      ∃ b ∈ t.2, b.allocated = false ∧ b.addr ≤ x ∧ x < b.addr + b.size := by
  have mem {b : BlockInfo} (hb : b ∈ t.2) : b ∈ blocksIn parts := List.mem_flatMap.mpr ⟨t, ht, hb⟩
  constructor
  · rintro ⟨lo, hi, idle⟩
    obtain ⟨q, row, -⟩ := o.tiled t ht
    obtain ⟨b, hb, inside⟩ := row.exists_block lo hi
    refine ⟨b, hb, ?_, inside⟩
    cases live : b.allocated with
    | false => rfl
    | true =>
      have := o.mem_bounds ht hb
      refine absurd ?_ (idle b.room (mem_lent.mpr ⟨b, mem hb, live, rfl⟩))
      dsimp only [BlockInfo.room]
      omega
  · rintro ⟨b, hb, free, inside⟩
    have := o.mem_bounds ht hb
    refine ⟨by omega, by omega, fun e he within => ?_⟩
    obtain ⟨u, hu, d, hd, live, rfl⟩ := exists_block he
    have := o.mem_bounds hu hd
    dsimp only [BlockInfo.room] at within
    -- The byte would be one of an allocated block, too.
    have same := o.eq_of_mem_block (mem hb) (List.mem_flatMap.mpr ⟨u, hu, hd⟩) inside
      ⟨by omega, by omega⟩
    rw [same, live] at free
    cases free

/-- A free block is a gap: what is before and behind it is allocated. -/
theorem isGap_of_free (o : InOrder h m parts) (ht : t ∈ parts) (hb : b ∈ t.2)
    (free : b.allocated = false) :
    IsGap t.1 (lent (blocksIn parts)) b.addr (b.addr + b.size) := by
  have bounds := o.mem_bounds ht hb
  refine ⟨by omega, fun x lo hi => (o.idle_iff ht).mpr ⟨b, hb, free, lo, hi⟩, ?_⟩
  intro a c le le' idle
  obtain ⟨xs, ys, r, split, before, tagged, after⟩ := o.around ht hb
  have mem {d : BlockInfo} (hd : d ∈ xs ∨ d ∈ ys) : d ∈ t.2 := by
    rw [split]
    exact List.mem_append.mpr (hd.imp_right (List.mem_cons_of_mem b))
  have in_part {d : BlockInfo} (hd : d ∈ t.2) : d ∈ blocksIn parts :=
    List.mem_flatMap.mpr ⟨t, ht, hd⟩
  -- No byte of an allocated block is idle.
  have busy {d : BlockInfo} (hd : d ∈ t.2) (live : d.allocated = true) {x : Nat}
      (inside : d.addr ≤ x ∧ x < d.addr + d.size) (within : a ≤ x ∧ x < c) : False := by
    obtain ⟨f, hf, vacant, also⟩ := (o.idle_iff ht).mp (idle x within.1 within.2)
    rw [o.eq_of_mem_block (in_part hf) (in_part hd) also inside, live] at vacant
    cases vacant
  constructor
  · by_contra ne
    have lower := (idle a (Nat.le_refl a) (by omega)).1
    obtain ⟨d, hd, live, lt, stop⟩ := before.ends (by omega)
    exact busy (mem (.inl hd)) (live.trans (tagged.apart free)) (x := b.addr - 1)
      ⟨by omega, by omega⟩ ⟨by omega, by omega⟩
  · by_contra ne
    have upper := (idle (b.addr + b.size) (by omega) (by omega)).2.1
    obtain ⟨q, row, -⟩ := after
    cases ys with
    | nil => exact absurd row.eq_of_nil.2 (Nat.ne_of_lt upper)
    | cons d ds =>
      obtain ⟨next, follows, -⟩ := row.uncons
      have := follows.pos
      have live : d.allocated = true := (free ▸ follows : d.Tagged _ false).allocated
      exact busy (mem (.inr List.mem_cons_self)) live (x := d.addr)
        ⟨Nat.le_refl _, by omega⟩ ⟨by omega, by omega⟩

/-- **The free blocks of a heap** are the gaps that allocated blocks leave in its segments. -/
theorem free_iff (o : InOrder h m parts) {n : Nat} :
    (⟨a, n, false⟩ : BlockInfo) ∈ blocksIn parts ↔
      ∃ s ∈ h.segments, IsGap s (lent (blocksIn parts)) a (a + n) := by
  constructor
  · intro hb
    obtain ⟨t, ht, hb⟩ := List.mem_flatMap.mp hb
    exact ⟨t.1, o.segments ▸ List.mem_map_of_mem ht, o.isGap_of_free ht hb rfl⟩
  · rintro ⟨s, hs, found⟩
    obtain ⟨t, ht, rfl⟩ := List.mem_map.mp (o.segments ▸ hs : s ∈ parts.map Prod.fst)
    have lt := found.lt
    -- The free block that has the gap's first byte is a gap, too.
    obtain ⟨b, hb, free, inside⟩ := (o.idle_iff ht).mp (found.idle a (Nat.le_refl a) lt)
    obtain ⟨first, last⟩ := (o.isGap_of_free ht hb free).eq_of_mem found inside ⟨Nat.le_refl a, lt⟩
    have same : b = ⟨a, n, false⟩ := by
      rw [← first, ← free, ← Nat.add_left_cancel (first ▸ last : b.addr + b.size = b.addr + n)]
    exact List.mem_flatMap.mpr ⟨t, ht, same ▸ hb⟩

end InOrder

/-! ### Sessions -/

namespace Session

/-- What the clients hold, but for what some requests are about. -/
def besides (σ : Session γ) (rs : List Request) : List Held :=
  σ.live.filter fun b => some b.ptr ∉ rs.map Request.target

theorem besides_perm {σ : Session γ} {rs rs' : List Request} (perm : rs.Perm rs') :
    σ.besides rs = σ.besides rs' := by
  simp only [besides, (perm.map Request.target).mem_iff]

variable [GrowthSource γ] {C : GrowthContract γ} {σ τ : Session γ} {B : Multiset Extent} {d : Held}

/-- Serves requests one after the other. -/
def serveAll (σ : Session γ) (rs : List Request) : Except Stop (Session γ) :=
  rs.foldlM serve σ

theorem Sound.blocks_eq (sound : σ.Sound C 0) {live : List Extent}
    (same : ∀ e, e ∈ live ↔ e ∈ σ.rooms) :
    σ.heap.blocks σ.memory = .ok (arrange σ.heap.segments live) := by
  obtain ⟨parts, o, rooms⟩ := sound.alone.lends
  exact o.blocks_eq_arrange (rooms ▸ same)

/-- Clients hold at most one block at an address. -/
theorem Sound.ptr_nodup (sound : σ.Sound C B) : (σ.live.map Held.ptr).Nodup := by
  have apart := sound.serves.lends.pairwise (l := σ.live.map Held.room) (Multiset.le_add_right _ B)
  rw [List.pairwise_map] at apart
  refine List.pairwise_map.mpr (apart.imp_of_mem fun {b d} hb hd off same => ?_)
  have := (sound.serves.lends.bounds (Multiset.mem_add.mpr (.inl (mem_rooms hb)))).2.1
  have := (sound.serves.lends.bounds (Multiset.mem_add.mpr (.inl (mem_rooms hd)))).2.1
  have first : b.room.start = b.ptr := rfl
  have second : d.room.start = d.ptr := rfl
  unfold Extent.Apart at off
  omega

theorem Sound.mem_without (sound : σ.Sound C B) {ptr : Nat} :
    d ∈ σ.without ptr ↔ d ∈ σ.live ∧ d.ptr ≠ ptr := by
  constructor
  · intro hd
    refine ⟨List.mem_of_mem_eraseP hd, ?_⟩
    rintro rfl
    obtain ⟨b, front, back, -, at_ptr, split, erased⟩ :=
      List.exists_of_eraseP (p := (·.ptr == d.ptr)) (List.mem_of_mem_eraseP hd) (beq_self_eq_true _)
    have erased : σ.without d.ptr = front ++ back := erased
    have nodup := sound.ptr_nodup
    rw [split, List.map_append, List.map_cons, List.nodup_middle, ← List.map_append,
      ← erased, List.nodup_cons] at nodup
    exact nodup.1 (List.mem_map.mpr ⟨d, hd, (beq_iff_eq.mp at_ptr).symm⟩)
  · rintro ⟨hd, ne⟩
    exact (List.mem_eraseP_of_neg (by simpa using ne)).mpr hd

/-- Freeing a block that is held succeeds, and leaves the segments as they are. -/
theorem Sound.serve_free (sound : σ.Sound C B) (hd : d ∈ σ.live) {r : Request}
    (frees : r = .free d.ptr ∨ r = .tryFree d.ptr) :
    ∃ τ, σ.serve r = .ok τ ∧ τ.Sound C B ∧ τ.live = σ.without d.ptr ∧
      τ.heap.segments = σ.heap.segments := by
  obtain ⟨b, -, here, -, same⟩ := exists_held ⟨d, hd, rfl⟩ B
  have lends := same ▸ sound.serves.lends
  have start : b.room.start = d.ptr := here
  have legal : r.Legal C σ := by rcases frees with rfl | rfl <;> exact ⟨d, hd, rfl⟩
  obtain ⟨τ, served, steps⟩ := serve_spec sound legal
  refine ⟨τ, served, steps.sound, ?_⟩
  rcases frees with rfl | rfl
  · obtain ⟨h', m', run, w⟩ := start ▸ free_run lends
    rw [serve, Session.run, Action.conclude_of_ok run] at served
    cases served
    exact ⟨rfl, by rw [w.same]⟩
  · obtain ⟨h', m', run, w⟩ := start ▸ tryFree_run lends
    rw [serve, Session.run, Action.conclude_of_ok run] at served
    cases served
    exact ⟨rfl, by rw [w.same]⟩

/-- Freeing blocks one after the other leaves the clients the others. -/
theorem Sound.serveAll_frees {rs : List Request} (sound : σ.Sound C B)
    (nodup : (rs.map Request.target).Nodup)
    (frees : ∀ r ∈ rs, ∃ b ∈ σ.live, r = .free b.ptr ∨ r = .tryFree b.ptr) :
    ∃ τ, σ.serveAll rs = .ok τ ∧ τ.Sound C B ∧ τ.heap.segments = σ.heap.segments ∧
      ∀ b, b ∈ τ.live ↔ b ∈ σ.besides rs := by
  induction rs generalizing σ with
  | nil => exact ⟨σ, rfl, sound, rfl, fun b => by simp [besides]⟩
  | cons r rs ih =>
    obtain ⟨b, hb, freed⟩ := frees r List.mem_cons_self
    have target : r.target = some b.ptr := by rcases freed with rfl | rfl <;> rfl
    rw [List.map_cons, List.nodup_cons, target] at nodup
    obtain ⟨σ₁, served, sound₁, live, segments⟩ := sound.serve_free hb freed
    have still : ∀ r ∈ rs, ∃ b ∈ σ₁.live, r = .free b.ptr ∨ r = .tryFree b.ptr := by
      intro r' hr'
      obtain ⟨d, hd, freed'⟩ := frees r' (List.mem_cons_of_mem r hr')
      have target' : r'.target = some d.ptr := by rcases freed' with rfl | rfl <;> rfl
      refine ⟨d, live ▸ sound.mem_without.mpr ⟨hd, fun same => nodup.1 ?_⟩, freed'⟩
      rw [← same, ← target']
      exact List.mem_map_of_mem hr'
    obtain ⟨τ, run, soundτ, segments', live'⟩ := ih sound₁ nodup.2 still
    refine ⟨τ, ?_, soundτ, segments'.trans segments, fun d => ?_⟩
    · rw [serveAll, List.foldlM_cons, served]
      exact run
    · rw [live', besides, besides, List.mem_filter, List.mem_filter, live, sound.mem_without,
        List.map_cons, target]
      simp [and_assoc]

/-- The blocks of a session after some blocks were freed. -/
theorem Sound.freed_blocks {rs : List Request} (sound : σ.Sound C 0)
    (nodup : (rs.map Request.target).Nodup)
    (frees : ∀ r ∈ rs, ∃ b ∈ σ.live, r = .free b.ptr ∨ r = .tryFree b.ptr) :
    ∃ τ, σ.serveAll rs = .ok τ ∧ τ.heap.blocks τ.memory =
      .ok (arrange σ.heap.segments ((σ.besides rs).map Held.room)) := by
  obtain ⟨τ, run, soundτ, segments, live⟩ := sound.serveAll_frees nodup frees
  refine ⟨τ, run, segments ▸ soundτ.blocks_eq fun e => ?_⟩
  rw [rooms, Multiset.mem_coe, List.mem_map, List.mem_map]
  simp only [live]

/-- A block that is handed out without growth and freed again was never there. -/
theorem Sound.free_malloc (sound : σ.Sound C 0) {n p : Nat} {s : Store (Heap γ)}
    (run : malloc n ⟨σ.heap, σ.memory⟩ = .ok p s) (ungrown : s.part.growths = σ.heap.growths) :
    ∃ s', free p s = .ok () s' ∧ s'.part.blocks s'.memory = σ.heap.blocks σ.memory := by
  obtain ⟨size, w⟩ := malloc_ungrown sound.alone run ungrown
  obtain ⟨h', m', freed, w'⟩ := free_run w.lends
  refine ⟨⟨h', m'⟩, freed, ?_⟩
  have segments : h'.segments = σ.heap.segments := by rw [w'.same, w.same]
  obtain ⟨parts, o, same⟩ := w'.lends
  have lends : ∀ e, e ∈ σ.live.map Held.room ↔ e ∈ lent (blocksIn parts) := by
    intro e
    rw [same]
    exact Iff.rfl
  exact (o.blocks_eq_arrange lends).trans (segments ▸ sound.blocks_eq fun e => Iff.rfl).symm

end Session

/-- With nothing lent every segment is one gap. -/
theorem arrange_nil {segments : List Segment} (legal : ∀ s ∈ segments, s.Legal) :
    arrange segments [] = segments.map fun s => ⟨s.first, s.usable, false⟩ := by
  rw [arrange, List.map_eq_flatMap]
  refine List.flatMap_congr fun s hs => ?_
  rw [Segment.arrange, List.map_nil, List.filter_nil, List.dedup_nil, List.mergeSort_nil]
  exact gap_of_pos (Nat.lt_of_lt_of_le (by decide) (legal s hs).usable_pos)

/-- **The layout of a heap is canonical.** After every run the blocks that a walk meets are those
that its segments and what its clients hold determine: the free ones are the gaps, and all runs that
end with the same segments and the same held blocks end with the same blocks. So blocks may be freed
in any order, a block that comes without growth and goes again leaves no trace, and without held
blocks every segment is one free block. -/
theorem reachable_canonical [GrowthSource γ] {C : GrowthContract γ} {σ : Session γ}
    (reachable : Reachable C σ) :
    (∃ bs, σ.heap.blocks σ.memory = .ok bs ∧
        bs = arrange σ.heap.segments (σ.live.map Held.room) ∧
        ∀ a n, ⟨a, n, false⟩ ∈ bs ↔ ∃ s ∈ σ.heap.segments, IsGap s σ.rooms a (a + n)) ∧
      (∀ {δ : Type} [GrowthSource δ] {D : GrowthContract δ} {τ : Session δ}, Reachable D τ →
        τ.heap.segments = σ.heap.segments → (∀ e, e ∈ τ.rooms ↔ e ∈ σ.rooms) →
        τ.heap.blocks τ.memory = σ.heap.blocks σ.memory) ∧
      (∀ rs rs' : List Request, rs.Perm rs' → (rs.map Request.target).Nodup →
        (∀ r ∈ rs, ∃ b ∈ σ.live, r = .free b.ptr ∨ r = .tryFree b.ptr) →
        ∃ τ τ', σ.serveAll rs = .ok τ ∧ σ.serveAll rs' = .ok τ' ∧
          τ.heap.blocks τ.memory = τ'.heap.blocks τ'.memory ∧
          τ.heap.blocks τ.memory =
            .ok (arrange σ.heap.segments ((σ.besides rs).map Held.room))) ∧
      (∀ n p s, malloc n ⟨σ.heap, σ.memory⟩ = .ok p s → s.part.growths = σ.heap.growths →
        ∃ s', free p s = .ok () s' ∧ s'.part.blocks s'.memory = σ.heap.blocks σ.memory) ∧
      (σ.live = [] → σ.heap.blocks σ.memory =
        .ok (σ.heap.segments.map fun s => ⟨s.first, s.usable, false⟩)) := by
  have sound := reachable.sound
  have here : σ.heap.blocks σ.memory =
      .ok (arrange σ.heap.segments (σ.live.map Held.room)) := sound.blocks_eq fun e => Iff.rfl
  obtain ⟨parts, o, rooms⟩ := sound.alone.lends
  refine ⟨?gaps, ?runs, ?frees, fun n p s => sound.free_malloc, fun none => ?emptied⟩
  case gaps =>
    have walked : arrange σ.heap.segments (σ.live.map Held.room) = blocksIn parts :=
      Except.ok.inj (here.symm.trans o.blocks_eq)
    exact ⟨_, here, rfl, fun a n => by rw [walked, ← rooms]; exact o.free_iff⟩
  case runs =>
    intro δ _ D τ reached segments same
    rw [reached.sound.blocks_eq fun e => (same e).symm, segments]
    exact here.symm
  case frees =>
    intro rs rs' perm nodup frees
    obtain ⟨τ, run, blocks⟩ := sound.freed_blocks nodup frees
    obtain ⟨τ', run', blocks'⟩ := sound.freed_blocks ((perm.map _).nodup_iff.mp nodup)
      fun r hr => frees r (perm.mem_iff.mpr hr)
    rw [← Session.besides_perm perm] at blocks'
    exact ⟨τ, τ', run, run', blocks.trans blocks'.symm, blocks⟩
  case emptied =>
    rw [here, none, List.map_nil, arrange_nil o.legal]

theorem reachable_canonical_two : ∃ σ τ τ' : Session NoGrowth,
    σ.live = [⟨4144, 8⟩, ⟨4112, 24⟩] ∧ σ.serveAll [.free 4144, .tryFree 4112] = .ok τ ∧
      σ.serveAll [.tryFree 4112, .free 4144] = .ok τ' ∧
      τ.heap.blocks τ.memory = τ'.heap.blocks τ'.memory := by
  obtain ⟨σ, reachable, live, -⟩ := exists_reachable_two
  obtain ⟨-, -, frees, -⟩ := reachable_canonical reachable
  obtain ⟨τ, τ', run, run', same, -⟩ :=
    frees [.free 4144, .tryFree 4112] [.tryFree 4112, .free 4144] (.swap ..) (by decide)
      (by rw [live]; decide)
  exact ⟨σ, τ, τ', live, run, run', same⟩

end Heap

end LayeredMemory
