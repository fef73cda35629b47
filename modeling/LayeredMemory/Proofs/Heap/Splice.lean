import LayeredMemory.Proofs.Heap.Verdict

/-!
# Splices — changing some of the blocks that memory spells

Here, too, nothing is assumed about memory but that it spells the blocks of one segment. What is
spelled may be cut anywhere: the blocks behind the cut are spelled by themselves (`Spells.drop`),
and others may take their place (`Spells.graft`).

`fuse` joins free neighbours. Blocks that memory spells have none (`Spells.fuse_eq`), so only a
block that was vacated is joined, with at most one before it and one behind it (`Spells.before`,
`Spells.behind`).
-/

namespace LayeredMemory

/-! ### Vacating and fusing -/

/-- A block in front of others. If it and the first of these are free, they become one. -/
def BlockInfo.join (b : BlockInfo) : List BlockInfo → List BlockInfo
  | [] => [b]
  | d :: rest =>
    if b.allocated || d.allocated then b :: d :: rest
    else ⟨b.addr, b.size + d.size, false⟩ :: rest

/-- Joins all free neighbours. -/
def fuse (bs : List BlockInfo) : List BlockInfo :=
  bs.foldr BlockInfo.join []

/-- Frees the block with this payload. -/
def vacate (ptr : Nat) (bs : List BlockInfo) : List BlockInfo :=
  bs.map fun b => if Heap.payload b.addr = ptr then { b with allocated := false } else b

variable {m m' : Memory} {p q : Bool} {a c ptr stop : Nat} {b d : BlockInfo}
  {bs xs ys zs : List BlockInfo}

/-- Nothing is joined where no two neighbours are free. -/
theorem foldr_join (chain : (xs ++ zs).IsChain fun b d => b.allocated = true ∨ d.allocated = true) :
    xs.foldr BlockInfo.join zs = xs ++ zs := by
  induction xs with
  | nil => rfl
  | cons b xs ih =>
    rw [List.foldr_cons, ih chain.tail, List.cons_append]
    rw [List.cons_append] at chain
    cases rest : xs ++ zs with
    | nil => rfl
    | cons d rest' =>
      rw [rest] at chain
      refine if_pos ?_
      rw [Bool.or_eq_true]
      exact chain.rel

namespace BlockInfo

theorem Tagged.checked (h : b.Tagged m p) : b.Checked m p := by
  refine ⟨by rw [h.header, Tag.isPrevAllocated_make h.aligned], ?_, h.footer⟩
  cases live : b.allocated with
  | true => exact .inr rfl
  | false => exact .inl (h.apart live)

/-- The check of a block depends on its own bytes. -/
theorem Checked.congr (h : b.Checked m p) (pos : 16 ≤ b.size)
    (same : ∀ x, b.addr ≤ x → x < b.addr + b.size → m'.read x = m.read x) : b.Checked m' p := by
  refine ⟨?_, h.apart, fun free => ?_⟩
  · rw [Memory.readWord_congr fun x lo hi => same x lo (by omega), h.prev]
  · rw [Memory.readWord_congr fun x lo hi => same x (by omega) (by omega), h.footer free]

end BlockInfo

theorem blockAt_congr (same : m'.readWord a = m.readWord a) : Heap.blockAt m' a = Heap.blockAt m a := by
  unfold Heap.blockAt
  rw [same]

namespace Spells

/-! ### Where blocks are -/

theorem isChain (h : Spells m stop p a bs) :
    bs.IsChain fun b d => b.allocated = true ∨ d.allocated = true := by
  have chain := h.next
  unfold headers at chain
  exact chain.left_of_append.imp fun _ _ follows => follows.apart

/-- Blocks that memory spells have been fused. -/
theorem fuse_eq (h : Spells m stop p a bs) : fuse bs = bs :=
  (foldr_join ((List.append_nil bs).symm ▸ h.isChain)).trans (List.append_nil bs)

theorem head_addr (h : Spells m stop p a (b :: bs)) : b.addr = a := by
  rw [(cons_iff.mp h).1]
  rfl

/-- After a free block comes an allocated one. -/
theorem head_allocated (h : Spells m stop false a bs) : ∀ b ∈ bs.head?, b.allocated = true := by
  cases bs with
  | nil => nofun
  | cons b bs =>
    rintro _ ⟨⟩
    exact (cons_iff.mp h).2.2.1.apart.resolve_left Bool.false_ne_true

theorem mem_bounds (h : Spells m stop p a bs) (hb : b ∈ bs) :
    a ≤ b.addr ∧ b.addr + b.size ≤ stop ∧ 16 ≤ b.size := by
  induction bs generalizing p a with
  | nil => cases hb
  | cons d bs ih =>
    have addr := h.head_addr
    have total := h.total_eq
    obtain ⟨-, pos, -, rest⟩ := cons_iff.mp h
    rw [BlockInfo.total] at total
    cases hb with
    | head => omega
    | tail _ hb =>
      have := ih rest hb
      omega

theorem pairwise (h : Spells m stop p a bs) :
    bs.Pairwise fun b d => b.addr + b.size ≤ d.addr := by
  induction bs generalizing p a with
  | nil => exact .nil
  | cons b bs ih =>
    have rest := (cons_iff.mp h).2.2.2
    rw [← h.head_addr] at rest
    exact .cons (fun d hd => (rest.mem_bounds hd).1) (ih rest)

/-- A block is known by its address. -/
theorem eq_of_addr (h : Spells m stop p a bs) (hb : b ∈ bs) (hd : d ∈ bs) (e : b.addr = d.addr) :
    b = d := by
  have := (h.mem_bounds hb).2.2
  have := (h.mem_bounds hd).2.2
  exact BlockInfo.eq_of_apart (x := b.addr) (h.pairwise.imp .inl) hb hd (by omega) (by omega)

/-- Only the block with the payload is vacated. -/
theorem vacate_eq (h : Spells m stop p a (xs ++ b :: ys)) :
    vacate (Heap.payload b.addr) (xs ++ b :: ys) = xs ++ ⟨b.addr, b.size, false⟩ :: ys := by
  obtain ⟨-, behind, between⟩ := List.pairwise_append.mp h.pairwise
  have behind := (List.pairwise_cons.mp behind).1
  have large {d : BlockInfo} (hd : d ∈ xs ++ b :: ys) : 16 ≤ d.size := (h.mem_bounds hd).2.2
  have others {zs : List BlockInfo} (off : ∀ d ∈ zs, d.addr ≠ b.addr) :
      vacate (Heap.payload b.addr) zs = zs := by
    refine (List.map_congr_left fun d hd => ?_).trans (List.map_id zs)
    exact if_neg fun same => off d hd (Nat.add_right_cancel same)
  have first : vacate (Heap.payload b.addr) xs = xs := others fun d hd => by
    have := between d hd b List.mem_cons_self
    have := large (List.mem_append_left _ hd)
    omega
  have last : vacate (Heap.payload b.addr) ys = ys := others fun d hd => by
    have := behind d hd
    have := large (List.mem_append_right xs List.mem_cons_self)
    omega
  unfold vacate at first last ⊢
  rw [List.map_append, List.map_cons, first, last, if_pos rfl]

/-! ### Cutting and grafting -/

/-- The blocks behind a cut. -/
theorem drop (h : Spells m stop p a (xs ++ ys)) :
    Spells m stop (BlockInfo.flag p xs) (a + BlockInfo.total xs) ys := by
  induction xs generalizing p a with
  | nil => exact h
  | cons b xs ih =>
    rw [BlockInfo.total, ← Nat.add_assoc]
    exact ih (cons_iff.mp h).2.2.2

/-- **Other blocks behind a cut**: they need only be spelled by themselves, by a memory in which the
blocks before the cut are the same. -/
theorem graft (h : Spells m stop p a (xs ++ ys))
    (same : ∀ x, a ≤ x → x < a + BlockInfo.total xs → m'.read x = m.read x)
    (rest : Spells m' stop (BlockInfo.flag p xs) (a + BlockInfo.total xs) zs) :
    Spells m' stop p a (xs ++ zs) := by
  induction xs generalizing p a with
  | nil => exact rest
  | cons b xs ih =>
    have addr := h.head_addr
    obtain ⟨here, pos, checked, after⟩ := cons_iff.mp h
    rw [BlockInfo.total, ← Nat.add_assoc] at same rest
    have header : m'.readWord a = m.readWord a :=
      Memory.readWord_congr fun x lo hi => same x lo (by omega)
    refine cons_iff.mpr ⟨here.trans (blockAt_congr header).symm, pos, ?_,
      ih after (fun x lo hi => same x (by omega) hi) rest⟩
    exact checked.congr pos fun x lo hi => same x (by omega) (by omega)

/-- What is spelled depends on the bytes up to the end of the epilogue. -/
theorem congr (h : Spells m stop p a bs)
    (same : ∀ x, a ≤ x → x < stop + 8 → m'.read x = m.read x) : Spells m' stop p a bs := by
  have total := h.total_eq
  rw [← List.append_nil bs] at h ⊢
  refine h.graft (fun x lo hi => same x lo (by omega)) ?_
  obtain ⟨meets, epilogue⟩ := nil_iff.mp h.drop
  have kept : m'.readWord stop = m.readWord stop :=
    Memory.readWord_congr fun x lo hi => same x (by omega) hi
  exact nil_iff.mpr ⟨meets, kept ▸ epilogue⟩

/-- **The next header hears of a new predecessor.** Only a free block minds which it is. -/
theorem reprev (h : Spells m stop p a bs) (same : m.ChangedWithin m' c (a + 8))
    (header : m'.readWord a = Tag.withPrev (m.readWord a) q)
    (apart : q = false → ∀ b ∈ bs.head?, b.allocated = true) : Spells m' stop q a bs := by
  cases bs with
  | nil =>
    obtain ⟨rfl, epilogue, -⟩ := nil_iff.mp h
    refine nil_iff.mpr ⟨rfl, ?_, by rw [header, Tag.isPrevAllocated_withPrev]⟩
    rw [Tag.isEpilogue, header, Tag.size_withPrev, Tag.isAllocated_withPrev]
    exact epilogue
  | cons b bs =>
    obtain ⟨rfl, pos, checked, rest⟩ := cons_iff.mp h
    have addr : (Heap.blockAt m a).addr = a := rfl
    refine cons_iff.mpr ⟨?_, pos, ⟨?_, ?_, fun free => ?_⟩,
      rest.congr fun x lo hi => same x (by omega)⟩
    · unfold Heap.blockAt
      rw [header, Tag.size_withPrev, Tag.isAllocated_withPrev]
    · rw [addr, header, Tag.isPrevAllocated_withPrev]
    · cases q with
      | true => exact .inl rfl
      | false => exact .inr (apart rfl _ rfl)
    · rw [same.readWord (by omega), checked.footer free]

/-- **Payloads are free to hold anything.** -/
theorem write (h : Spells m stop p a (xs ++ b :: ys)) (live : b.allocated = true)
    (changed : m.ChangedWithin m' (b.addr + 8) (b.addr + b.size)) :
    Spells m' stop p a (xs ++ b :: ys) := by
  have addr := h.drop.head_addr
  obtain ⟨here, pos, checked, rest⟩ := cons_iff.mp h.drop
  refine h.graft (fun x lo hi => changed x (by omega)) (cons_iff.mpr ⟨?_, pos, ⟨?_, ?_, ?_⟩, ?_⟩)
  · rw [blockAt_congr (changed.readWord (by omega)), ← here]
  · rw [changed.readWord (by omega), checked.prev]
  · exact .inr live
  · intro free
    rw [live] at free
    cases free
  · exact rest.congr fun x lo hi => changed x (by omega)

/-! ### Free neighbours -/

/-- The free block behind a boundary, if there is one, is what a free block before it is fused
with. -/
theorem behind (h : Spells m stop true a ys) : ∃ rest n r,
    (∀ addr size, fuse (⟨addr, size, false⟩ :: ys) = ⟨addr, size + n, false⟩ :: rest) ∧
      (n = if Tag.isAllocated (m.readWord a) = true then 0 else Tag.size (m.readWord a)) ∧
      Spells m stop r (a + n) rest ∧ ∀ d ∈ rest.head?, d.allocated = true := by
  cases ys with
  | nil =>
    obtain ⟨rfl, epilogue, -⟩ := nil_iff.mp h
    rw [Tag.isEpilogue, Bool.and_eq_true] at epilogue
    refine ⟨[], 0, true, fun _ _ => rfl, by rw [if_pos epilogue.2], h, fun d hd => ?_⟩
    cases hd
  | cons l ys =>
    obtain ⟨here, -, -, rest⟩ := cons_iff.mp h
    have size : Tag.size (m.readWord a) = l.size := by rw [here]; rfl
    have allocated : Tag.isAllocated (m.readWord a) = l.allocated := by rw [here]; rfl
    have fused : (l :: ys).foldr BlockInfo.join [] = l :: ys := h.fuse_eq
    rw [size, allocated]
    cases live : l.allocated with
    | true =>
      refine ⟨l :: ys, 0, true, fun addr size => ?_, rfl, h, ?_⟩
      · rw [fuse, List.foldr_cons, fused, BlockInfo.join, live]
        rfl
      · rintro _ ⟨⟩
        exact live
    | false =>
      rw [live] at rest
      refine ⟨ys, l.size, false, fun addr size => ?_, rfl, rest, rest.head_allocated⟩
      rw [fuse, List.foldr_cons, fused, BlockInfo.join, live]
      rfl

theorem flag_concat : BlockInfo.flag p (xs ++ [b]) = b.allocated := by
  rw [BlockInfo.flag, List.foldl_append]
  rfl

/-- The free block before another block, if there is one, is fused with that. -/
theorem before (h : Spells m stop true a (xs ++ b :: ys)) (fits : stop < Word.bound) :
    ∃ front old start k, Heap.StartsAt m b.addr start k ∧ xs = front ++ old ∧
      start = a + BlockInfo.total front ∧ BlockInfo.flag true front = true ∧
      ∀ size rest, xs.foldr BlockInfo.join (⟨b.addr, size, false⟩ :: rest) =
        front.foldr BlockInfo.join (⟨start, k + size, false⟩ :: rest) := by
  have addr := h.drop.head_addr
  have total := h.drop.total_eq
  obtain ⟨here, -, checked, -⟩ := cons_iff.mp h.drop
  have prev := checked.prev
  cases flag : BlockInfo.flag true xs with
  | true =>
    rw [flag] at prev
    exact ⟨xs, [], b.addr, 0, .self prev, (List.append_nil xs).symm, addr, flag,
      fun size rest => by rw [Nat.zero_add]⟩
  | false =>
    rw [flag] at prev
    rcases List.eq_nil_or_concat' xs with rfl | ⟨front, f, rfl⟩
    · cases flag
    rw [flag_concat] at flag
    rw [List.append_assoc] at h
    have f_addr := h.drop.head_addr
    obtain ⟨f_here, f_pos, f_checked, f_rest⟩ := cons_iff.mp h.drop
    have front_flag := f_checked.apart.resolve_right (flag ▸ Bool.false_ne_true)
    have meets := f_rest.head_addr
    refine ⟨front, [f], f.addr, f.size, .before prev ?_ ?_ ?_ ?_ ?_, rfl, f_addr, front_flag,
      fun size rest => ?_⟩
    · omega
    · omega
    · rw [← f_checked.footer flag]
      congr 1
      omega
    · rw [f_addr, f_here]
      rfl
    · rw [f_checked.prev, front_flag]
    · rw [List.foldr_append, List.foldr_cons, List.foldr_nil, BlockInfo.join, flag]
      rfl

end Spells

end LayeredMemory
