import LayeredMemory.Heap.Walk
import LayeredMemory.Proofs.Heap.Tag
import Mathlib.Data.List.Chain
import Mathlib.Data.List.Pairwise

/-!
# Tiling — blocks without gaps

`Row m p a bs q c` says that in `m` the blocks `bs` lie one after the other from `a` to `c`, each
with its tags in order, where `p` tells whether the block before `a` is allocated and `q` whether
the last one is. A segment is `Tiled` when such a row leads from its first header to its epilogue.

* `walk_of_tiled`: a walk over a tiled segment succeeds and meets exactly its blocks.
* `Row.frame`, `Tiled.frame`: tags say nothing about the payloads of allocated blocks.
* `Tiled.replace`: a row in the middle makes room for another one of the same length, if the header
  behind it hears of the new last block. Every change that a heap makes to a segment is of this
  kind.
-/

namespace LayeredMemory

/-- The tags of a block in order, after a block that is allocated or not. -/
structure BlockInfo.Tagged (m : Memory) (prev : Bool) (b : BlockInfo) : Prop where
  header : m.readWord b.addr = Tag.make b.size b.allocated prev
  aligned : 16 ∣ b.size
  pos : 16 ≤ b.size
  apart : b.allocated = false → prev = true
  footer : b.allocated = false → m.readWord (b.addr + (b.size - 8)) = b.size

/-- Whether the last of some blocks is allocated; without blocks, what is said before them. -/
def BlockInfo.flag (p : Bool) (bs : List BlockInfo) : Bool :=
  bs.foldl (fun _ b => b.allocated) p

/-- Blocks one after the other, from one address to another. -/
inductive Row (m : Memory) : Bool → Nat → List BlockInfo → Bool → Nat → Prop where
  | nil (p : Bool) (a : Nat) : Row m p a [] p a
  | cons {p q : Bool} {c : Nat} {b : BlockInfo} {bs : List BlockInfo} (tagged : b.Tagged m p)
      (rest : Row m b.allocated (b.addr + b.size) bs q c) : Row m p b.addr (b :: bs) q c

/-- Blocks one after the other from an address to the epilogue at `stop`. -/
def Tiled (m : Memory) (stop : Nat) (p : Bool) (a : Nat) (bs : List BlockInfo) : Prop :=
  ∃ q, Row m p a bs q stop ∧ m.readWord stop = Tag.make 0 true q

/-- The address lies in the payload of an allocated block. -/
def Loose (bs : List BlockInfo) (x : Nat) : Prop :=
  ∃ b ∈ bs, b.allocated = true ∧ b.addr + 8 ≤ x ∧ x < b.addr + b.size

/-- One free block between two addresses, if they are not the same. -/
def gap (a c : Nat) : List BlockInfo :=
  if a < c then [⟨a, c - a, false⟩] else []

/-- What a free block becomes when its low `need` bytes are lent: an allocated block, and a free one
of the rest, if there is a rest. -/
def BlockInfo.carve (b : BlockInfo) (need : Nat) : List BlockInfo :=
  ⟨b.addr, need, true⟩ :: gap (b.addr + need) (b.addr + b.size)

variable {m m' : Memory} {p q : Bool} {a c stop : Nat} {b : BlockInfo} {bs xs ys : List BlockInfo}

/-- Of blocks that lie apart, two that share a byte are the same. -/
theorem BlockInfo.eq_of_apart {d : BlockInfo} {x : Nat}
    (apart : bs.Pairwise fun b d => b.addr + b.size ≤ d.addr ∨ d.addr + d.size ≤ b.addr)
    (hb : b ∈ bs) (hd : d ∈ bs) (in_b : b.addr ≤ x ∧ x < b.addr + b.size)
    (in_d : d.addr ≤ x ∧ x < d.addr + d.size) : b = d := by
  have : Std.Symm fun b d : BlockInfo => b.addr + b.size ≤ d.addr ∨ d.addr + d.size ≤ b.addr :=
    ⟨fun _ _ => Or.symm⟩
  by_contra ne
  have := apart.forall hb hd ne
  omega

@[simp] theorem gap_self : gap a a = [] :=
  if_neg (Nat.lt_irrefl a)

theorem gap_of_pos {n : Nat} (pos : 0 < n) : gap a (a + n) = [⟨a, n, false⟩] := by
  rw [gap, if_pos (Nat.lt_add_of_pos_right pos), Nat.add_sub_cancel_left]

theorem BlockInfo.Tagged.congr (h : b.Tagged m p)
    (header : m'.readWord b.addr = m.readWord b.addr)
    (footer : b.allocated = false →
      m'.readWord (b.addr + (b.size - 8)) = m.readWord (b.addr + (b.size - 8))) :
    b.Tagged m' p :=
  ⟨header.trans h.header, h.aligned, h.pos, h.apart,
    fun free => (footer free).trans (h.footer free)⟩

theorem BlockInfo.Tagged.of_allocated {size : Nat} (header : m.readWord a = Tag.make size true p)
    (aligned : 16 ∣ size) (pos : 16 ≤ size) : BlockInfo.Tagged m p ⟨a, size, true⟩ :=
  ⟨header, aligned, pos, nofun, nofun⟩

theorem BlockInfo.Tagged.of_free {size : Nat} (header : m.readWord a = Tag.make size false true)
    (footer : m.readWord (a + (size - 8)) = size) (aligned : 16 ∣ size) (pos : 16 ≤ size) :
    BlockInfo.Tagged m true ⟨a, size, false⟩ :=
  ⟨header, aligned, pos, fun _ => rfl, fun _ => footer⟩

/-- After a free block comes an allocated one. -/
theorem BlockInfo.Tagged.allocated (h : b.Tagged m false) : b.allocated = true := by
  cases live : b.allocated with
  | true => rfl
  | false => cases h.apart live

namespace Row

/-! ### Where the blocks of a row are -/

theorem single (h : b.Tagged m p) : Row m p b.addr [b] b.allocated (b.addr + b.size) :=
  .cons h (.nil _ _)

theorem uncons (h : Row m p a (b :: bs) q c) :
    a = b.addr ∧ b.Tagged m p ∧ Row m b.allocated (b.addr + b.size) bs q c := by
  cases h with
  | cons tagged rest => exact ⟨rfl, tagged, rest⟩

theorem eq_of_nil (h : Row m p a [] q c) : p = q ∧ a = c := by
  cases h
  exact ⟨rfl, rfl⟩

theorem append {r : Bool} {d : Nat} (h : Row m p a xs q c) (h' : Row m q c ys r d) :
    Row m p a (xs ++ ys) r d := by
  induction h with
  | nil => exact h'
  | cons tagged _ ih => exact .cons tagged (ih h')

theorem split (h : Row m p a (xs ++ ys) q c) :
    ∃ r d, Row m p a xs r d ∧ Row m r d ys q c := by
  induction xs generalizing p a with
  | nil => exact ⟨p, a, .nil p a, h⟩
  | cons b xs ih =>
    cases h with
    | cons tagged rest =>
      obtain ⟨r, d, front, back⟩ := ih rest
      exact ⟨r, d, .cons tagged front, back⟩

theorem end_eq (h : Row m p a bs q c) : c = a + BlockInfo.total bs := by
  induction h with
  | nil => rfl
  | cons _ _ ih => rw [BlockInfo.total, ih, Nat.add_assoc]

theorem le (h : Row m p a bs q c) : a ≤ c :=
  h.end_eq ▸ Nat.le_add_right a _

theorem mem_bounds (h : Row m p a bs q c) (hb : b ∈ bs) :
    a ≤ b.addr ∧ b.addr + b.size ≤ c ∧ 16 ≤ b.size ∧ 16 ∣ b.size := by
  induction h with
  | nil => cases hb
  | cons tagged rest ih =>
    have := rest.le
    cases hb with
    | head => exact ⟨Nat.le_refl _, this, tagged.pos, tagged.aligned⟩
    | tail _ hb =>
      obtain ⟨lo, hi⟩ := ih hb
      exact ⟨by omega, hi⟩

/-- The blocks lie in order and do not overlap. -/
theorem pairwise (h : Row m p a bs q c) : bs.Pairwise fun b d => b.addr + b.size ≤ d.addr := by
  induction h with
  | nil => exact .nil
  | cons _ rest ih => exact .cons (fun d hd => (rest.mem_bounds hd).1) ih

/-- Headers keep their distance from the boundaries of payloads. -/
theorem mem_aligned (h : Row m p a bs q c) (ha : a % 16 = 8) (hb : b ∈ bs) : b.addr % 16 = 8 := by
  induction h with
  | nil => cases hb
  | cons tagged rest ih =>
    have := tagged.aligned
    cases hb with
    | head => exact ha
    | tail _ hb => exact ih (by omega) hb

/-- No free block is next to another. -/
theorem isChain (h : Row m p a bs q c) :
    bs.IsChain fun b d => b.allocated = true ∨ d.allocated = true := by
  induction h with
  | nil => exact .nil
  | @cons _ _ _ b bs _ rest ih =>
    cases bs with
    | nil => exact .singleton b
    | cons d bs =>
      refine .cons_cons ?_ ih
      cases free : d.allocated with
      | true => exact .inr rfl
      | false => exact .inl (rest.uncons.2.1.apart free)

/-- A row that ends free, but does not start after a free block, has a free block at its end. -/
theorem exists_last (h : Row m true a xs false c) :
    ∃ front f r, xs = front ++ [f] ∧ Row m true a front r f.addr ∧ f.Tagged m r ∧
      f.allocated = false ∧ f.addr + f.size = c := by
  rcases List.eq_nil_or_concat' xs with rfl | ⟨front, f, rfl⟩
  · cases h.eq_of_nil.1
  · obtain ⟨r, d, before, last⟩ := h.split
    obtain ⟨rfl, tagged, rest⟩ := last.uncons
    obtain ⟨free, meets⟩ := rest.eq_of_nil
    exact ⟨front, f, r, rfl, before, tagged, free, meets⟩

/-- What a row ends with is known from its blocks. -/
theorem flag_eq (h : Row m p a bs q c) : q = BlockInfo.flag p bs := by
  induction h with
  | nil => rfl
  | cons _ _ ih => exact ih

/-! ### Frames -/

/-- A row does not depend on the payloads of its allocated blocks, nor on anything outside. -/
theorem frame (h : Row m p a bs q c)
    (same : ∀ x, a ≤ x → x < c → ¬Loose bs x → m'.read x = m.read x) : Row m' p a bs q c := by
  induction h with
  | nil p a => exact .nil p a
  | @cons p q c b bs tagged rest ih =>
    have := tagged.pos
    have := rest.le
    -- The tail starts behind `b`, so `b`'s own payload is all that can be loose in `b`.
    have only : ∀ x, x < b.addr + b.size → Loose (b :: bs) x →
        b.allocated = true ∧ b.addr + 8 ≤ x := by
      rintro x hx ⟨d, hd, live, lo, -⟩
      cases hd with
      | head => exact ⟨live, lo⟩
      | tail _ hd => have := (rest.mem_bounds hd).1; omega
    have header : m'.readWord b.addr = m.readWord b.addr :=
      Memory.readWord_congr fun x lo hi => same x lo (by omega) fun l => by
        have := (only x (by omega) l).2
        omega
    have footer (free : b.allocated = false) :
        m'.readWord (b.addr + (b.size - 8)) = m.readWord (b.addr + (b.size - 8)) :=
      Memory.readWord_congr fun x lo hi => same x (by omega) (by omega) fun l => by
        rw [(only x (by omega) l).1] at free
        cases free
    refine .cons (tagged.congr header footer)
      (ih fun x lo hi l => same x (by omega) hi fun l' => ?_)
    -- What is loose behind `b` is so because of a block of the tail.
    obtain ⟨d, hd, live, h₁, h₂⟩ := l'
    cases hd with
    | head => omega
    | tail _ hd => exact l ⟨d, hd, live, h₁, h₂⟩

/-- A row outside a changed interval stays. -/
theorem frame_outside {lo hi : Nat} (h : Row m p a bs q c) (changed : m.ChangedWithin m' lo hi)
    (off : c ≤ lo ∨ hi ≤ a) : Row m' p a bs q c :=
  h.frame fun x _ _ _ => changed x (by omega)

end Row

namespace Tiled

/-! ### Segments -/

theorem split (h : Tiled m stop p a (xs ++ ys)) :
    ∃ r d, Row m p a xs r d ∧ Tiled m stop r d ys := by
  obtain ⟨q, row, epilogue⟩ := h
  obtain ⟨r, d, front, back⟩ := row.split
  exact ⟨r, d, front, q, back, epilogue⟩

theorem split_cons (h : Tiled m stop p a (xs ++ b :: ys)) :
    ∃ r, Row m p a xs r b.addr ∧ b.Tagged m r ∧ Tiled m stop b.allocated (b.addr + b.size) ys := by
  obtain ⟨r, d, front, q, row, epilogue⟩ := h.split
  obtain ⟨rfl, tagged, rest⟩ := row.uncons
  exact ⟨r, front, tagged, q, rest, epilogue⟩

theorem prepend (front : Row m p a xs q c) (h : Tiled m stop q c ys) :
    Tiled m stop p a (xs ++ ys) := by
  obtain ⟨r, row, epilogue⟩ := h
  exact ⟨r, front.append row, epilogue⟩

theorem le (h : Tiled m stop p a bs) : a ≤ stop := by
  obtain ⟨q, row, -⟩ := h
  exact row.le

theorem mem_bounds (h : Tiled m stop p a bs) (hb : b ∈ bs) :
    a ≤ b.addr ∧ b.addr + b.size ≤ stop ∧ 16 ≤ b.size ∧ 16 ∣ b.size := by
  obtain ⟨q, row, -⟩ := h
  exact row.mem_bounds hb

/-- What is left of a segment starts at a block or at the epilogue. -/
theorem start_mem (h : Tiled m stop p a bs) : a = stop ∨ ∃ b ∈ bs, b.addr = a := by
  obtain ⟨q, row, -⟩ := h
  cases row with
  | nil => exact .inl rfl
  | cons => exact .inr ⟨_, List.mem_cons_self, rfl⟩

theorem frame (h : Tiled m stop p a bs)
    (same : ∀ x, a ≤ x → x < stop + 8 → ¬Loose bs x → m'.read x = m.read x) :
    Tiled m' stop p a bs := by
  obtain ⟨q, row, epilogue⟩ := h
  have := row.le
  refine ⟨q, row.frame fun x lo hi l => same x lo (by omega) l, ?_⟩
  rw [Memory.readWord_congr fun x lo hi => same x (by omega) hi ?_, epilogue]
  rintro ⟨b, hb, -, -, inside⟩
  have := (row.mem_bounds hb).2.1
  omega

theorem frame_outside {lo hi : Nat} (h : Tiled m stop p a bs) (changed : m.ChangedWithin m' lo hi)
    (off : stop + 8 ≤ lo ∨ hi ≤ a) : Tiled m' stop p a bs :=
  h.frame fun x _ _ _ => changed x (by omega)

/-- The word at the start of what is left of a segment is a header. -/
theorem header (h : Tiled m stop p a bs) :
    ∃ size allocated, m.readWord a = Tag.make size allocated p ∧ 16 ∣ size ∧ a + size ≤ stop := by
  obtain ⟨q, row, epilogue⟩ := h
  cases row with
  | nil => exact ⟨0, true, epilogue, ⟨0, rfl⟩, Nat.le_refl _⟩
  | cons tagged rest => exact ⟨_, _, tagged.header, tagged.aligned, rest.le⟩

theorem withPrev_self (h : Tiled m stop p a bs) : Tag.withPrev (m.readWord a) p = m.readWord a := by
  obtain ⟨size, allocated, header, aligned, -⟩ := h.header
  rw [header, Tag.withPrev_make aligned]

theorem head_allocated (h : Tiled m stop false a bs) : ∀ b ∈ bs.head?, b.allocated = true := by
  obtain ⟨q, row, -⟩ := h
  intro b hb
  obtain ⟨ys, rfl⟩ : ∃ ys, bs = b :: ys := List.head?_eq_some_iff.mp hb
  exact row.uncons.2.1.allocated

/-- **The next header hears of a new predecessor.** Only a free block minds which it is. -/
theorem reprev (h : Tiled m stop p a bs) (same : m.ChangedWithin m' c (a + 8)) (hc : c ≤ a)
    (header : m'.readWord a = Tag.withPrev (m.readWord a) q)
    (apart : q = false → ∀ b ∈ bs.head?, b.allocated = true) : Tiled m' stop q a bs := by
  obtain ⟨r, row, epilogue⟩ := h
  cases row with
  | nil =>
    refine ⟨q, .nil _ _, ?_⟩
    rw [header, epilogue, Tag.withPrev_make ⟨0, rfl⟩]
  | @cons _ _ _ b bs tagged rest =>
    have := tagged.pos
    have := rest.le
    -- Only the header changes: the footer and the rest of the row lie behind what was written.
    refine ⟨r, .cons ⟨?_, tagged.aligned, tagged.pos, fun free => ?_, fun free => ?_⟩
      (rest.frame_outside same (by omega)), ?_⟩
    · rw [header, tagged.header, Tag.withPrev_make tagged.aligned]
    · cases q with
      | true => rfl
      | false => rw [apart rfl b rfl] at free; cases free
    · rw [same.readWord (by omega), tagged.footer free]
    · rw [same.readWord (by omega), epilogue]

/-- **One row for another.** Between a front and a back that stay, a row is replaced by one that
ends where it did. -/
theorem replace {new : List BlockInfo} {r : Bool} {d : Nat} (front : Row m p a xs q c)
    (back : Tiled m stop r d ys) (changed : m.ChangedWithin m' c (d + 8)) {r' : Bool}
    (middle : Row m' q c new r' d) (header : m'.readWord d = Tag.withPrev (m.readWord d) r')
    (apart : r' = false → ∀ b ∈ ys.head?, b.allocated = true) :
    Tiled m' stop p a (xs ++ (new ++ ys)) :=
  ((back.reprev changed middle.le header apart).prepend middle).prepend
    (front.frame_outside changed (.inl (Nat.le_refl c)))

/-! ### Walks -/

theorem blockAt_eq (h : b.Tagged m p) : Heap.blockAt m b.addr = b := by
  unfold Heap.blockAt
  rw [h.header, Tag.size_make h.aligned, Tag.isAllocated_make h.aligned]

theorem checkBlock_eq (h : b.Tagged m p) : Heap.checkBlock m b.addr p = .ok () := by
  dsimp only [Heap.checkBlock]
  rw [h.header, Tag.size_make h.aligned, Tag.isAllocated_make h.aligned,
    Tag.isPrevAllocated_make h.aligned]
  cases free : b.allocated with
  | true => simp
  | false => simp [h.apart free, h.footer free, Word.bytes_eq]

theorem checkEpilogue_eq (h : m.readWord stop = Tag.make 0 true q) :
    Heap.checkEpilogue m stop q = .ok () := by
  dsimp only [Heap.checkEpilogue]
  rw [h, Tag.isEpilogue_make ⟨0, rfl⟩, Tag.isPrevAllocated_make ⟨0, rfl⟩]
  simp

end Tiled

/-- **A walk over a tiled segment** meets its blocks. -/
theorem walk_of_tiled (h : Tiled m stop p a bs) : Heap.walk m stop a p = .ok bs := by
  obtain ⟨q, row, epilogue⟩ := h
  -- The walk takes the row's steps, and carries the row's flag.
  induction row with
  | nil =>
    rw [Heap.walk, if_pos rfl, Tiled.checkEpilogue_eq epilogue]
    rfl
  | cons tagged rest ih =>
    have := tagged.pos
    have := rest.le
    rw [Heap.walk, if_neg (by omega), Tiled.blockAt_eq tagged,
      dif_pos ⟨tagged.pos, by omega⟩, Tiled.checkBlock_eq tagged]
    show (do let rest ← Heap.walk m _ _ _; return _ :: rest) = _
    rw [ih epilogue]
    rfl

end LayeredMemory
