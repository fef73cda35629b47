import LayeredMemory.Heap.Exchange
import LayeredMemory.Proofs.Heap.Order
import Mathlib.Data.Finset.Card
import Mathlib.Data.List.TakeWhile
import Mathlib.Data.Nat.Find

/-!
# The search for a free block — what it finds

In a heap in order a scan stays on headers and meets every block from its start on, in order, until
it ends (`scan_eq`). So the whole search goes through the blocks in one order, the `circle`:

* `scan_endless_iff`: on any memory, a scan with `maxBlocks` steps ends whenever some number of
  steps makes it end.
* `InOrder.search_eq`: the search ends, with the first block of the circle that is free and large
  enough (`InOrder.findFit_eq`).
* `circle_perm`: the circle has every block of the heap once.
* `InOrder.findFit_sound`, `InOrder.findFit_eq_none_iff`: so a block is found exactly if there is
  one.
-/

namespace LayeredMemory

/-- The block is free and has at least `need` bytes. -/
def BlockInfo.fits (need : Nat) (b : BlockInfo) : Bool :=
  decide (b.allocated = false ∧ need ≤ b.size)

/-- All blocks in the order of a search: those of the cursor's segment from the cursor on, those of
the segments behind it and then of the ones before it, and last those before the cursor. -/
def circle : Option Nat → List Part → List BlockInfo
  | none, parts => blocksIn parts
  | some c, parts =>
    match parts.dropWhile (!·.1.spans c) with
    | [] => blocksIn parts
    | home :: behind =>
      home.2.filter (c ≤ ·.addr) ++ blocksIn (behind ++ parts.takeWhile (!·.1.spans c)) ++
        home.2.filter (·.addr < c)

variable {m : Memory} {stop a c need x : Nat} {p q : Bool} {b : BlockInfo} {bs : List BlockInfo}
  {parts before behind : List Part} {t home : Part}

theorem blocksIn_append : blocksIn (before ++ behind) = blocksIn before ++ blocksIn behind :=
  List.flatMap_append

theorem blocksIn_cons : blocksIn (t :: parts) = t.2 ++ blocksIn parts :=
  List.flatMap_cons

/-- The circle, where it is known which segment is the cursor's. -/
theorem circle_eq (off : ∀ t ∈ before, t.1.spans c = false) (at_home : home.1.spans c = true) :
    circle (some c) (before ++ home :: behind) =
      home.2.filter (c ≤ ·.addr) ++ blocksIn (behind ++ before) ++ home.2.filter (·.addr < c) := by
  have off : ∀ t ∈ before, (!t.1.spans c) = true := fun t ht => by rw [off t ht]; rfl
  have here : ¬(!home.1.spans c) = true := by rw [at_home]; exact Bool.false_ne_true
  have back : (before ++ home :: behind).dropWhile (!·.1.spans c) = home :: behind := by
    rw [List.dropWhile_append_of_pos off]
    exact List.dropWhile_cons_of_neg here
  have front : (before ++ home :: behind).takeWhile (!·.1.spans c) = before := by
    rw [List.takeWhile_append_of_pos off, List.takeWhile_cons_of_neg, List.append_nil]
    exact here
  rw [circle, back, front]

/-- **The circle has every block once.** -/
theorem circle_perm (cursor : Option Nat) (parts : List Part) :
    (circle cursor parts).Perm (blocksIn parts) := by
  unfold circle
  split
  · exact .refl _
  next c =>
    split
    · exact .refl _
    next home behind split =>
      have whole := List.takeWhile_append_dropWhile (p := (!·.1.spans c)) (l := parts)
      generalize parts.takeWhile (!·.1.spans c) = before at whole ⊢
      rw [split] at whole
      have halves : (home.2.filter (c ≤ ·.addr) ++ home.2.filter (·.addr < c)).Perm home.2 := by
        have := List.filter_append_perm (c ≤ ·.addr) home.2
        simpa only [← decide_not, Nat.not_le] using this
      rw [← whole, blocksIn_append, blocksIn_append, blocksIn_cons]
      -- The last blocks go to the first ones, and the segments before to the front.
      have together : (home.2.filter (c ≤ ·.addr) ++ (blocksIn behind ++ blocksIn before) ++
          home.2.filter (·.addr < c)).Perm (home.2 ++ (blocksIn behind ++ blocksIn before)) := by
        rw [List.append_assoc]
        refine (List.perm_append_comm.append_left _).trans ?_
        rw [← List.append_assoc]
        exact halves.append_right _
      refine together.trans ?_
      rw [← List.append_assoc]
      exact List.perm_append_comm

/-! ### Rows from one of their boundaries on -/

/-- Every block takes at least a granule. -/
theorem Row.length_le (h : Row m p a bs q c) : a + 16 * bs.length ≤ c := by
  induction h with
  | nil => exact Nat.le_refl _
  | cons tagged _ ih =>
    have := tagged.pos
    rw [List.length_cons]
    omega

/-- A segment is cut in two at each of its boundaries. -/
theorem Tiled.cut_at (h : Tiled m stop p a bs) (hc : c = stop ∨ ∃ b ∈ bs, b.addr = c) :
    ∃ q, Row m p a (bs.filter (·.addr < c)) q c ∧ Tiled m stop q c (bs.filter (c ≤ ·.addr)) ∧
      bs.filter (·.addr < c) ++ bs.filter (c ≤ ·.addr) = bs := by
  -- Which blocks are before a boundary is known as soon as there is some cut there.
  have cut {r : Bool} {xs ys : List BlockInfo} (front : Row m p a xs r c)
      (back : Tiled m stop r c ys) :
      (xs ++ ys).filter (·.addr < c) = xs ∧ (xs ++ ys).filter (c ≤ ·.addr) = ys := by
    have lower : ∀ b ∈ xs, b.addr < c := fun b hb => by
      have := front.mem_bounds hb
      omega
    have upper : ∀ b ∈ ys, c ≤ b.addr := fun b hb => (back.mem_bounds hb).1
    constructor
    · rw [List.filter_append, List.filter_eq_self.mpr fun b hb => decide_eq_true (lower b hb),
        List.filter_eq_nil_iff.mpr fun b hb => by simpa using upper b hb, List.append_nil]
    · rw [List.filter_append, List.filter_eq_self.mpr fun b hb => decide_eq_true (upper b hb),
        List.filter_eq_nil_iff.mpr fun b hb => by simpa using lower b hb, List.nil_append]
  rcases hc with rfl | ⟨b, hb, rfl⟩
  · obtain ⟨q, row, epilogue⟩ := h
    have back : Tiled m c q c [] := ⟨q, .nil _ _, epilogue⟩
    obtain ⟨lower, upper⟩ := cut row back
    rw [List.append_nil] at lower upper
    rw [lower, upper]
    exact ⟨q, row, back, List.append_nil bs⟩
  · obtain ⟨xs, ys, rfl⟩ := List.append_of_mem hb
    obtain ⟨r, d, front, back⟩ := h.split
    obtain rfl : d = b.addr := by
      obtain ⟨q, row, -⟩ := back
      exact row.uncons.1
    obtain ⟨lower, upper⟩ := cut front back
    rw [lower, upper]
    exact ⟨r, front, back, rfl⟩

namespace Heap

/-! ### Scans -/

/-- A scan that looks at `a` looks no further. -/
def EndsAt (m : Memory) (need : Nat) (limit : Option Nat) (a : Nat) : Prop :=
  (limit = some a ∨ Tag.isEpilogue (m.readWord a) = true) ∨
    (blockAt m a).allocated = false ∧ need ≤ (blockAt m a).size

/-- The steps of a scan are whole granules. -/
theorem nextBlock_aligned (aligned : 16 ∣ a) : 16 ∣ nextBlock m a := by
  have whole : 16 ∣ Word.bound := ⟨2 ^ 60, rfl⟩
  exact (Nat.dvd_mod_iff whole).mpr (Nat.dvd_add aligned (Tag.dvd_size _))

theorem nextBlock_lt : nextBlock m a < Word.bound :=
  Nat.mod_lt _ (by decide)

theorem iterate_nextBlock (aligned : 16 ∣ a) (word : a < Word.bound) (n : Nat) :
    16 ∣ (nextBlock m)^[n] a ∧ (nextBlock m)^[n] a < Word.bound := by
  induction n generalizing a with
  | zero => exact ⟨aligned, word⟩
  | succ n ih => exact ih (nextBlock_aligned aligned) nextBlock_lt

/-- A scan comes back exactly if it meets an end in the room it has. -/
theorem scan_ne_endless_iff {limit : Option Nat} {room : Nat} (word : a < Word.bound) :
    scan m need limit room a ≠ .endless ↔
      ∃ n < room, EndsAt m need limit ((nextBlock m)^[n] a) := by
  induction room generalizing a with
  | zero => exact ⟨fun h => absurd rfl h, fun ⟨n, lt, _⟩ => absurd lt n.not_lt_zero⟩
  | succ room ih =>
    rw [scan]
    split_ifs with past fit stuck
    · exact ⟨fun _ => ⟨0, room.succ_pos, .inl past⟩, fun _ => nofun⟩
    · exact ⟨fun _ => ⟨0, room.succ_pos, .inr fit⟩, fun _ => nofun⟩
    · -- What is followed by itself is not an end, now or later.
      have fixed : nextBlock m a = a := by
        unfold nextBlock
        rw [stuck]
        exact Word.after_eq word
      refine ⟨fun h => absurd rfl h, fun ⟨n, _, ends⟩ => ?_⟩
      rw [Function.iterate_fixed fixed] at ends
      exact (ends.elim past fit).elim
    · rw [ih nextBlock_lt]
      constructor
      · exact fun ⟨n, lt, ends⟩ => ⟨n + 1, Nat.succ_lt_succ lt, ends⟩
      · rintro ⟨_ | n, lt, ends⟩
        · exact (ends.elim past fit).elim
        · exact ⟨n, Nat.lt_of_succ_lt_succ lt, ends⟩

/-- Among the first `maxBlocks` headers of a scan is an end, if there is any. -/
theorem exists_endsAt_lt {limit : Option Nat} {n : Nat} (aligned : 16 ∣ a) (word : a < Word.bound)
    (ends : EndsAt m need limit ((nextBlock m)^[n] a)) :
    ∃ k < maxBlocks, EndsAt m need limit ((nextBlock m)^[k] a) := by
  classical
  have found : ∃ k, EndsAt m need limit ((nextBlock m)^[k] a) := ⟨n, ends⟩
  refine ⟨Nat.find found, Nat.lt_of_not_le fun far => ?_, Nat.find_spec found⟩
  -- Before the first end a scan would be at one of the granules twice, and so be there earlier.
  have granules : ∀ k ∈ Finset.range (maxBlocks + 1),
      (nextBlock m)^[k] a / 16 ∈ Finset.range maxBlocks := by
    intro k _
    have := (iterate_nextBlock (m := m) aligned word k).2
    have := Word.bound_eq
    rw [Finset.mem_range, maxBlocks, granule_eq]
    omega
  obtain ⟨i, hi, j, hj, ne, same⟩ :=
    Finset.exists_ne_map_eq_of_card_lt_of_maps_to (by simp) granules
  replace same : (nextBlock m)^[i] a = (nextBlock m)^[j] a :=
    (Nat.div_left_inj (iterate_nextBlock aligned word i).1 (iterate_nextBlock aligned word j).1).mp
      same
  rw [Finset.mem_range] at hi hj
  wlog lt : i < j generalizing i j
  · exact this j hj i hi ne.symm same.symm (by omega)
  refine Nat.find_min found (m := Nat.find found - j + i) (by omega) ?_
  rw [Function.iterate_add_apply, same, ← Function.iterate_add_apply, Nat.sub_add_cancel (by omega)]
  exact Nat.find_spec found

/-- **Steps are no limit.** A scan with `maxBlocks` steps does not come back only where one without
end would not: however far it went, it would meet no end. -/
theorem scan_endless_iff {limit : Option Nat} (aligned : 16 ∣ a) (word : a < Word.bound) :
    scan m need limit maxBlocks a = .endless ↔
      ∀ n, ¬EndsAt m need limit ((nextBlock m)^[n] a) := by
  rw [← not_iff_not, ← ne_eq, scan_ne_endless_iff word, not_forall_not]
  exact ⟨fun ⟨n, _, ends⟩ => ⟨n, ends⟩, fun ⟨_, ends⟩ => exists_endsAt_lt aligned word ends⟩

/-- **A scan** meets the blocks from its start on, and takes the first one that fits. It ends, and
looks at no more headers than there are. -/
theorem scan_eq {limit : Option Nat} {room : Nat} (h : Tiled m stop p a bs)
    (fits : stop < Word.bound) (enough : bs.length < room) :
    scan m need limit room a =
      .ended (((bs.takeWhile (limit ≠ some ·.addr)).find? (·.fits need)).map (·.addr)) := by
  obtain ⟨q, row, epilogue⟩ := h
  -- By the row: a scan goes from a block to the next one.
  induction row generalizing room with
  | nil p stop =>
    obtain ⟨room, rfl⟩ := Nat.exists_eq_succ_of_ne_zero (Nat.ne_zero_of_lt enough)
    have last : Tag.isEpilogue (m.readWord stop) = true := by
      rw [epilogue, Tag.isEpilogue_make ⟨0, rfl⟩]
      rfl
    rw [scan, if_pos (.inr last)]
    rfl
  | @cons p q c b bs tagged rest ih =>
    have := tagged.pos
    obtain ⟨room, rfl⟩ := Nat.exists_eq_succ_of_ne_zero (Nat.ne_zero_of_lt enough)
    have next : nextBlock m b.addr = b.addr + b.size := by
      unfold nextBlock
      rw [Tiled.blockAt_eq tagged]
      exact Word.after_eq (Nat.lt_of_le_of_lt rest.le fits)
    have header : Tag.isEpilogue (m.readWord b.addr) = false := by
      have : b.size ≠ 0 := by omega
      rw [tagged.header, Tag.isEpilogue_make tagged.aligned, beq_false_of_ne this, Bool.false_and]
    rw [scan, Tiled.blockAt_eq tagged, header, next,
      ih fits (Nat.lt_of_succ_lt_succ enough) epilogue]
    by_cases ends : limit = some b.addr
    · rw [if_pos (.inl ends), List.takeWhile_cons_of_neg (by simp [ends])]
      rfl
    rw [if_neg (by simp [ends]), List.takeWhile_cons_of_pos (by simp [ends])]
    by_cases fit : b.fits need
    · rw [if_pos (of_decide_eq_true fit), List.find?_cons_of_pos fit]
      rfl
    · rw [if_neg fun found => fit (decide_eq_true found), List.find?_cons_of_neg fit,
        if_neg (by omega)]

/-- A segment has fewer blocks than a scan has steps. -/
theorem length_lt_maxBlocks (h : Tiled m stop p a bs) (fits : stop < Word.bound) :
    bs.length < maxBlocks := by
  obtain ⟨q, row, -⟩ := h
  have := row.length_le
  have := Word.bound_eq
  rw [maxBlocks, granule_eq]
  omega

variable {room : Nat}

/-- A scan without a limit. -/
theorem scan_none_eq (h : Tiled m stop p a bs) (fits : stop < Word.bound)
    (enough : bs.length < room) :
    scan m need none room a = .ended ((bs.find? (·.fits need)).map (·.addr)) := by
  have all : bs.takeWhile (none ≠ some ·.addr) = bs :=
    List.takeWhile_eq_self_iff.mpr fun _ _ => decide_eq_true nofun
  rw [scan_eq h fits enough, all]

/-- A scan up to a boundary. -/
theorem scan_some_eq (h : Tiled m stop p a bs) (fits : stop < Word.bound)
    (hc : c = stop ∨ ∃ b ∈ bs, b.addr = c) (enough : bs.length < room) :
    scan m need (some c) room a =
      .ended (((bs.filter (·.addr < c)).find? (·.fits need)).map (·.addr)) := by
  obtain ⟨q, front, back, whole⟩ := h.cut_at hc
  have lower : ∀ b ∈ bs.filter (·.addr < c), decide (some c ≠ some b.addr) = true := by
    intro b hb
    have := of_decide_eq_true (List.mem_filter.mp hb).2
    exact decide_eq_true fun same => by cases same; omega
  have upper : (bs.filter (c ≤ ·.addr)).takeWhile (some c ≠ some ·.addr) = [] := by
    obtain ⟨r, row, -⟩ := back
    generalize bs.filter (c ≤ ·.addr) = ys at row
    cases row with
    | nil => rfl
    | cons => exact List.takeWhile_cons_of_neg (by simp)
  have all : bs.takeWhile (some c ≠ some ·.addr) = bs.filter (·.addr < c) := by
    conv_lhs => rw [← whole]
    rw [List.takeWhile_append_of_pos lower, upper, List.append_nil]
  rw [scan_eq h fits enough, all]

/-- Two searches that end, one after the other, find what the first of them finds. -/
theorem Search.ended_orElse (x y : Option Nat) :
    (Search.ended x).orElse (fun _ => .ended y) = .ended (x.or y) := by
  cases x <;> rfl

namespace InOrder

variable {γ : Type} {h : Heap γ}

theorem first_atBoundary (o : InOrder h m parts) (ht : t ∈ parts) : AtBoundary t t.1.first :=
  (o.tiled t ht).start_mem

/-- Where the cursor is. -/
theorem exists_home (o : InOrder h m parts) (cursor : h.cursor = some c) :
    ∃ before home behind, parts = before ++ home :: behind ∧
      (∀ t ∈ before, t.1.spans c = false) ∧ home.1.spans c = true ∧ AtBoundary home c := by
  obtain ⟨t, ht, boundary⟩ := o.cursor c cursor
  have spans : t.1.spans c = true := by
    have := (o.tiled t ht).le
    refine decide_eq_true ?_
    rcases boundary with rfl | ⟨b, hb, rfl⟩
    · omega
    · have := o.mem_bounds ht hb
      omega
  obtain ⟨home, found⟩ := Option.isSome_iff_exists.mp
    (List.find?_isSome (p := fun t : Part => t.1.spans c) |>.mpr ⟨t, ht, spans⟩)
  obtain ⟨at_home, before, behind, rfl, off⟩ := List.find?_eq_some_iff_append.mp found
  have mem : home ∈ before ++ home :: behind := List.mem_append_right _ List.mem_cons_self
  have inside := of_decide_eq_true at_home
  -- Only one segment has the cursor.
  have same : home = t := o.eq_of_mem_extent mem ht
    ((o.legal_of_mem mem).mem_extent inside.1 (by omega)) (o.boundary_mem_extent ht boundary)
  exact ⟨before, home, behind, rfl, fun u hu => by simpa using off u hu, at_home, same ▸ boundary⟩

/-- Segments one after the other, each searched from its first block on. -/
theorem scanEach_eq {us : List Part}
    (tiled : ∀ t ∈ us, Tiled m t.1.stop true t.1.first t.2 ∧ t.1.stop < Word.bound)
    (enough : ∀ t ∈ us, t.2.length < room) :
    scanEach m need room (us.map Prod.fst) =
      .ended (((blocksIn us).find? (·.fits need)).map (·.addr)) := by
  induction us with
  | nil => rfl
  | cons t us ih =>
    obtain ⟨here, fits⟩ := tiled t List.mem_cons_self
    have later := ih (fun u hu => tiled u (List.mem_cons_of_mem t hu))
      fun u hu => enough u (List.mem_cons_of_mem t hu)
    rw [List.map_cons, scanEach, later, scan_none_eq here fits (enough t List.mem_cons_self),
      Search.ended_orElse, blocksIn_cons, List.find?_append, Option.map_or]

/-- The search starts in the segment of the cursor. -/
theorem searchStart_eq {segments : List Segment} (cursor : h.cursor = some c)
    (split : h.segments = before.map Prod.fst ++ home.1 :: segments)
    (off : ∀ t ∈ before, t.1.spans c = false) (at_home : home.1.spans c = true) :
    h.searchStart = some (before.length, c) := by
  have none : (before.map Prod.fst).findIdx? (·.spans c) = none :=
    List.findIdx?_eq_none_iff.mpr (List.forall_mem_map.mpr off)
  have index : h.segments.findIdx? (·.spans c) = some before.length := by
    rw [split, List.findIdx?_append, none, List.findIdx?_cons, if_pos at_home]
    simp
  unfold searchStart
  cases segments : h.segments with
  | nil => rw [segments] at split; simp at split
  | cons s rest =>
    dsimp only
    rw [cursor, ← segments]
    dsimp only
    rw [index]

/-- **The search ends**, with the first block of the circle that is free and large enough. Its scans
need no more room than the segments have blocks. -/
theorem searchWithin_eq (o : InOrder h m parts) (need : Nat)
    (enough : ∀ t ∈ parts, t.2.length < room) :
    h.searchWithin room m need =
      .ended (((circle h.cursor parts).find? (·.fits need)).map (·.addr)) := by
  cases cursor : h.cursor with
  | none =>
    have empty : h.segments = [] := by rw [← o.segments, o.idle cursor]; rfl
    rw [o.idle cursor, searchWithin, searchStart, empty]
    rfl
  | some c =>
    obtain ⟨before, home, behind, rfl, off, at_home, boundary⟩ := o.exists_home cursor
    have segments : h.segments = before.map Prod.fst ++ home.1 :: behind.map Prod.fst := by
      rw [← o.segments, List.map_append, List.map_cons]
    have tiled : ∀ t ∈ before ++ home :: behind,
        Tiled m t.1.stop true t.1.first t.2 ∧ t.1.stop < Word.bound := fun t ht =>
      ⟨o.tiled t ht, Nat.lt_of_le_of_lt (Nat.le_add_right _ 8) (o.legal_of_mem ht).stop_lt⟩
    have mem : home ∈ before ++ home :: behind := List.mem_append_right _ List.mem_cons_self
    obtain ⟨here, fits⟩ := tiled home mem
    obtain ⟨q, -, rest, -⟩ := here.cut_at boundary
    have fewer : (home.2.filter (c ≤ ·.addr)).length < room :=
      Nat.lt_of_le_of_lt (List.length_filter_le ..) (enough home mem)
    have at_index : h.segments[before.length]? = some home.1 := by simp [segments]
    have others : h.segments.drop (before.length + 1) ++ h.segments.take before.length =
        (behind ++ before).map Prod.fst := by simp [segments, List.drop_append]
    have away : ∀ t ∈ behind ++ before, t ∈ before ++ home :: behind := fun t ht => by
      simp only [List.mem_append, List.mem_cons] at ht ⊢
      tauto
    rw [searchWithin, searchStart_eq cursor segments off at_home]
    dsimp only
    rw [at_index]
    dsimp only
    rw [others, scanEach_eq (fun t ht => tiled t (away t ht)) (fun t ht => enough t (away t ht)),
      scan_some_eq here fits boundary (enough home mem), scan_none_eq rest fits fewer,
      Search.ended_orElse, Search.ended_orElse, circle_eq off at_home, List.find?_append,
      List.find?_append, Option.map_or, Option.map_or, Option.or_assoc]

/-- No scan needs more steps than it has. -/
theorem length_lt_maxBlocks (o : InOrder h m parts) (ht : t ∈ parts) : t.2.length < maxBlocks :=
  Heap.length_lt_maxBlocks (o.tiled t ht)
    (Nat.lt_of_le_of_lt (Nat.le_add_right _ 8) (o.legal_of_mem ht).stop_lt)

/-- **The search ends**, as it is. -/
theorem search_eq (o : InOrder h m parts) (need : Nat) :
    h.search m need = .ended (((circle h.cursor parts).find? (·.fits need)).map (·.addr)) :=
  o.searchWithin_eq need fun _ => o.length_lt_maxBlocks

/-- **What the search finds** is the first block of the circle that is free and large enough. -/
theorem findFit_eq (o : InOrder h m parts) (need : Nat) :
    h.findFit m need = ((circle h.cursor parts).find? (·.fits need)).map (·.addr) :=
  congrArg Search.found? (o.search_eq need)

/-- A heap in order comes back from its search. -/
theorem seek_eq (o : InOrder h m parts) (need : Nat) :
    seek need ⟨h, m⟩ = .ok (h.findFit m need) ⟨h, m⟩ := by
  unfold seek
  rw [Action.part_bind, Action.memory_bind, o.search_eq, o.findFit_eq]
  rfl

/-- **What the search finds** is a free block of the heap, and large enough. -/
theorem findFit_sound (o : InOrder h m parts) (found : h.findFit m need = some x) :
    ∃ t ∈ parts, ∃ b ∈ t.2, b.addr = x ∧ b.allocated = false ∧ need ≤ b.size := by
  rw [o.findFit_eq, Option.map_eq_some_iff] at found
  obtain ⟨b, found, rfl⟩ := found
  have mem := (circle_perm h.cursor parts).mem_iff.mp (List.mem_of_find?_eq_some found)
  obtain ⟨t, ht, hb⟩ := List.mem_flatMap.mp mem
  have fits : b.fits need = true := List.find?_some found
  exact ⟨t, ht, b, hb, rfl, of_decide_eq_true fits⟩

/-- **Nothing is found** only where nothing fits. -/
theorem findFit_eq_none_iff (o : InOrder h m parts) :
    h.findFit m need = none ↔ ∀ b ∈ blocksIn parts, b.allocated = false → b.size < need := by
  rw [o.findFit_eq, Option.map_eq_none_iff, List.find?_eq_none]
  simp only [(circle_perm h.cursor parts).mem_iff, BlockInfo.fits, decide_eq_true_eq, not_and,
    Nat.not_le]

end InOrder

end Heap

end LayeredMemory
