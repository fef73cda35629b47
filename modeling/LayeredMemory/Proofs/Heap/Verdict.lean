import LayeredMemory.Proofs.Heap.Service

/-!
# Verdicts — walks over memory that may be damaged

Here nothing is assumed about memory: any word may stand anywhere. A heap is only `LaidOut`, with
legal segments that do not overlap, which is what registering extents gives it whatever is written
there afterwards.

`Spells` says in terms of decoded words when memory holds a sequence of blocks from one address to
the epilogue at another: the epilogue counts as a last header, of an allocated block of size zero.

* `walk_eq_ok_iff`: a walk accepts exactly what memory spells, and `walk_error` says what else it
  answers.
* `guardedWalk_eq`: a walk that may only read certain words, and only pass so many headers, gets as
  far as one that is free to do what it likes. So a walk ends, and stays inside its segment.
* `walks_exact`: the answers of the walks, of `blocks` and of `validate`, for every memory.
-/

namespace LayeredMemory

/-! ### What memory spells -/

/-- The block may come next at `a`: it starts there, its header tells whether the block before it is
allocated, and it is not the second free block in a row. -/
structure BlockInfo.Follows (m : Memory) (p : Bool) (a : Nat) (b : BlockInfo) : Prop where
  addr : b.addr = a
  prev : Tag.isPrevAllocated (m.readWord a) = p
  apart : p = true ∨ b.allocated = true

/-- The headers of some blocks and of the epilogue behind them. -/
def headers (bs : List BlockInfo) (stop : Nat) : List BlockInfo :=
  bs ++ [⟨stop, 0, true⟩]

/-- The words of `m` spell the blocks `bs` from `a` to the epilogue at `stop`, after a block that is
allocated or not. -/
structure Spells (m : Memory) (stop : Nat) (p : Bool) (a : Nat) (bs : List BlockInfo) :
    Prop where
  start : ∀ b ∈ (headers bs stop).head?, b.Follows m p a
  next : (headers bs stop).IsChain fun b d => d.Follows m b.allocated (b.addr + b.size)
  decoded : ∀ b ∈ headers bs stop, Heap.blockAt m b.addr = b
  sizes : ∀ b ∈ bs, 0 < b.size ∧ 16 ∣ b.size
  footers : ∀ b ∈ bs, b.allocated = false → m.readWord (b.addr + (b.size - 8)) = b.size

/-- The words of `m` spell the blocks of a segment. -/
def Segment.Spelled (s : Segment) (m : Memory) (bs : List BlockInfo) : Prop :=
  Spells m s.stop true s.first bs

/-- The damage is about the tags of the block or epilogue at `x`. -/
def Damage.AtTag (x : Nat) : Damage → Prop
  | .sum .. | .cursor _ => False
  | d => d.addr = x

theorem Damage.AtTag.addr_eq {d : Damage} {x : Nat} (h : d.AtTag x) : d.addr = x := by
  cases d <;> first | exact h | exact h.elim

/-- The aligned words of a segment, its epilogue's among them, and no other. -/
def Segment.word? (s : Segment) (m : Memory) (x : Nat) : Option Nat :=
  if s.first ≤ x ∧ x ≤ s.stop ∧ x % 8 = 0 then some (m.readWord x) else none

variable {m m' : Memory} {p : Bool} {a stop : Nat} {b : BlockInfo} {bs : List BlockInfo}
  {d : Damage}

/-- The check of a single block, in terms of its header. -/
structure BlockInfo.Checked (m : Memory) (p : Bool) (b : BlockInfo) : Prop where
  prev : Tag.isPrevAllocated (m.readWord b.addr) = p
  apart : p = true ∨ b.allocated = true
  footer : b.allocated = false → m.readWord (b.addr + (b.size - 8)) = b.size

namespace Spells

theorem nil_iff : Spells m stop p a [] ↔
    a = stop ∧ Tag.isEpilogue (m.readWord stop) = true ∧
      Tag.isPrevAllocated (m.readWord stop) = p := by
  constructor
  · intro h
    have first := h.start ⟨stop, 0, true⟩ rfl
    have epilogue := h.decoded ⟨stop, 0, true⟩ List.mem_cons_self
    obtain ⟨-, size, allocated⟩ := (BlockInfo.mk.injEq ..).mp epilogue
    obtain rfl : stop = a := first.addr
    refine ⟨rfl, ?_, first.prev⟩
    simp only [Tag.isEpilogue, size, allocated, beq_self_eq_true, Bool.and_true]
  · rintro ⟨rfl, epilogue, prev⟩
    simp only [Tag.isEpilogue, Bool.and_eq_true, beq_iff_eq] at epilogue
    refine ⟨?_, .singleton _, ?_, nofun, nofun⟩
    · rintro b ⟨⟩
      exact ⟨rfl, prev, .inr rfl⟩
    · intro b hb
      obtain rfl := List.mem_singleton.mp hb
      simp only [Heap.blockAt, epilogue.1, epilogue.2]

theorem cons_iff : Spells m stop p a (b :: bs) ↔
    b = Heap.blockAt m a ∧ 16 ≤ b.size ∧ b.Checked m p ∧
      Spells m stop b.allocated (a + b.size) bs := by
  constructor
  · intro h
    have first := h.start b rfl
    obtain ⟨follows, chain⟩ := List.isChain_cons.mp h.next
    have here := h.decoded b List.mem_cons_self
    obtain ⟨pos, aligned⟩ := h.sizes b List.mem_cons_self
    obtain rfl := first.addr
    refine ⟨here.symm, Nat.le_of_dvd pos aligned,
      ⟨first.prev, first.apart, h.footers b List.mem_cons_self⟩, follows, chain, ?_, ?_, ?_⟩
    · exact fun d hd => h.decoded d (List.mem_cons_of_mem b hd)
    · exact fun d hd => h.sizes d (List.mem_cons_of_mem b hd)
    · exact fun d hd => h.footers d (List.mem_cons_of_mem b hd)
  · rintro ⟨rfl, pos, checked, rest⟩
    have aligned : 16 ∣ (Heap.blockAt m a).size := Nat.dvd_mul_left ..
    refine ⟨?_, List.isChain_cons.mpr ⟨rest.start, rest.next⟩, ?_, ?_, ?_⟩
    · rintro d ⟨⟩
      exact ⟨rfl, checked.prev, checked.apart⟩
    · exact List.forall_mem_cons.mpr ⟨rfl, rest.decoded⟩
    · exact List.forall_mem_cons.mpr ⟨⟨by omega, aligned⟩, rest.sizes⟩
    · exact List.forall_mem_cons.mpr ⟨checked.footer, rest.footers⟩

/-- Blocks that memory spells reach exactly to the epilogue. -/
theorem total_eq (h : Spells m stop p a bs) : stop = a + BlockInfo.total bs := by
  induction bs generalizing p a with
  | nil => exact (nil_iff.mp h).1.symm
  | cons b bs ih => rw [BlockInfo.total, ← Nat.add_assoc, ← ih (cons_iff.mp h).2.2.2]

end Spells

namespace Heap

/-! ### A walk accepts exactly what memory spells -/

theorem checkEpilogue_eq_ok_iff : checkEpilogue m a p = .ok () ↔
    Tag.isEpilogue (m.readWord a) = true ∧ Tag.isPrevAllocated (m.readWord a) = p := by
  dsimp only [checkEpilogue]
  split_ifs with epilogue prev
  · exact ⟨nofun, fun h => absurd (epilogue.symm.trans h.1) Bool.false_ne_true⟩
  · exact ⟨nofun, fun h => absurd h.2 prev⟩
  · exact ⟨fun _ => ⟨Bool.eq_true_of_not_eq_false epilogue, not_not.mp prev⟩, fun _ => rfl⟩

theorem checkBlock_eq_ok_iff : checkBlock m a p = .ok () ↔ (blockAt m a).Checked m p := by
  dsimp only [checkBlock]
  split_ifs with prev live apart footer
  · exact ⟨nofun, fun h => absurd h.prev prev⟩
  · exact ⟨fun _ => ⟨not_not.mp prev, .inr live, fun free => nomatch live.symm.trans free⟩,
      fun _ => rfl⟩
  · exact ⟨nofun, fun h => absurd (h.apart.resolve_right live) (apart ▸ Bool.false_ne_true)⟩
  · exact ⟨nofun, fun h => absurd (h.footer (Bool.eq_false_iff.mpr live)) footer⟩
  · exact ⟨fun _ => ⟨not_not.mp prev, .inl (Bool.eq_true_of_not_eq_false apart),
      fun _ => not_not.mp footer⟩, fun _ => rfl⟩

/-- **A walk accepts what memory spells**, and answers with just that. -/
theorem walk_eq_ok_iff : walk m stop a p = .ok bs ↔ Spells m stop p a bs := by
  fun_induction walk m stop a p generalizing bs with
  | case1 p =>
    rw [bind_eq_ok_iff]
    constructor
    · rintro ⟨⟨⟩, check, ⟨⟩⟩
      exact Spells.nil_iff.mpr ⟨rfl, checkEpilogue_eq_ok_iff.mp check⟩
    · intro h
      cases bs with
      | nil => exact ⟨(), checkEpilogue_eq_ok_iff.mpr (Spells.nil_iff.mp h).2, rfl⟩
      | cons b bs =>
        have total := h.total_eq
        have pos := (Spells.cons_iff.mp h).2.1
        rw [BlockInfo.total] at total
        omega
  | case2 a p ne bounds ih =>
    rw [bind_eq_ok_iff]
    constructor
    · rintro ⟨⟨⟩, check, onward⟩
      obtain ⟨rest, run, ⟨⟩⟩ := bind_eq_ok_iff.mp onward
      exact Spells.cons_iff.mpr ⟨rfl, bounds.1, checkBlock_eq_ok_iff.mp check, ih.mp run⟩
    · intro h
      cases bs with
      | nil => exact absurd (Spells.nil_iff.mp h).1 ne
      | cons b bs =>
        obtain ⟨rfl, -, checked, rest⟩ := Spells.cons_iff.mp h
        exact ⟨(), checkBlock_eq_ok_iff.mpr checked, bind_eq_ok_iff.mpr ⟨bs, ih.mpr rest, rfl⟩⟩
  | case3 a p ne bounds =>
    refine ⟨fun run => ?refused, fun h => absurd ?_ bounds⟩
    case refused => cases run
    cases bs with
    | nil => exact absurd (Spells.nil_iff.mp h).1 ne
    | cons b bs =>
      obtain ⟨rfl, pos, -, -⟩ := Spells.cons_iff.mp h
      have total := h.total_eq
      rw [BlockInfo.total] at total
      exact ⟨pos, by omega⟩

/-! ### Every other answer names a tag of the segment -/

theorem checkEpilogue_error (h : checkEpilogue m a p = .error d) : d.AtTag a := by
  dsimp only [checkEpilogue] at h
  split_ifs at h <;> cases h <;> rfl

theorem checkBlock_error (h : checkBlock m a p = .error d) : d.AtTag a := by
  dsimp only [checkBlock] at h
  split_ifs at h <;> cases h <;> rfl

/-- **What a walk does not accept**, it blames on a tag from where it started to the epilogue. -/
theorem walk_error (h : walk m stop a p = .error d) (le : a ≤ stop) :
    ∃ x, d.AtTag x ∧ a ≤ x ∧ x ≤ stop := by
  fun_induction walk m stop a p with
  | case1 p =>
    rcases bind_eq_error_iff.mp h with check | ⟨_, _, onward⟩
    · exact ⟨stop, checkEpilogue_error check, le, Nat.le_refl _⟩
    · cases onward
  | case2 a p ne bounds ih =>
    rcases bind_eq_error_iff.mp h with check | ⟨_, _, onward⟩
    · exact ⟨a, checkBlock_error check, Nat.le_refl _, le⟩
    · rcases bind_eq_error_iff.mp onward with later | ⟨_, _, last⟩
      · obtain ⟨x, at_tag, lo, hi⟩ := ih later (by omega)
        exact ⟨x, at_tag, by omega, hi⟩
      · cases last
  | case3 a p ne bounds =>
    cases h
    exact ⟨a, rfl, Nat.le_refl _, le⟩

/-! ### Walks that are watched -/

/-- The check of the block at `addr` with this header, that reads its footer through `word`. -/
def guardedCheck (word : Nat → Option Nat) (addr tag : Nat) (prevAllocated : Bool) :
    Option (Except Damage Unit) :=
  if Tag.isPrevAllocated tag ≠ prevAllocated then some (.error (.prev addr))
  else if Tag.isAllocated tag = true then some (.ok ())
  else if prevAllocated = false then some (.error (.adjacentFree addr))
  else do
    let footer ← word (addr + (Tag.size tag - Word.bytes))
    if footer ≠ Tag.size tag then some (.error (.footer addr footer (Tag.size tag)))
    else some (.ok ())

/-- A walk that reads words only through `word`, and gives up when that refuses or when it has
passed `room` headers. -/
def guardedWalk (word : Nat → Option Nat) (stop : Nat) :
    (room addr : Nat) → (prevAllocated : Bool) → Option (Except Damage (List BlockInfo))
  | 0, _, _ => none
  | room + 1, addr, prevAllocated => do
    let tag ← word addr
    if addr = stop then
      if Tag.isEpilogue tag = false then some (.error (.epilogue addr))
      else if Tag.isPrevAllocated tag ≠ prevAllocated then some (.error (.epiloguePrev addr))
      else some (.ok [])
    else if minBlock ≤ Tag.size tag ∧ Tag.size tag ≤ stop - addr then
      match ← guardedCheck word addr tag prevAllocated with
      | .error d => some (.error d)
      | .ok () => do
        let rest ← guardedWalk word stop room (addr + Tag.size tag) (Tag.isAllocated tag)
        some (rest.map (⟨addr, Tag.size tag, Tag.isAllocated tag⟩ :: ·))
    else some (.error (.size addr (Tag.size tag)))

theorem guardedCheck_eq {word : Nat → Option Nat}
    (reads : word (a + (Tag.size (m.readWord a) - 8)) =
      some (m.readWord (a + (Tag.size (m.readWord a) - 8)))) :
    guardedCheck word a (m.readWord a) p = some (checkBlock m a p) := by
  dsimp only [guardedCheck, checkBlock]
  rw [Word.bytes_eq, reads, Option.bind_eq_bind, Option.bind_some]
  split_ifs <;> rfl

/-- **A walk reads what is between**: it passes one header in a granule at the most, and reads none
but aligned words from where it starts to the epilogue. -/
theorem guardedWalk_eq {word : Nat → Option Nat} {room : Nat}
    (reads : ∀ x, a ≤ x → x ≤ stop → x % 8 = 0 → word x = some (m.readWord x))
    (le : a ≤ stop) (aligned : a % 8 = 0) (enough : stop - a < room * 16) :
    guardedWalk word stop room a p = some (walk m stop a p) := by
  induction room generalizing a p with
  | zero => omega
  | succ room ih =>
    have here : blockAt m a = ⟨a, Tag.size (m.readWord a), Tag.isAllocated (m.readWord a)⟩ := rfl
    rw [guardedWalk, walk, reads a (Nat.le_refl _) le aligned, Option.bind_eq_bind,
      Option.bind_some, here]
    by_cases at_stop : a = stop
    · rw [if_pos at_stop, if_pos at_stop]
      dsimp only [checkEpilogue]
      split_ifs <;> rfl
    · rw [if_neg at_stop, if_neg at_stop]
      by_cases bounds :
          minBlock ≤ Tag.size (m.readWord a) ∧ Tag.size (m.readWord a) ≤ stop - a
      · have multiple : Tag.size (m.readWord a) % 16 = 0 := Nat.mul_mod_left ..
        have pos : 16 ≤ Tag.size (m.readWord a) := bounds.1
        have fits := bounds.2
        -- The block fits, so its footer and the next header are still words of the segment.
        rw [if_pos bounds, dif_pos bounds,
          guardedCheck_eq (reads _ (by omega) (by omega) (by omega)), Option.bind_eq_bind,
          Option.bind_some]
        cases checkBlock m a p with
        | error d => rfl
        | ok u =>
          have rest := ih (a := a + Tag.size (m.readWord a)) (p := Tag.isAllocated (m.readWord a))
            (fun x lo hi => reads x (by omega) hi) (by omega) (by omega) (by omega)
          dsimp only
          rw [rest]
          rfl
      · rw [if_neg bounds, dif_neg bounds]

/-! ### Segments -/

variable {s : Segment}

/-- The sum that ends the walk of a segment is never wrong. -/
theorem segmentBlocks_eq_walk : segmentBlocks m s = walk m s.stop s.first true := by
  unfold segmentBlocks
  cases run : walk m s.stop s.first true with
  | error d => rfl
  | ok bs => exact if_pos (Nat.add_left_cancel (walk_eq_ok_iff.mp run).total_eq.symm)

theorem segmentBlocks_eq_ok_iff : segmentBlocks m s = .ok bs ↔ s.Spelled m bs := by
  rw [segmentBlocks_eq_walk, walk_eq_ok_iff, Segment.Spelled]

theorem segmentBlocks_error (h : segmentBlocks m s = .error d) :
    ∃ x, d.AtTag x ∧ s.first ≤ x ∧ x ≤ s.stop :=
  walk_error (segmentBlocks_eq_walk ▸ h) (Nat.le_add_right ..)

theorem guardedWalk_segment (legal : s.Legal) :
    guardedWalk (s.word? m) s.stop (s.usable / 16 + 1) s.first true =
      some (segmentBlocks m s) := by
  have aligned := legal.first_mod
  have stop : s.stop = s.first + s.usable := rfl
  rw [segmentBlocks_eq_walk]
  exact guardedWalk_eq (fun x lo hi word => if_pos ⟨lo, hi, word⟩) (by omega) (by omega) (by omega)

/-- A walk depends on the tags of its segment alone. -/
theorem segmentBlocks_congr (legal : s.Legal)
    (same : ∀ x, s.first ≤ x → x < s.stop + 8 → m'.read x = m.read x) :
    segmentBlocks m' s = segmentBlocks m s := by
  have words : s.word? m' = s.word? m := by
    funext x
    unfold Segment.word?
    split_ifs with inside
    · exact congrArg some (Memory.readWord_congr fun y lo hi => same y (by omega) (by omega))
    · rfl
  have walks := guardedWalk_segment (m := m') legal
  rw [words, guardedWalk_segment legal] at walks
  exact (Option.some.inj walks).symm

/-! ### Heaps -/

variable {γ : Type} {h : Heap γ} {segments : List Segment} {bss : List (List BlockInfo)}

theorem blocksOf_eq_ok_iff :
    blocksOf m segments = .ok bss ↔ List.Forall₂ (fun s bs => s.Spelled m bs) segments bss := by
  induction segments generalizing bss with
  | nil =>
    rw [List.forall₂_nil_left_iff]
    exact ⟨fun run => (Except.ok.inj run).symm, fun none => none ▸ rfl⟩
  | cons s segments ih =>
    rw [blocksOf, bind_eq_ok_iff, List.forall₂_cons_left_iff]
    constructor
    · rintro ⟨bs, here, onward⟩
      obtain ⟨rest, others, ⟨⟩⟩ := bind_eq_ok_iff.mp onward
      exact ⟨bs, rest, segmentBlocks_eq_ok_iff.mp here, ih.mp others, rfl⟩
    · rintro ⟨bs, rest, here, others, rfl⟩
      exact ⟨bs, segmentBlocks_eq_ok_iff.mpr here, bind_eq_ok_iff.mpr ⟨rest, ih.mpr others, rfl⟩⟩

theorem blocksOf_error (run : blocksOf m segments = .error d) :
    ∃ s ∈ segments, segmentBlocks m s = .error d := by
  induction segments with
  | nil => cases run
  | cons s segments ih =>
    rcases bind_eq_error_iff.mp run with here | ⟨bs, -, onward⟩
    · exact ⟨s, List.mem_cons_self, here⟩
    · rcases bind_eq_error_iff.mp onward with others | ⟨_, _, last⟩
      · obtain ⟨t, ht, there⟩ := ih others
        exact ⟨t, List.mem_cons_of_mem s ht, there⟩
      · cases last

theorem blocks_eq_ok_iff : h.blocks m = .ok bs ↔
    ∃ bss, List.Forall₂ (fun s bs => s.Spelled m bs) h.segments bss ∧ bs = bss.flatten := by
  unfold blocks
  rw [bind_eq_ok_iff]
  constructor
  · rintro ⟨bss, run, ⟨⟩⟩
    exact ⟨bss, blocksOf_eq_ok_iff.mp run, rfl⟩
  · rintro ⟨bss, spelled, rfl⟩
    exact ⟨bss, blocksOf_eq_ok_iff.mpr spelled, rfl⟩

theorem blocks_error (run : h.blocks m = .error d) :
    ∃ s ∈ h.segments, segmentBlocks m s = .error d := by
  rcases bind_eq_error_iff.mp run with walks | ⟨_, _, last⟩
  · exact blocksOf_error walks
  · cases last

/-! ### Reports -/

/-- The cursor, if there is one, is at a block or at the epilogue of a segment. -/
def CursorAmong (h : Heap γ) (bs : List BlockInfo) : Prop :=
  ∀ c, h.cursor = some c → (∃ b ∈ bs, b.addr = c) ∨ ∃ s ∈ h.segments, s.stop = c

/-- The blocks of all segments fill them. -/
theorem total_flatten (spelled : List.Forall₂ (fun s bs => s.Spelled m bs) segments bss) :
    BlockInfo.total bss.flatten = Segment.total segments := by
  induction spelled with
  | nil => rfl
  | cons here _ ih =>
    rw [List.flatten_cons, total_append, ih, Segment.total, Nat.add_right_cancel_iff]
    exact (Nat.add_left_cancel (Spells.total_eq here)).symm

theorem cursorFound_iff : h.cursorFound bs = true ↔ h.CursorAmong bs := by
  unfold cursorFound CursorAmong
  cases h.cursor with
  | none => exact ⟨fun _ _ => nofun, fun _ => rfl⟩
  | some c => simp only [Bool.or_eq_true, List.any_eq_true, beq_iff_eq, Option.some_inj, forall_eq']

/-- **Registering lays out** a heap, whatever memory holds: one segment more, which lies in the
extent, or a refusal. -/
theorem addPool_laidOut {e : Extent} (laid : h.LaidOut) (valid : e.Valid) :
    Action.Meets (addPool e) ⟨h, m⟩
      (fun _ s' => s'.part.LaidOut ∧ ∃ s, s'.part.segments = h.segments ++ [s] ∧ s.extent = e)
      (fun _ s' => s' = ⟨h, m⟩) := by
  obtain ⟨r, judged, run⟩ := addPool_eq laid.legal valid
  cases r with
  | error f => exact .of_fault (run h m rfl) rfl
  | ok s =>
    obtain ⟨legal, rfl, apart⟩ := judged.segment valid
    obtain ⟨m', registered, -, -⟩ := register_laid h m legal
    refine .of_ok ((run h m rfl).trans registered) ⟨⟨fun t ht => ?_, ?_⟩, s, rfl, rfl⟩
    · rcases List.mem_append.mp ht with ht | ht
      · exact laid.legal t ht
      · exact List.mem_singleton.mp ht ▸ legal
    · refine List.pairwise_append.mpr
        ⟨laid.apart, List.pairwise_singleton _ _, fun t ht u hu => ?_⟩
      rw [List.mem_singleton.mp hu]
      exact apart t ht

/-- **Walks are exact**, whatever memory holds. The walk of a segment reads aligned words of the
segment only, ends after one header in a granule at the most, and depends on no other byte. It
answers with the blocks that memory spells in the segment, and where memory spells none it names a
tag of the segment that is corrupt. The blocks of a heap are those of its segments, and its report
adds them up without outgrowing a word; the heap is valid when, in addition, its cursor is among
them. Nothing else ends a walk over a heap but the damage of a segment. -/
theorem walks_exact (laid : h.LaidOut) (m : Memory) :
    (∀ s ∈ h.segments,
      guardedWalk (s.word? m) s.stop (s.usable / 16 + 1) s.first true =
        some (segmentBlocks m s) ∧
      (∀ m' : Memory, (∀ x, s.first ≤ x → x < s.stop + 8 → m'.read x = m.read x) →
        segmentBlocks m' s = segmentBlocks m s) ∧
      (∀ bs, segmentBlocks m s = .ok bs ↔ s.Spelled m bs) ∧
      ((¬∃ bs, s.Spelled m bs) → ∃ d x, segmentBlocks m s = .error d ∧ d.AtTag x ∧
        s.first ≤ x ∧ x ≤ s.stop ∧ d.fault = .corruptHeap "dynmem" x d.details)) ∧
    (∀ bs, h.blocks m = .ok bs ↔
      ∃ bss, List.Forall₂ (fun s bs => s.Spelled m bs) h.segments bss ∧ bs = bss.flatten) ∧
    (∀ bs, h.blocks m = .ok bs →
      (h.CursorAmong bs → h.validate m = .ok (h.report bs)) ∧
      (¬h.CursorAmong bs →
        ∃ c, h.cursor = some c ∧ h.validate m = .error (.cursor c)) ∧
      (h.report bs).allocatedBytes + (h.report bs).freeBytes = (h.report bs).totalBytes ∧
      (h.report bs).totalBytes < Word.bound) ∧
    (∀ d, h.blocks m = .error d →
      h.validate m = .error d ∧ ∃ s ∈ h.segments, segmentBlocks m s = .error d) := by
  refine ⟨fun s hs => ⟨guardedWalk_segment (laid.legal s hs), fun m' same =>
    segmentBlocks_congr (laid.legal s hs) same, fun bs => segmentBlocks_eq_ok_iff,
    fun none => ?_⟩, fun bs => blocks_eq_ok_iff, fun bs walked => ⟨fun among => ?_, fun off => ?_,
    ?_, laid.total_lt⟩, fun d walked => ⟨validate_of_error walked, blocks_error walked⟩⟩
  · cases walked : segmentBlocks m s with
    | ok bs => exact absurd ⟨bs, segmentBlocks_eq_ok_iff.mp walked⟩ none
    | error d =>
      obtain ⟨x, at_tag, lo, hi⟩ := segmentBlocks_error walked
      exact ⟨d, x, rfl, at_tag, lo, hi, at_tag.addr_eq ▸ rfl⟩
  · rw [validate_of_blocks walked, if_pos (cursorFound_iff.mpr among)]
  · rw [validate_of_blocks walked, if_neg fun found => off (cursorFound_iff.mp found)]
    cases cursor : h.cursor with
    | none => exact absurd (fun c hc => nomatch cursor.symm.trans hc) off
    | some c => exact ⟨c, rfl, rfl⟩
  · obtain ⟨bss, spelled, rfl⟩ := blocks_eq_ok_iff.mp walked
    exact (sum_sizes _).trans (total_flatten spelled)

/-- A heap of one segment with one free block, before and after its header is overwritten. -/
theorem walks_exact_clobbered : ∃ (h : Heap NoGrowth) (m : Memory), h.LaidOut ∧
    h.validate m = .ok
      { segments := 1, totalBytes := 48, freeBytes := 48, freeBlocks := 1, largestFree := 48 } ∧
    ∃ d, h.validate (m.writeWord 4104 7) = .error d := by
  let s : Segment := ⟨⟨4096, 64⟩, 4104, 48⟩
  let h : Heap NoGrowth := { segments := [s], cursor := some 4104, growth := {} }
  let m := ((Memory.zero.writeWord 4104 (Tag.make 48 false true)).writeWord 4144 48).writeWord 4152
    (Tag.make 0 true false)
  have legal : s.Legal :=
    ⟨⟨by decide, by decide⟩, by decide, by decide, by decide, by decide, by decide⟩
  have laid : h.LaidOut := ⟨List.forall_mem_singleton.mpr legal, List.pairwise_singleton _ _⟩
  have before : (h.blocks m).toOption = some [⟨4104, 48, false⟩] := by decide +kernel
  have after : (h.blocks (m.writeWord 4104 7)).toOption = none := by decide +kernel
  refine ⟨h, m, laid, ?_, ?_⟩
  · obtain ⟨-, -, accepted, -⟩ := walks_exact laid m
    cases walked : h.blocks m with
    | error d => rw [walked] at before; cases before
    | ok bs =>
      rw [walked] at before
      cases before
      refine (accepted _ walked).1 fun c hc => .inl ⟨_, List.mem_singleton.mpr rfl, ?_⟩
      exact Option.some.inj hc
  · obtain ⟨-, -, -, rejected⟩ := walks_exact laid (m.writeWord 4104 7)
    cases walked : h.blocks (m.writeWord 4104 7) with
    | ok bs => rw [walked] at after; cases after
    | error d => exact ⟨d, (rejected d walked).1⟩

end Heap

end LayeredMemory
