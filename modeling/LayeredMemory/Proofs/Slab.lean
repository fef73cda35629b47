import LayeredMemory.Slab.Exchange
import LayeredMemory.Proofs.Action
import LayeredMemory.Proofs.Align
import LayeredMemory.Proofs.Extent

/-!
# Slabs — the free list and the slots that are taken

The free list of a slab lies in its free slots. `Linked` follows it in memory; a slab is `Sound`
when its slots lie inside its extent and its free list runs through different slots, as many as are
not handed out. A slot is `Taken` when the free list does not meet it.

* `Sound.alloc_first`, `Sound.free_spec`: one more slot is taken, or one less, and nothing else happens to
  the others.
* `free_of_not_slot`, `free_of_free`: nothing else can be returned.
* `Sound.frame`: nobody but the slab minds what is written into slots that are taken, or behind the
  link of one that is free.
* `Sound.validate_eq`: validation succeeds.
* `Shaped.thread_spec`: threading puts all slots on the free list.
-/

namespace LayeredMemory

variable {m m' : Memory} {a b node : Nat} {l : List Nat}

/-- The links from `node` on lead through the addresses of a list, and then to zero. -/
inductive Linked (m : Memory) : Nat → List Nat → Prop where
  | nil : Linked m 0 []
  | cons {a : Nat} {rest : List Nat} (pos : 0 < a) (next : Linked m (m.readWord a) rest) :
      Linked m a (a :: rest)

namespace Linked

theorem head_eq (h : Linked m node (a :: l)) : node = a ∧ Linked m (m.readWord a) l := by
  cases h with
  | cons _ next => exact ⟨rfl, next⟩

theorem eq_nil_iff (h : Linked m node l) : l = [] ↔ node = 0 := by
  cases h with
  | nil => simp
  | cons pos => simp only [reduceCtorEq, false_iff]; omega

/-- The first address is determined by the list. -/
theorem eq_headD (h : Linked m node l) : node = l.headD 0 := by
  cases h <;> rfl

theorem frame (h : Linked m node l) (same : ∀ a ∈ l, m'.readWord a = m.readWord a) :
    Linked m' node l := by
  induction h with
  | nil => exact .nil
  | @cons a rest pos next ih =>
    refine .cons pos ?_
    rw [same a List.mem_cons_self]
    exact ih fun b hb => same b (List.mem_cons_of_mem a hb)

theorem chain_eq (h : Linked m node l) {n : Nat} (len : l.length < n) :
    Slab.chain m node n = l := by
  induction h generalizing n with
  | nil =>
    cases n with
    | zero => rfl
    | succ n => rw [Slab.chain, if_pos rfl]
  | @cons a rest pos next ih =>
    cases n with
    | zero => cases len
    | succ n => rw [Slab.chain, if_neg (by omega), ih (Nat.lt_of_succ_lt_succ len)]

end Linked

namespace Slab

variable {s : Slab} {i j : Nat}

/-! ### Slots -/

/-- The slots lie inside a valid extent, and each has room for a link. -/
structure Shaped (s : Slab) : Prop where
  valid : s.extent.Valid
  start_le : s.extent.start ≤ s.first
  stop_le : s.first + s.capacity * s.stride ≤ s.extent.start + s.extent.len
  stride_le : 8 ≤ s.stride

/-- A slot starts at the address. -/
def HasSlot (s : Slab) (a : Nat) : Prop :=
  ∃ i < s.capacity, a = s.slotAddr i

theorem slotIndex_eq_some_iff (pos : 0 < s.stride) :
    s.slotIndex a = some i ↔ i < s.capacity ∧ a = s.slotAddr i := by
  unfold slotIndex slotAddr
  constructor
  · intro h
    split at h
    · next inside =>
      cases h
      refine ⟨inside.2.2, ?_⟩
      have := Nat.div_mul_cancel (Nat.dvd_of_mod_eq_zero inside.2.1)
      omega
    · cases h
  · rintro ⟨lt, rfl⟩
    rw [Nat.add_sub_cancel_left, Nat.mul_mod_left, Nat.mul_div_cancel i pos]
    exact if_pos ⟨Nat.le_add_right .., rfl, lt⟩

theorem owns_iff (pos : 0 < s.stride) : s.owns a = true ↔ s.HasSlot a := by
  unfold owns HasSlot
  rw [Option.isSome_iff_exists]
  simp only [slotIndex_eq_some_iff pos]

theorem slotAddr_apart (ne : i ≠ j) :
    s.slotAddr i + s.stride ≤ s.slotAddr j ∨ s.slotAddr j + s.stride ≤ s.slotAddr i := by
  unfold slotAddr
  rcases Nat.lt_or_gt_of_ne ne with lt | lt
  · have := Nat.mul_le_mul_right s.stride (Nat.succ_le_of_lt lt)
    rw [Nat.succ_mul] at this
    omega
  · have := Nat.mul_le_mul_right s.stride (Nat.succ_le_of_lt lt)
    rw [Nat.succ_mul] at this
    omega

theorem slotAddr_inj (pos : 0 < s.stride) (e : s.slotAddr i = s.slotAddr j) : i = j := by
  by_contra ne
  rcases slotAddr_apart (s := s) ne with h | h <;> omega

/-- Different slots do not overlap. -/
theorem HasSlot.apart (ha : s.HasSlot a) (hb : s.HasSlot b) (ne : a ≠ b) :
    a + s.stride ≤ b ∨ b + s.stride ≤ a := by
  obtain ⟨i, -, rfl⟩ := ha
  obtain ⟨j, -, rfl⟩ := hb
  exact slotAddr_apart fun e => ne (congrArg s.slotAddr e)

theorem Shaped.stride_pos (shaped : s.Shaped) : 0 < s.stride :=
  Nat.lt_of_lt_of_le (by decide) shaped.stride_le

theorem Shaped.slot_bounds (shaped : s.Shaped) (ha : s.HasSlot a) :
    0 < a ∧ s.extent.start ≤ a ∧ a + s.stride ≤ s.extent.start + s.extent.len := by
  obtain ⟨i, lt, rfl⟩ := ha
  have := shaped.valid.start_pos
  have := shaped.start_le
  have := shaped.stop_le
  have := Nat.mul_le_mul_right s.stride (Nat.succ_le_of_lt lt)
  rw [Nat.succ_mul] at this
  unfold slotAddr
  omega

theorem Shaped.slot_mem (shaped : s.Shaped) (ha : s.HasSlot a) : a ∈ s.extent := by
  have := shaped.slot_bounds ha
  have := shaped.stride_le
  exact Extent.mem_iff.mpr ⟨by omega, by omega⟩

theorem Shaped.slot_lt (shaped : s.Shaped) (ha : s.HasSlot a) : a + s.stride < Word.bound := by
  have := shaped.slot_bounds ha
  have := shaped.valid.fits
  omega

/-- There are no more different slots than the slab has. -/
theorem length_le_capacity (nodup : l.Nodup) (slots : ∀ a ∈ l, s.HasSlot a) :
    l.length ≤ s.capacity := by
  have sub : l ⊆ (List.range s.capacity).map s.slotAddr := by
    intro a ha
    obtain ⟨i, lt, rfl⟩ := slots a ha
    exact List.mem_map_of_mem (List.mem_range.mpr lt)
  have := (List.subperm_of_subset nodup sub).length_le
  rwa [List.length_map, List.length_range] at this

/-! ### The free list -/

/-- The free list runs through different slots, all that are not handed out. -/
structure FreeList (s : Slab) (m : Memory) (free : List Nat) : Prop where
  linked : Linked m s.freeHead free
  slots : ∀ a ∈ free, s.HasSlot a
  nodup : free.Nodup
  count : s.allocated + free.length = s.capacity

theorem FreeList.freeChain_eq {free : List Nat} (h : s.FreeList m free) : s.freeChain m = free :=
  h.linked.chain_eq (by have := h.count; omega)

theorem FreeList.frame {free : List Nat} (h : s.FreeList m free)
    (same : ∀ a ∈ free, m'.readWord a = m.readWord a) : s.FreeList m' free :=
  { h with linked := h.linked.frame same }

/-- The slab is in order. -/
structure Sound (s : Slab) (m : Memory) : Prop where
  shaped : s.Shaped
  free : s.FreeList m (s.freeChain m)

/-- The slot at the address is handed out. -/
def Taken (s : Slab) (m : Memory) (a : Nat) : Prop :=
  s.HasSlot a ∧ a ∉ s.freeChain m

/-- A slot is taken or free. -/
theorem HasSlot.mem_freeChain_iff (slot : s.HasSlot a) : a ∈ s.freeChain m ↔ ¬s.Taken m a := by
  unfold Taken
  rw [and_iff_right slot, not_not]

theorem isFree_iff : s.isFree m a = true ↔ a ∈ s.freeChain m :=
  List.contains_iff_mem

theorem Shaped.sound {free : List Nat} (shaped : s.Shaped) (h : s.FreeList m free) : s.Sound m :=
  ⟨shaped, h.freeChain_eq.symm ▸ h⟩

namespace Sound

theorem stride_pos (h : s.Sound m) : 0 < s.stride :=
  h.shaped.stride_pos

theorem allocated_le (h : s.Sound m) : s.allocated ≤ s.capacity :=
  h.free.count ▸ Nat.le_add_right ..

theorem not_taken_of_allocated_eq_zero (h : s.Sound m) (none : s.allocated = 0) : ¬s.Taken m a := by
  rintro ⟨slot, out⟩
  -- The free list and this slot would be more slots than there are.
  have full := length_le_capacity (List.nodup_cons.mpr ⟨out, h.free.nodup⟩)
    (List.forall_mem_cons.mpr ⟨slot, h.free.slots⟩)
  have := h.free.count
  rw [List.length_cons] at full
  omega

theorem allocated_pos (h : s.Sound m) (taken : s.Taken m a) : 0 < s.allocated := by
  by_contra none
  exact h.not_taken_of_allocated_eq_zero (Nat.eq_zero_of_not_pos none) taken

theorem freeChain_congr (h : s.Sound m)
    (same : ∀ a ∈ s.freeChain m, m'.readWord a = m.readWord a) : s.freeChain m' = s.freeChain m :=
  (h.free.frame same).freeChain_eq

/-- **A slab sees** only the links in its free slots. -/
theorem frame (h : s.Sound m)
    (same : ∀ a, s.HasSlot a → ¬s.Taken m a → m'.readWord a = m.readWord a) :
    s.Sound m' ∧ ∀ a, s.Taken m' a ↔ s.Taken m a := by
  have linked : s.FreeList m' (s.freeChain m) := h.free.frame fun a ha =>
    same a (h.free.slots a ha) fun taken => taken.2 ha
  refine ⟨h.shaped.sound linked, fun a => ?_⟩
  unfold Taken
  rw [linked.freeChain_eq]

/-! ### Taking and returning slots -/

end Sound

namespace FreeList

variable {free rest : List Nat}

/-- Taking a slot takes the first one of the free list. -/
theorem alloc (h : s.FreeList m (a :: rest)) (shaped : s.Shaped) :
    Slab.alloc ⟨s, m⟩ =
        .ok a ⟨{ s with freeHead := m.readWord a, allocated := s.allocated + 1 }, m⟩ ∧
      FreeList { s with freeHead := m.readWord a, allocated := s.allocated + 1 } m rest := by
  obtain ⟨head, linked⟩ := h.linked.head_eq
  have count := h.count
  rw [List.length_cons] at count
  refine ⟨?_, linked, fun b hb => h.slots b (List.mem_cons_of_mem a hb),
    (List.nodup_cons.mp h.nodup).2, by dsimp only; omega⟩
  have := (shaped.slot_bounds (h.slots a List.mem_cons_self)).1
  unfold Slab.alloc
  rw [Action.part_bind, head, if_neg (by omega)]
  rfl

/-- Returning a slot puts it in front of the free list. -/
theorem free_spec (h : s.FreeList m free) (shaped : s.Shaped) (slot : s.HasSlot a)
    (out : a ∉ free) :
    Slab.free a ⟨s, m⟩ =
        .ok () ⟨{ s with freeHead := a, allocated := s.allocated - 1 }, m.writeWord a s.freeHead⟩ ∧
      FreeList { s with freeHead := a, allocated := s.allocated - 1 } (m.writeWord a s.freeHead)
        (a :: free) := by
  have count := h.count
  have stride_pos := shaped.stride_pos
  -- The free list and this slot are no more slots than there are.
  have room := length_le_capacity (List.nodup_cons.mpr ⟨out, h.nodup⟩)
    (List.forall_mem_cons.mpr ⟨slot, h.slots⟩)
  rw [List.length_cons] at room
  -- The head of the free list is zero or a slot, so it fits the word that it is written to.
  have head_lt : s.freeHead < Word.bound := by
    cases free with
    | nil =>
      rw [h.linked.eq_nil_iff.mp rfl]
      decide
    | cons b rest =>
      rw [h.linked.head_eq.1]
      have := shaped.slot_lt (h.slots b List.mem_cons_self)
      omega
  refine ⟨?_, .cons (shaped.slot_bounds slot).1 ?_, List.forall_mem_cons.mpr ⟨slot, h.slots⟩,
    List.nodup_cons.mpr ⟨out, h.nodup⟩, by dsimp only [List.length_cons]; omega⟩
  · have less : Word.sub s.allocated 1 = .ok (s.allocated - 1) :=
      Word.sub_eq_ok_iff.mpr ⟨by omega, rfl⟩
    have live : ¬s.isFree m a = true := fun free => out (h.freeChain_eq ▸ isFree_iff.mp free)
    unfold Slab.free
    rw [Action.part_bind, Action.memory_bind,
      if_neg (by rw [(owns_iff stride_pos).mpr slot]; nofun), if_neg live, Action.writeWord_bind,
      Action.modifyPart_bind, Action.lift_ok_bind less]
    rfl
  · rw [Memory.readWord_writeWord head_lt]
    refine h.linked.frame fun b hb => Memory.readWord_writeWord_of_apart ?_
    have := shaped.stride_le
    have := (h.slots b hb).apart slot (fun e => out (e ▸ hb))
    omega

end FreeList

/-- The slab when the rest of its free list is left. -/
def pop (s : Slab) (rest : List Nat) : Slab :=
  { s with freeHead := rest.headD 0, allocated := s.allocated + 1 }

/-- The slab when a slot was put in front of its free list. -/
def push (s : Slab) (a : Nat) : Slab :=
  { s with freeHead := a, allocated := s.allocated - 1 }

namespace Sound

/-- **Taking the first slot** of the free list. -/
theorem alloc_first {rest : List Nat} (h : s.Sound m) (chain : s.freeChain m = a :: rest) :
    Slab.alloc ⟨s, m⟩ = .ok a ⟨s.pop rest, m⟩ ∧ s.HasSlot a ∧ ¬s.Taken m a ∧
      (s.pop rest).Sound m ∧ (s.pop rest).freeChain m = rest ∧
      ∀ b, (s.pop rest).Taken m b ↔ s.Taken m b ∨ b = a := by
  have free := h.free
  rw [chain] at free
  have slot := free.slots a List.mem_cons_self
  have fresh := (List.nodup_cons.mp free.nodup).1
  obtain ⟨run, after⟩ := free.alloc h.shaped
  have head : m.readWord a = rest.headD 0 := after.linked.eq_headD
  rw [head] at run after
  have shaped : (s.pop rest).Shaped :=
    ⟨h.shaped.valid, h.shaped.start_le, h.shaped.stop_le, h.shaped.stride_le⟩
  have left : (s.pop rest).freeChain m = rest := after.freeChain_eq
  refine ⟨run, slot, fun taken => ?_, shaped.sound after, left, fun b => ?_⟩
  · exact taken.2 (chain ▸ List.mem_cons_self)
  · unfold Taken
    rw [left, chain, List.mem_cons, not_or]
    constructor
    · rintro ⟨has, out⟩
      by_cases e : b = a
      · exact .inr e
      · exact .inl ⟨has, e, out⟩
    · rintro (⟨has, -, out⟩ | rfl)
      · exact ⟨has, out⟩
      · exact ⟨slot, fresh⟩

theorem exists_first (h : s.Sound m) (room : s.allocated < s.capacity) :
    ∃ a rest, s.freeChain m = a :: rest := by
  refine List.exists_cons_of_length_pos ?_
  have := h.free.count
  omega

/-- **Taking a slot** of a slab that is not full. -/
theorem alloc (h : s.Sound m) (room : s.allocated < s.capacity) :
    ∃ a head, Slab.alloc ⟨s, m⟩ =
        .ok a ⟨{ s with freeHead := head, allocated := s.allocated + 1 }, m⟩ ∧
      s.HasSlot a ∧ ¬s.Taken m a ∧
      Sound { s with freeHead := head, allocated := s.allocated + 1 } m ∧
      ∀ b, Taken { s with freeHead := head, allocated := s.allocated + 1 } m b ↔
        s.Taken m b ∨ b = a := by
  obtain ⟨a, rest, chain⟩ := h.exists_first room
  obtain ⟨run, slot, fresh, sound, -, taken⟩ := h.alloc_first chain
  exact ⟨a, rest.headD 0, run, slot, fresh, sound, taken⟩

/-- **Returning a slot** that is taken. -/
theorem free_spec (h : s.Sound m) (taken : s.Taken m a) :
    Slab.free a ⟨s, m⟩ =
        .ok () ⟨{ s with freeHead := a, allocated := s.allocated - 1 }, m.writeWord a s.freeHead⟩ ∧
      Sound { s with freeHead := a, allocated := s.allocated - 1 } (m.writeWord a s.freeHead) ∧
      ∀ b, Taken { s with freeHead := a, allocated := s.allocated - 1 }
        (m.writeWord a s.freeHead) b ↔ s.Taken m b ∧ b ≠ a := by
  obtain ⟨slot, out⟩ := taken
  obtain ⟨run, after⟩ := h.free.free_spec h.shaped slot out
  have shaped : Shaped { s with freeHead := a, allocated := s.allocated - 1 } :=
    ⟨h.shaped.valid, h.shaped.start_le, h.shaped.stop_le, h.shaped.stride_le⟩
  refine ⟨run, shaped.sound after, fun b => ?_⟩
  unfold Taken
  rw [after.freeChain_eq, List.mem_cons, not_or]
  exact ⟨fun ⟨has, ne, out⟩ => ⟨⟨has, out⟩, ne⟩, fun ⟨⟨has, out⟩, ne⟩ => ⟨has, ne, out⟩⟩

end Sound

/-- What is no slot is not returned, and nothing happens. -/
theorem free_of_not_slot (pos : 0 < s.stride) (off : ¬s.HasSlot a) :
    Slab.free a ⟨s, m⟩ = .error (.stop (.foreignSlot a)) ⟨s, m⟩ := by
  have foreign : s.owns a = false := Bool.eq_false_iff.mpr ((owns_iff pos).not.mpr off)
  unfold Slab.free
  rw [Action.part_bind, Action.memory_bind, if_pos foreign]
  rfl

/-- A slot that is free already is not returned, and nothing happens. -/
theorem free_of_free (pos : 0 < s.stride) (slot : s.HasSlot a) (free : a ∈ s.freeChain m) :
    Slab.free a ⟨s, m⟩ = .error (.stop (.doubleFree a)) ⟨s, m⟩ := by
  unfold Slab.free
  rw [Action.part_bind, Action.memory_bind, if_neg (by rw [(owns_iff pos).mpr slot]; nofun),
    if_pos (isFree_iff.mpr free)]
  rfl

/-! ### Validation -/

/-- Slots that were not met before are counted. -/
theorem inspect_eq (pos : 0 < s.stride) (slots : ∀ a ∈ l, s.HasSlot a) (nodup : l.Nodup)
    (count seen : Nat) (fresh : ∀ a ∈ l, ∀ i, s.slotIndex a = some i → seen.testBit i = false) :
    s.inspect count seen l = .ok (count + l.length) := by
  -- `seen` has the bits of the slots that were met; those of the list stay clear until their turn.
  induction l generalizing count seen with
  | nil => rfl
  | cons a rest ih =>
    obtain ⟨out, nodup⟩ := List.nodup_cons.mp nodup
    obtain ⟨i, lt, at_i⟩ := slots a List.mem_cons_self
    have index := (slotIndex_eq_some_iff pos).mpr ⟨lt, at_i⟩
    unfold inspect
    rw [index]
    dsimp only
    rw [fresh a List.mem_cons_self i index, if_neg nofun,
      ih (fun b hb => slots b (List.mem_cons_of_mem a hb)) nodup, List.length_cons]
    · congr 1
      omega
    · intro b hb j at_j
      have ne : i ≠ j := by
        rintro rfl
        rw [slotIndex_eq_some_iff pos] at at_j
        exact out (at_i.trans at_j.2.symm ▸ hb)
      rw [Nat.testBit_or, fresh b (List.mem_cons_of_mem a hb) j at_j, Nat.one_shiftLeft,
        Nat.testBit_two_pow_of_ne ne]
      rfl

/-- **Validation of a sound slab** succeeds. -/
theorem Sound.validate_eq (h : s.Sound m) : s.validate m = .ok () := by
  have count : s.inspect 0 0 (s.freeChain m) = .ok (0 + (s.freeChain m).length) :=
    inspect_eq h.stride_pos h.free.slots h.free.nodup 0 0 fun _ _ i _ => Nat.zero_testBit i
  have left : s.freeSlots = .ok (s.capacity - s.allocated) :=
    Word.sub_eq_ok_iff.mpr ⟨h.allocated_le, rfl⟩
  have same : 0 + (s.freeChain m).length = s.capacity - s.allocated := by
    have := h.free.count
    omega
  unfold validate
  rw [count, left]
  exact if_pos same

/-! ### Threading -/

/-- Threading links the slots below `n` in front of what `next` leads to. -/
theorem linked_thread {first stride n next : Nat} (stride_le : 8 ≤ stride) (pos : 0 < first)
    (fits : first + n * stride < Word.bound) (next_lt : next < Word.bound)
    (linked : Linked m next l) (above : ∀ a ∈ l, first + n * stride ≤ a) :
    Linked (thread first stride n next m).2 (thread first stride n next m).1
        ((List.range n).map (fun i => first + i * stride) ++ l) ∧
      m.ChangedWithin (thread first stride n next m).2 first (first + n * stride) := by
  -- From the last slot down: what is linked already lies above and is not written to again.
  induction n generalizing next m l with
  | zero => exact ⟨linked, .refl m _ _⟩
  | succ n ih =>
    rw [Nat.succ_mul] at fits above
    have written := m.changedWithin_writeWord (first + n * stride) next
    have head : Linked (m.writeWord (first + n * stride) next) (first + n * stride)
        ((first + n * stride) :: l) := by
      refine .cons (by omega) ?_
      rw [Memory.readWord_writeWord next_lt]
      exact linked.frame fun a ha => written.readWord (.inr (by have := above a ha; omega))
    obtain ⟨rest, changed⟩ := ih (by omega) (by omega) head fun a ha => by
      rcases List.mem_cons.mp ha with rfl | ha
      · exact Nat.le_refl _
      · have := above a ha
        omega
    rw [thread, List.range_succ, List.map_append, List.append_assoc, Nat.succ_mul]
    exact ⟨rest, (written.mono (by omega) (by omega)).trans
      (changed.mono (Nat.le_refl _) (by omega))⟩

/-- Threading puts all slots on the free list, and writes nowhere else. -/
theorem Shaped.thread_spec (shaped : s.Shaped) (m : Memory) :
    FreeList { s with freeHead := (thread s.first s.stride s.capacity 0 m).1, allocated := 0 }
        (thread s.first s.stride s.capacity 0 m).2 ((List.range s.capacity).map s.slotAddr) ∧
      m.ChangedWithin (thread s.first s.stride s.capacity 0 m).2 s.first
        (s.first + s.capacity * s.stride) := by
  have := shaped.valid.start_pos
  have := shaped.valid.fits
  have := shaped.start_le
  have := shaped.stop_le
  have stride_pos := shaped.stride_pos
  obtain ⟨linked, changed⟩ := linked_thread (m := m) (n := s.capacity) shaped.stride_le
    (by omega : 0 < s.first) (by omega) (by decide) .nil nofun
  rw [List.append_nil] at linked
  refine ⟨⟨linked, fun a ha => ?_, ?_, ?_⟩, changed⟩
  · obtain ⟨i, lt, rfl⟩ := List.mem_map.mp ha
    exact ⟨i, List.mem_range.mp lt, rfl⟩
  · exact List.nodup_range.map fun i j e => slotAddr_inj stride_pos e
  · rw [List.length_map, List.length_range]
    exact Nat.zero_add _

end Slab

end LayeredMemory
