import LayeredMemory.Heap.Walk
import Mathlib.Algebra.GroupWithZero.Nat
import Mathlib.Order.MinMax

/-!
# Reports — what validation adds up

`Heap.report` says what a report is about, without counting block by block: how many blocks are
allocated and how many free, and the sums of their sizes. `validate_of_blocks` says that this is
what validation answers when a walk succeeds and the cursor is found.
-/

namespace LayeredMemory.Heap

variable {γ : Type} {h : Heap γ} {m : Memory} {p : Bool} {b : BlockInfo} {bs : List BlockInfo}
  {d : Damage}

/-- The sizes of the blocks that are allocated, or of those that are not. -/
def sizes (allocated : Bool) (bs : List BlockInfo) : List Nat :=
  (bs.filter (·.allocated == allocated)).map (·.size)

/-- The report on a heap with these blocks. -/
def report (h : Heap γ) (bs : List BlockInfo) : HeapStats where
  segments := h.segments.length
  totalBytes := Segment.total h.segments
  allocatedBytes := (sizes true bs).sum
  freeBytes := (sizes false bs).sum
  allocatedBlocks := (sizes true bs).length
  freeBlocks := (sizes false bs).length
  largestFree := (sizes false bs).foldl max 0

theorem sizes_cons_same (h : b.allocated = p) : sizes p (b :: bs) = b.size :: sizes p bs := by
  unfold sizes
  rw [List.filter_cons_of_pos (by rw [h, beq_self_eq_true]), List.map_cons]

theorem sizes_cons_other (h : b.allocated = !p) : sizes p (b :: bs) = sizes p bs := by
  unfold sizes
  rw [List.filter_cons_of_neg]
  rw [h]
  cases p <;> decide

theorem foldl_count_eq (bs : List BlockInfo) (r : HeapStats) :
    bs.foldl HeapStats.count r =
      { r with
        allocatedBytes := r.allocatedBytes + (sizes true bs).sum
        freeBytes := r.freeBytes + (sizes false bs).sum
        allocatedBlocks := r.allocatedBlocks + (sizes true bs).length
        freeBlocks := r.freeBlocks + (sizes false bs).length
        largestFree := (sizes false bs).foldl max r.largestFree } := by
  induction bs generalizing r with
  | nil => rfl
  | cons b bs ih =>
    rw [List.foldl_cons, ih]
    unfold HeapStats.count
    cases live : b.allocated with
    | true =>
      rw [if_pos rfl, sizes_cons_same live, sizes_cons_other live, List.sum_cons,
        List.length_cons, Nat.add_assoc, Nat.add_assoc, Nat.add_comm 1]
    | false =>
      rw [if_neg Bool.false_ne_true, sizes_cons_same live, sizes_cons_other live, List.sum_cons,
        List.length_cons, List.foldl_cons, Nat.add_assoc, Nat.add_assoc, Nat.add_comm 1]

theorem sum_sizes (bs : List BlockInfo) :
    (sizes true bs).sum + (sizes false bs).sum = BlockInfo.total bs := by
  induction bs with
  | nil => rfl
  | cons b bs ih =>
    rw [BlockInfo.total, ← ih]
    cases live : b.allocated with
    | true =>
      rw [sizes_cons_same live, sizes_cons_other live, List.sum_cons, Nat.add_assoc]
    | false =>
      rw [sizes_cons_same live, sizes_cons_other live, List.sum_cons, Nat.add_left_comm]

theorem length_sizes (bs : List BlockInfo) :
    (sizes true bs).length + (sizes false bs).length = bs.length := by
  induction bs with
  | nil => rfl
  | cons b bs ih =>
    rw [List.length_cons, ← ih]
    cases live : b.allocated with
    | true =>
      rw [sizes_cons_same live, sizes_cons_other live, List.length_cons, Nat.add_right_comm]
    | false =>
      rw [sizes_cons_same live, sizes_cons_other live, List.length_cons, Nat.add_assoc]

theorem le_foldl_max_iff {n r : Nat} {l : List Nat} :
    n ≤ l.foldl max r ↔ n ≤ r ∨ ∃ x ∈ l, n ≤ x := by
  induction l generalizing r with
  | nil => simp
  | cons x l ih =>
    simp only [List.foldl_cons, ih, le_max_iff, List.mem_cons, exists_eq_or_imp, or_assoc]

/-- The largest free block is large enough for whatever one of them is. -/
theorem le_largestFree_iff {n : Nat} (pos : 0 < n) :
    n ≤ (h.report bs).largestFree ↔ ∃ b ∈ bs, b.allocated = false ∧ n ≤ b.size := by
  unfold report
  rw [le_foldl_max_iff, or_iff_right (Nat.not_le_of_lt pos)]
  constructor
  · rintro ⟨_, found, le⟩
    obtain ⟨b, hb, rfl⟩ := List.mem_map.mp found
    obtain ⟨hb, free⟩ := List.mem_filter.mp hb
    exact ⟨b, hb, beq_iff_eq.mp free, le⟩
  · rintro ⟨b, hb, free, le⟩
    exact ⟨b.size, List.mem_map_of_mem (List.mem_filter.mpr ⟨hb, beq_iff_eq.mpr free⟩), le⟩

theorem validate_of_blocks (walked : h.blocks m = .ok bs) :
    h.validate m =
      if h.cursorFound bs then .ok (h.report bs) else .error (.cursor (h.cursor.getD 0)) := by
  unfold validate report
  rw [walked]
  show (if _ then _ else _) = _
  rw [foldl_count_eq]
  simp only [Nat.zero_add]
  rfl

theorem validate_of_error (walked : h.blocks m = .error d) : h.validate m = .error d := by
  unfold validate
  rw [walked]
  rfl

end LayeredMemory.Heap
