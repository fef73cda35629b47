import LayeredMemory.Proofs.Slab
import Mathlib.Order.Bounds.Basic

/-!
# Geometry — how an extent is cut into slots

The first slot starts at the first word boundary of the extent (`firstIn`), slots are as many words
apart as one of them needs (`strideOf`), and as many fit as the rest of the extent has room for
(`mostIn`). Sums that round up are checked, and one of them can stop the call: a slot of almost as
many bytes as there are addresses has no stride (`Overruns`).

* `firstIn_isLeast`, `strideOf_isLeast`, `mostIn_isGreatest`: the cut wastes nothing.
* `maxCapacity_eq`, `init_built`: what is computed, and how building a slab ends (`Built`), for
  every extent, every size and every number of slots.
* `init_spec`: a new slab over an extent that is cut without waste is sound.
* `read_thread`: a new slab has written the first words of its slots, and nothing else.
* `geometry_exact`: where slots have a stride, a slab is built exactly if it fits, and lies as it
  should.
* `construction_stops_iff`: where they have none, the call stops although it need not, as
  `construction_overflows` shows.
-/

namespace LayeredMemory.Slab

/-- The first word boundary of an extent, which may lie behind it. -/
def firstIn (e : Extent) : Nat :=
  (e.start + 7) / 8 * 8

/-- The distance between slots of `n` bytes. -/
def strideOf (n : Nat) : Nat :=
  (max n 8 + 7) / 8 * 8

/-- How many slots of `n` bytes an extent holds. -/
def mostIn (e : Extent) (n : Nat) : Nat :=
  (e.start + e.len - firstIn e) / strideOf n

/-- So many slots of `n` bytes lie side by side in the extent, each on a word boundary. -/
def HasRoom (e : Extent) (n capacity : Nat) : Prop :=
  ∃ first stride, 8 ∣ first ∧ e.start ≤ first ∧ 8 ∣ stride ∧ max n 8 ≤ stride ∧
    first + capacity * stride ≤ e.start + e.len

/-- There is a word boundary in the extent, and rounding `n` up leaves the range of words. -/
def Overruns (e : Extent) (n : Nat) : Prop :=
  Word.bound ≤ n + 8 ∧ firstIn e < e.start + e.len

variable {e : Extent} {n capacity k : Nat} {m : Memory}

/-! ### The cut -/

theorem firstIn_isLeast (e : Extent) : IsLeast {a | 8 ∣ a ∧ e.start ≤ a} (firstIn e) := by
  unfold firstIn
  refine ⟨⟨?_, ?_⟩, fun a ⟨aligned, le⟩ => ?_⟩ <;> omega

theorem strideOf_isLeast (n : Nat) : IsLeast {k | 8 ∣ k ∧ max n 8 ≤ k} (strideOf n) := by
  unfold strideOf
  refine ⟨⟨?_, ?_⟩, fun k ⟨aligned, le⟩ => ?_⟩ <;> omega

theorem strideOf_ge (n : Nat) : 8 ≤ strideOf n :=
  (Nat.le_max_right n 8).trans (strideOf_isLeast n).1.2

theorem mostIn_isGreatest (reached : firstIn e ≤ e.start + e.len) (n : Nat) :
    IsGreatest {k | firstIn e + k * strideOf n ≤ e.start + e.len} (mostIn e n) := by
  have pos : 0 < strideOf n := Nat.lt_of_lt_of_le (by decide) (strideOf_ge n)
  constructor
  · have := Nat.div_mul_le_self (e.start + e.len - firstIn e) (strideOf n)
    show firstIn e + mostIn e n * strideOf n ≤ e.start + e.len
    unfold mostIn
    omega
  · intro k fits
    have : firstIn e + k * strideOf n ≤ e.start + e.len := fits
    exact (Nat.le_div_iff_mul_le pos).mpr (by omega)

theorem mostIn_eq_zero (missed : e.start + e.len ≤ firstIn e) : mostIn e n = 0 := by
  unfold mostIn
  rw [Nat.sub_eq_zero_of_le missed, Nat.zero_div]

/-- As many slots fit as end inside the extent. -/
theorem le_mostIn_iff (some : 0 < k) :
    k ≤ mostIn e n ↔ firstIn e + k * strideOf n ≤ e.start + e.len := by
  have pos : 0 < strideOf n := Nat.lt_of_lt_of_le (by decide) (strideOf_ge n)
  have := Nat.mul_pos some pos
  unfold mostIn
  rw [Nat.le_div_iff_mul_le pos]
  omega

/-- No other cut has room for more. -/
theorem hasRoom_iff (some : 0 < capacity) : HasRoom e n capacity ↔ capacity ≤ mostIn e n := by
  rw [le_mostIn_iff some]
  constructor
  · rintro ⟨first, stride, aligned, le, whole, large, fits⟩
    have := (firstIn_isLeast e).2 ⟨aligned, le⟩
    have := Nat.mul_le_mul_left capacity ((strideOf_isLeast n).2 ⟨whole, large⟩)
    omega
  · intro fits
    exact ⟨_, _, (firstIn_isLeast e).1.1, (firstIn_isLeast e).1.2, (strideOf_isLeast n).1.1,
      (strideOf_isLeast n).1.2, fits⟩

theorem exists_boundary_iff : (∃ a ∈ e, 8 ∣ a) ↔ firstIn e < e.start + e.len := by
  constructor
  · rintro ⟨a, ⟨le, lt⟩, aligned⟩
    exact Nat.lt_of_le_of_lt ((firstIn_isLeast e).2 ⟨aligned, le⟩) lt
  · exact fun lt => ⟨_, ⟨(firstIn_isLeast e).1.2, lt⟩, (firstIn_isLeast e).1.1⟩

/-- What overruns has no room anyway. -/
theorem Overruns.mostIn_eq_zero (valid : e.Valid) (overruns : Overruns e n) : mostIn e n = 0 := by
  obtain ⟨large, -⟩ := overruns
  have := valid.fits
  have := valid.start_pos
  obtain ⟨aligned, le⟩ := (firstIn_isLeast e).1
  have wide := (strideOf_isLeast n).1.2
  exact Nat.div_eq_of_lt (by omega)

/-! ### What is computed -/

theorem strideFor_of_lt (small : n + 8 < Word.bound) : strideFor n = .ok (strideOf n) := by
  unfold strideFor strideOf
  rw [Word.bytes_eq, Align.up_eq rfl (by unfold Word.bound at *; omega)]

theorem strideFor_of_le (large : Word.bound ≤ n + 8) : strideFor n = .stop .addOverflow := by
  unfold strideFor
  rw [Word.bytes_eq, Align.up_eq_stop rfl (by omega)]

/-- How many slots fit is found out unless the stride overruns. -/
theorem maxCapacity_eq (valid : e.Valid) (pos : n ≠ 0) :
    maxCapacity e n = if firstIn e < e.start + e.len then
      (strideFor n).map fun stride => (e.start + e.len - firstIn e) / stride else .ok 0 := by
  unfold maxCapacity
  rw [if_neg pos]
  by_cases fits : e.start + 7 < Word.bound
  · rw [Align.ceil?_eq rfl fits]
    show (do let stop ← e.stop; if stop ≤ firstIn e then _ else _ : Checked Nat) = _
    rw [valid.stop_eq]
    show (if e.start + e.len ≤ firstIn e then _ else _ : Checked Nat) = _
    by_cases reached : firstIn e < e.start + e.len
    · rw [if_pos reached, if_neg (Nat.not_le.mpr reached)]
      cases strideFor n <;> rfl
    · rw [if_neg reached, if_pos (Nat.not_lt.mp reached)]
      rfl
  · -- The first boundary is no word, and so behind every extent that ends at one.
    have := valid.fits
    have missed : ¬ firstIn e < e.start + e.len := by unfold firstIn Word.bound at *; omega
    rw [Align.ceil?_eq_none (Nat.not_lt.mp fits), if_neg missed]
    rfl

theorem maxCapacity_of_overruns (valid : e.Valid) (overruns : Overruns e n) :
    maxCapacity e n = .stop .addOverflow := by
  have large := overruns.1
  rw [maxCapacity_eq valid (by unfold Word.bound at *; omega), if_pos overruns.2,
    strideFor_of_le large]
  rfl

theorem maxCapacity_of_not_overruns (valid : e.Valid) (pos : n ≠ 0) (calm : ¬Overruns e n) :
    maxCapacity e n = .ok (mostIn e n) := by
  rw [maxCapacity_eq valid pos]
  by_cases reached : firstIn e < e.start + e.len
  · have small : n + 8 < Word.bound := Nat.lt_of_not_le fun large => calm ⟨large, reached⟩
    rw [if_pos reached, strideFor_of_lt small]
    rfl
  · rw [if_neg reached, mostIn_eq_zero (Nat.le_of_not_lt reached)]

/-! ### Building -/

/-- Threading writes the first words of slots. -/
theorem read_thread {first stride next x : Nat}
    (off : ∀ i < n, x < first + i * stride ∨ first + i * stride + 8 ≤ x) :
    (thread first stride n next m).2.read x = m.read x := by
  induction n generalizing next m with
  | zero => rfl
  | succ n ih =>
    rw [thread, ih fun i lt => off i (Nat.lt_succ_of_lt lt)]
    exact m.changedWithin_writeWord _ _ x (off n (Nat.lt_succ_self n))

/-- A slab that was just built. -/
def fresh (e : Extent) (n capacity : Nat) (m : Memory) : Slab :=
  ⟨e, firstIn e, strideOf n, capacity, 0, (thread (firstIn e) (strideOf n) capacity 0 m).1⟩

/-- How building a slab ends. -/
inductive Built {σ : Type} (e : Extent) (n capacity : Nat) (p : σ) (m : Memory) :
    EStateM.Result Failure (Store σ) Slab → Prop
  | refused {reason : String} (unfit : n = 0 ∨ capacity = 0 ∨ mostIn e n < capacity)
      (calm : capacity = 0 ∨ ¬Overruns e n) :
      Built e n capacity p m (.error (.fault (.invalidArgument reason)) ⟨p, m⟩)
  | stopped (some : capacity ≠ 0) (overruns : Overruns e n) :
      Built e n capacity p m (.error (.stop .addOverflow) ⟨p, m⟩)
  | made (pos : 0 < n) (some : 0 < capacity) (calm : ¬Overruns e n) (fits : capacity ≤ mostIn e n) :
      Built e n capacity p m (.ok (fresh e n capacity m)
        ⟨p, (thread (firstIn e) (strideOf n) capacity 0 m).2⟩)

/-- **Building a slab** ends in one of three ways. -/
theorem init_built {σ : Type} (valid : e.Valid) (n capacity : Nat) (p : σ) (m : Memory) :
    Built e n capacity p m (Slab.init e n capacity ⟨p, m⟩) := by
  unfold Slab.init
  by_cases zero : n = 0
  · have calm : ¬Overruns e n := fun ⟨large, _⟩ => by unfold Word.bound at *; omega
    rw [if_pos zero]
    exact .refused (.inl zero) (.inr calm)
  by_cases none : capacity = 0
  · rw [if_neg zero, if_pos none]
    exact .refused (.inr (.inl none)) (.inl none)
  rw [if_neg zero, if_neg none]
  by_cases overruns : Overruns e n
  · rw [maxCapacity_of_overruns valid overruns]
    exact .stopped none overruns
  rw [Action.lift_ok_bind (maxCapacity_of_not_overruns valid zero overruns)]
  by_cases more : mostIn e n < capacity
  · rw [if_pos more]
    exact .refused (.inr (.inr more)) (.inr overruns)
  -- There is a slot in the extent, so neither of the sums that round up overruns.
  have some : 0 < capacity := Nat.pos_of_ne_zero none
  have fits := Nat.le_of_not_lt more
  have inside := (le_mostIn_iff some).mp fits
  have one := Nat.le_mul_of_pos_left (strideOf n) some
  have wide := strideOf_ge n
  have := (firstIn_isLeast e).1.2
  have := valid.fits
  have small : n + 8 < Word.bound := Nat.lt_of_not_le fun large => overruns ⟨large, by omega⟩
  have first : Align.up e.start Word.bytes = .ok (firstIn e) :=
    Align.up_eq rfl (by rw [Word.bytes_eq]; omega)
  have step := strideFor_of_lt small
  rw [if_neg more, Action.lift_ok_bind first]
  refine (Action.lift_ok_bind step _).symm ▸ ?_
  exact .made (Nat.pos_of_ne_zero zero) some overruns fits

/-! ### What stays -/

/-- The second slab is cut as the first, and differs in its free list and its count at the most. -/
def Recounts (s t : Slab) : Prop :=
  ∃ count head, t = { s with allocated := count, freeHead := head }

theorem Recounts.refl (s : Slab) : s.Recounts s :=
  ⟨_, _, rfl⟩

theorem Recounts.shaped {s t : Slab} (h : s.Recounts t) (shaped : s.Shaped) : t.Shaped := by
  obtain ⟨count, head, rfl⟩ := h
  exact ⟨shaped.valid, shaped.start_le, shaped.stop_le, shaped.stride_le⟩

/-- **Taking a slot** leaves the cut, on any memory. -/
theorem alloc_leaves (s : Slab) (m : Memory) : Action.Leaves s.Recounts Slab.alloc ⟨s, m⟩ := by
  unfold Slab.alloc
  refine .part ?_
  split
  · exact .fault (.refl s)
  · exact .memory (.modifyPart (.pure ⟨_, _, rfl⟩))

/-- **Returning an address** leaves the cut, whatever the address is. -/
theorem free_leaves (a : Nat) (s : Slab) (m : Memory) :
    Action.Leaves s.Recounts (Slab.free a) ⟨s, m⟩ := by
  unfold Slab.free
  refine .part (.memory ?_)
  split
  · exact .stop (.refl s)
  split
  · exact .stop (.refl s)
  refine .step (Action.writeWord_run ..) (.modifyPart (.bind (.lift _ ⟨_, _, rfl⟩) ?_))
  rintro left ⟨_, m'⟩ ⟨count, head, rfl⟩
  exact .finish ⟨_, _, rfl⟩

/-! ### What was built -/

theorem fresh_shaped (valid : e.Valid) (some : 0 < capacity) (fits : capacity ≤ mostIn e n)
    (m : Memory) : (fresh e n capacity m).Shaped :=
  ⟨valid, (firstIn_isLeast e).1.2, (le_mostIn_iff some).mp fits, strideOf_ge n⟩

/-- **Building a slab** over an extent that is cut without waste: none of its slots is taken. -/
theorem init_spec {σ : Type} (p : σ) (m : Memory) {e : Extent} {stride capacity : Nat}
    (valid : e.Valid) (aligned : 8 ∣ e.start) (stride_aligned : 8 ∣ stride)
    (stride_le : 8 ≤ stride) (pos : 0 < capacity) (room : capacity * stride ≤ e.len) :
    ∃ head m', Slab.init e stride capacity ⟨p, m⟩ =
        .ok ⟨e, e.start, stride, capacity, 0, head⟩ ⟨p, m'⟩ ∧
      Sound ⟨e, e.start, stride, capacity, 0, head⟩ m' ∧
      m.ChangedWithin m' e.start (e.start + e.len) := by
  have start_pos := valid.start_pos
  have fits := valid.fits
  have one : stride ≤ capacity * stride := Nat.le_mul_of_pos_left stride pos
  -- The start and the stride are multiples of a word already, so rounding changes neither.
  have first_eq : firstIn e = e.start := by unfold firstIn; omega
  have stride_eq : strideOf stride = stride := by unfold strideOf; omega
  have enough : capacity ≤ mostIn e stride := by
    rw [le_mostIn_iff pos, first_eq, stride_eq]
    exact Nat.add_le_add_left room _
  have calm : ¬Overruns e stride := fun overruns => by
    have := overruns.1
    omega
  have shaped := fresh_shaped valid pos enough m
  obtain ⟨free, changed⟩ := shaped.thread_spec m
  have built := init_built valid stride capacity p m
  generalize Slab.init e stride capacity ⟨p, m⟩ = r at built
  cases built with
  | refused unfit _ => omega
  | stopped _ overruns => exact absurd overruns calm
  | made =>
    have sound := shaped.sound free
    have inside := shaped.stop_le
    unfold fresh at sound changed inside ⊢
    rw [first_eq, stride_eq] at *
    exact ⟨_, _, rfl, sound, changed.mono (Nat.le_refl _) inside⟩

/-- The slots of a slab that was built: words apart and inside the extent, they are found by their
addresses, and only their first words were written. -/
structure Cuts (e : Extent) (first stride capacity : Nat) (m : Memory) (s : Slab) (m' : Memory) :
    Prop where
  aligned : ∀ i < capacity, 8 ∣ first + i * stride
  inside : ∀ i < capacity, e.start ≤ first + i * stride ∧
    first + i * stride + stride ≤ e.start + e.len
  apart : ∀ i j, i ≠ j →
    (⟨first + i * stride, stride⟩ : Extent).Apart ⟨first + j * stride, stride⟩
  written : ∀ x, (∀ i < capacity, x ∉ (⟨first + i * stride, 8⟩ : Extent)) →
    m'.read x = m.read x
  slotIndex : ∀ a i, s.slotIndex a = some i ↔ i < capacity ∧ a = first + i * stride
  owns : ∀ a, s.owns a = true ↔ ∃ i < capacity, a = first + i * stride

/-- **The slots of a new slab** are where they should be. -/
theorem fresh_cuts (valid : e.Valid) (some : 0 < capacity) (fits : capacity ≤ mostIn e n)
    (m : Memory) :
    Cuts e (firstIn e) (strideOf n) capacity m (fresh e n capacity m)
      (thread (firstIn e) (strideOf n) capacity 0 m).2 := by
  have shaped := fresh_shaped valid some fits m
  have pos := shaped.stride_pos
  refine ⟨fun i _ => ?_, fun i lt => (shaped.slot_bounds ⟨i, lt, rfl⟩).2, fun i j ne => ?_,
    fun x off => read_thread fun i lt => ?_, fun a i => slotIndex_eq_some_iff pos,
    fun a => owns_iff pos⟩
  · exact Nat.dvd_add (firstIn_isLeast e).1.1 (Nat.dvd_mul_left_of_dvd (strideOf_isLeast n).1.1 i)
  · exact slotAddr_apart (s := fresh e n capacity m) ne
  · have := off i lt
    rw [Extent.mem_iff] at this
    dsimp only at this
    omega

/-- **The cut is exact.** Where the distance between slots of `n` bytes is a word, an extent holds
as many of them as fit from its first word boundary on. A slab is built exactly if it has slots, and
no more than that; its slots lie inside the extent as they should, and nothing but their first words
was written. Otherwise it is refused and nothing changes. -/
theorem geometry_exact (valid : e.Valid) (pos : 0 < n) (small : n + 8 < Word.bound) :
    ∃ first stride most, IsLeast {a | 8 ∣ a ∧ e.start ≤ a} first ∧
      IsLeast {k | 8 ∣ k ∧ max n 8 ≤ k} stride ∧
      strideFor n = .ok stride ∧ maxCapacity e n = .ok most ∧
      (first ≤ e.start + e.len → IsGreatest {k | first + k * stride ≤ e.start + e.len} most) ∧
      (e.start + e.len < first → most = 0) ∧
      ∀ {σ : Type} (p : σ) (m : Memory) (capacity : Nat),
        ((∃ s t, Slab.init e n capacity ⟨p, m⟩ = .ok s t) ↔ 1 ≤ capacity ∧ capacity ≤ most) ∧
        ((¬∃ s t, Slab.init e n capacity ⟨p, m⟩ = .ok s t) → ∃ reason,
          Slab.init e n capacity ⟨p, m⟩ = .error (.fault (.invalidArgument reason)) ⟨p, m⟩) ∧
        ∀ s t, Slab.init e n capacity ⟨p, m⟩ = .ok s t → t.part = p ∧ s.extent = e ∧
          s.capacity = capacity ∧ s.allocated = 0 ∧ Cuts e first stride capacity m s t.memory := by
  have calm : ¬Overruns e n := fun overruns => Nat.not_le.mpr small overruns.1
  refine ⟨firstIn e, strideOf n, mostIn e n, firstIn_isLeast e, strideOf_isLeast n,
    strideFor_of_lt small, maxCapacity_of_not_overruns valid pos.ne' calm,
    fun reached => mostIn_isGreatest reached n, fun missed => mostIn_eq_zero missed.le,
    fun {σ} p m capacity => ?_⟩
  have built := init_built valid n capacity p m
  generalize Slab.init e n capacity ⟨p, m⟩ = r at built
  cases built with
  | refused unfit _ =>
    refine ⟨⟨nofun, fun fits => ?_⟩, fun _ => ⟨_, rfl⟩, nofun⟩
    omega
  | stopped _ overruns => exact absurd overruns calm
  | made _ some _ fits =>
    refine ⟨⟨fun _ => ⟨some, fits⟩, fun _ => ⟨_, _, rfl⟩⟩, fun none => (none ⟨_, _, rfl⟩).elim, ?_⟩
    rintro _ _ ⟨⟩
    exact ⟨rfl, rfl, rfl, rfl, fresh_cuts valid some fits m⟩

theorem geometry_exact_unaligned : ∃ s t,
    Slab.init ⟨4097, 40⟩ 12 2 ⟨(), Memory.zero⟩ = .ok s t ∧ s.slotIndex 4120 = some 1 ∧
    s.owns 4112 = false ∧ maxCapacity ⟨4097, 40⟩ 12 = .ok 2 := by
  obtain ⟨first, stride, most, least, least', -, computed, greatest, -, built⟩ :=
    geometry_exact (e := ⟨4097, 40⟩) (n := 12) ⟨by decide, by decide⟩ (by decide) (by decide)
  obtain rfl : first = 4104 :=
    least.unique ⟨by decide, fun a ⟨aligned, (le : 4097 ≤ a)⟩ => by omega⟩
  obtain rfl : stride = 16 :=
    least'.unique ⟨by decide, fun k ⟨aligned, (le : 12 ≤ k)⟩ => by omega⟩
  obtain rfl : most = 2 := (greatest (by decide)).unique
    ⟨by decide, fun k (fits : 4104 + k * 16 ≤ 4137) => by omega⟩
  obtain ⟨made, -, cut⟩ := built () Memory.zero 2
  obtain ⟨s, t, run⟩ := made.mpr (by decide)
  obtain ⟨-, -, -, -, cuts⟩ := cut s t run
  refine ⟨s, t, run, (cuts.slotIndex 4120 1).mpr (by decide), ?_, computed⟩
  rw [Bool.eq_false_iff, ne_eq, cuts.owns]
  rintro ⟨i, lt, at_i⟩
  omega

/-- **Only a stride can overrun.** For every valid extent, every size and every number of slots:
counting slots stops exactly if there is a word boundary in the extent and the distance between
slots of `n` bytes is no word, and building a slab then stops too, if it is to have slots at all.
Nothing else stops it, and it leaves everything as it was. In all other cases a slab without slots,
of slots without bytes, or of more slots than the extent has room for is refused. -/
theorem construction_stops_iff {σ : Type} (valid : e.Valid) (n capacity : Nat) (p : σ)
    (m : Memory) :
    (maxCapacity e n = .stop .addOverflow ↔ Word.bound ≤ n + 8 ∧ ∃ a ∈ e, 8 ∣ a) ∧
      (maxCapacity e n ≠ .stop .addOverflow → ∃ most, maxCapacity e n = .ok most) ∧
      (Slab.init e n capacity ⟨p, m⟩ = .error (.stop .addOverflow) ⟨p, m⟩ ↔
        capacity ≠ 0 ∧ Word.bound ≤ n + 8 ∧ ∃ a ∈ e, 8 ∣ a) ∧
      (∀ k t, Slab.init e n capacity ⟨p, m⟩ = .error (.stop k) t → k = .addOverflow ∧ t = ⟨p, m⟩) ∧
      (n = 0 ∨ capacity = 0 ∨ ¬HasRoom e n capacity →
        capacity = 0 ∨ n + 8 < Word.bound ∨ ¬(∃ a ∈ e, 8 ∣ a) → ∃ reason,
          Slab.init e n capacity ⟨p, m⟩ = .error (.fault (.invalidArgument reason)) ⟨p, m⟩) := by
  rw [exists_boundary_iff]
  have built := init_built valid n capacity p m
  generalize Slab.init e n capacity ⟨p, m⟩ = r at built
  have counts : ¬Overruns e n → ∃ most, maxCapacity e n = .ok most := fun calm => by
    by_cases zero : n = 0
    · exact ⟨0, if_pos zero⟩
    · exact ⟨_, maxCapacity_of_not_overruns valid zero calm⟩
  refine ⟨⟨fun stops => ?_, maxCapacity_of_overruns valid⟩, fun goes => ?_, ?_⟩
  · by_contra calm
    obtain ⟨most, computed⟩ := counts calm
    cases stops.symm.trans computed
  · exact counts fun overruns => goes (maxCapacity_of_overruns valid overruns)
  cases built with
  | refused unfit calm =>
    refine ⟨⟨nofun, ?_⟩, nofun, fun _ _ => ⟨_, rfl⟩⟩
    rintro ⟨some, overruns⟩
    exact (calm.resolve_left some overruns).elim
  | stopped some overruns =>
    refine ⟨⟨fun _ => ⟨some, overruns⟩, fun _ => rfl⟩, ?_, fun _ exempt => ?_⟩
    · rintro _ _ ⟨⟩
      exact ⟨rfl, rfl⟩
    · obtain none | small | missed := exempt
      · exact absurd none some
      · exact absurd overruns.1 (Nat.not_le.mpr small)
      · exact absurd overruns.2 missed
  | made pos some calm fits =>
    refine ⟨⟨nofun, fun ⟨_, overruns⟩ => absurd overruns calm⟩, nofun, fun unfit _ => ?_⟩
    obtain zero | none | crowded := unfit
    · exact absurd zero pos.ne'
    · exact absurd none some.ne'
    · exact absurd ((hasRoom_iff some).mpr fits) crowded

theorem construction_stops_iff_brink :
    Slab.init ⟨4096, 64⟩ (2 ^ 64 - 8) 1 ⟨(), Memory.zero⟩ =
        .error (.stop .addOverflow) ⟨(), Memory.zero⟩ ∧
      maxCapacity ⟨4096, 64⟩ (2 ^ 64 - 9) ≠ .stop .addOverflow := by
  have valid : Extent.Valid ⟨4096, 64⟩ := ⟨by decide, by decide⟩
  obtain ⟨-, -, stops, -⟩ := construction_stops_iff valid (2 ^ 64 - 8) 1 () Memory.zero
  obtain ⟨counts, -⟩ := construction_stops_iff valid (2 ^ 64 - 9) 1 () Memory.zero
  have boundary : ∃ a ∈ (⟨4096, 64⟩ : Extent), 8 ∣ a :=
    ⟨4096, ⟨by decide, by decide⟩, by decide⟩
  refine ⟨stops.mpr ⟨by decide, by decide, boundary⟩, fun stopped => ?_⟩
  exact absurd (counts.mp stopped).1 (by decide)

/-- A single slot of as many bytes as there are addresses does not fit, and is not refused. -/
theorem construction_overflows :
    Extent.Valid ⟨4096, 64⟩ ∧ ¬HasRoom ⟨4096, 64⟩ Word.max 1 ∧
      maxCapacity ⟨4096, 64⟩ Word.max = .stop .addOverflow ∧
      Slab.init ⟨4096, 64⟩ Word.max 1 ⟨(), Memory.zero⟩ =
        .error (.stop .addOverflow) ⟨(), Memory.zero⟩ := by
  have valid : Extent.Valid ⟨4096, 64⟩ := ⟨by decide, by decide⟩
  have overruns : Overruns ⟨4096, 64⟩ Word.max := ⟨by decide, by decide⟩
  refine ⟨valid, ?_, maxCapacity_of_overruns valid overruns, ?_⟩
  · rw [hasRoom_iff Nat.one_pos, overruns.mostIn_eq_zero valid]
    decide
  · have built := init_built valid Word.max 1 () Memory.zero
    generalize Slab.init ⟨4096, 64⟩ Word.max 1 ⟨(), Memory.zero⟩ = r at built
    cases built with
    | refused _ calm => exact absurd overruns (calm.resolve_left (by decide))
    | stopped _ _ => rfl
    | made _ _ calm _ => exact absurd overruns calm

end LayeredMemory.Slab
