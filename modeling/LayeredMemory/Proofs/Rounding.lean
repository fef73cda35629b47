import LayeredMemory.Proofs.Heap.Tag
import Mathlib.Order.Bounds.Basic

/-!
# Rounding — masks find the nearest boundaries

A boundary is a multiple of the alignment. The nearest ones below and above an address are a
greatest and a least element (`floor_isGreatest`, `ceil_isLeast`), and so no rounding is closer.

Rounding up adds `a - 1` before the mask, and that sum may leave the range of words. It does so
exactly where the boundary itself is no word (`ceil_lt_bound_iff`), because the range of words ends
at a boundary. The sum that `Align.up` makes is one larger and gives up earlier.

* `ceil?_eq_ite`, `up?_eq`, `up_eq_ite`, `down_eq`, `test_eq`: every operation in terms of division.
* `blockSizeFor_eq_ite`: the size of a block is such a boundary, as far as blocks go.
* `rounding_exact`: all of them find the nearest boundary wherever it is a word.
-/

namespace LayeredMemory

namespace Align

variable {v a : Nat}

/-! ### Boundaries -/

theorem floor_isGreatest (v a : Nat) (pos : 0 < a) :
    IsGreatest {m | a ∣ m ∧ m ≤ v} (v / a * a) := by
  refine ⟨⟨Nat.dvd_mul_left a _, Nat.div_mul_le_self v a⟩, ?_⟩
  rintro m ⟨⟨q, rfl⟩, le⟩
  rw [Nat.mul_comm] at le ⊢
  exact Nat.mul_le_mul_right a ((Nat.le_div_iff_mul_le pos).mpr le)

theorem ceil_isLeast (v a : Nat) (pos : 0 < a) :
    IsLeast {m | a ∣ m ∧ v ≤ m} ((v + (a - 1)) / a * a) := by
  constructor
  · have rest := Nat.div_add_mod' (v + (a - 1)) a
    have small := Nat.mod_lt (v + (a - 1)) pos
    exact ⟨Nat.dvd_mul_left a _, by omega⟩
  · rintro m ⟨⟨q, rfl⟩, le⟩
    have quotient : (v + (a - 1)) / a < q + 1 := by
      rw [Nat.div_lt_iff_lt_mul pos, Nat.add_mul, Nat.one_mul, Nat.mul_comm q a]
      omega
    rw [Nat.mul_comm a q]
    exact Nat.mul_le_mul_right a (Nat.le_of_lt_succ quotient)

/-- Rounding down does not pass a boundary. -/
theorem floor_lt_iff {b : Nat} (pos : 0 < a) (boundary : a ∣ b) : v / a * a < b ↔ v < b := by
  refine ⟨fun lt => ?_, Nat.lt_of_le_of_lt (Nat.div_mul_le_self v a)⟩
  by_contra le
  exact Nat.not_le.mpr lt ((floor_isGreatest v a pos).2 ⟨boundary, Nat.le_of_not_lt le⟩)

/-- The range of words ends at a boundary, whatever the alignment is. -/
theorem dvd_bound (ha : isPowerOfTwo a = true) (fits : a ≤ Word.bound) : a ∣ Word.bound := by
  obtain ⟨k, rfl⟩ := isPowerOfTwo_iff.mp ha
  rw [Word.bound_eq] at fits ⊢
  exact Nat.pow_dvd_pow 2 ((Nat.pow_le_pow_iff_right (by decide : 1 < 2)).mp fits)

/-- **The sum overflows only where the boundary is no word.** -/
theorem ceil_lt_bound_iff (ha : isPowerOfTwo a = true) (fits : a ≤ Word.bound) :
    (v + (a - 1)) / a * a < Word.bound ↔ v + (a - 1) < Word.bound :=
  floor_lt_iff (pos_of_isPowerOfTwo ha) (dvd_bound ha fits)

/-! ### The operations -/

theorem ceil?_eq_ite (ha : isPowerOfTwo a = true) (fits : a ≤ Word.bound) :
    ceil? v a =
      if (v + (a - 1)) / a * a < Word.bound then some ((v + (a - 1)) / a * a) else none := by
  by_cases inside : v + (a - 1) < Word.bound
  · rw [if_pos ((ceil_lt_bound_iff ha fits).mpr inside), ceil?_eq ha inside]
  · rw [if_neg ((ceil_lt_bound_iff ha fits).not.mpr inside),
      ceil?_eq_none (Nat.le_of_not_lt inside)]

theorem guardAlignment_eq (ha : isPowerOfTwo a = true) : guardAlignment a = .ok () :=
  if_pos ha

theorem up?_eq (ha : isPowerOfTwo a = true) : up? v a = .ok (ceil? v a) := by
  unfold up?
  rw [guardAlignment_eq ha]
  rfl

theorem up_eq_ite (ha : isPowerOfTwo a = true) :
    up v a =
      if v + a < Word.bound then .ok ((v + (a - 1)) / a * a) else .stop .addOverflow := by
  split
  · next fits => exact up_eq ha fits
  · next large => exact up_eq_stop ha (Nat.le_of_not_lt large)

theorem down_eq (ha : isPowerOfTwo a = true) (word : v < Word.bound) (fits : a ≤ Word.bound) :
    down v a = .ok (v / a * a) := by
  unfold down
  rw [guardAlignment_eq ha, floorMask_eq ha word fits]
  rfl

theorem test_eq (ha : isPowerOfTwo a = true) : test v a = .ok (decide (a ∣ v)) := by
  have mask : Word.sub a 1 = .ok (a - 1) := Word.sub_eq_ok_iff.mpr ⟨pos_of_isPowerOfTwo ha, rfl⟩
  unfold test
  rw [mask]
  exact congrArg Except.ok (Bool.eq_iff_iff.mpr ((isMultiple_iff ha).trans decide_eq_true_iff.symm))

end Align

/-! ### Block sizes -/

theorem ceil_behind_header_isLeast (n : Nat) :
    IsLeast {m | 16 ∣ m ∧ max (n + 8) 16 ≤ m} ((n + 23) / 16 * 16) := by
  refine ⟨⟨?_, ?_⟩, fun m ⟨aligned, room⟩ => ?_⟩ <;> omega

theorem blockSizeFor_eq_ite (n : Nat) :
    blockSizeFor n =
      if (n + 23) / 16 * 16 ≤ Word.signedMax then some ((n + 23) / 16 * 16) else none := by
  split
  · next fits => exact blockSizeFor_eq_some_iff.mpr ⟨by omega, fits⟩
  · next large =>
    refine Option.eq_none_iff_forall_ne_some.mpr fun size fit => ?_
    exact large (blockSizeFor_eq_some_iff.mp fit).2

/-- **Masks round exactly.** Let `a` be a power of two among the words. Rounding any word up finds
the least multiple of `a` from there on if that is a word, and has no answer if it is none; the form
that stops does so exactly where the sum with `a` is no word, and finds the same multiple elsewhere.
Rounding down finds the greatest multiple so far, and the test holds for multiples only. So the
block for `n` bytes has the least size in granules with room for a header and for the bytes, and no
size if that is no signed word. -/
theorem rounding_exact :
    (∀ a v, (∃ k, a = 2 ^ k) → a < Word.bound → v < Word.bound →
      (∃ r, IsLeast {m | a ∣ m ∧ v ≤ m} r ∧
        Align.up? v a = .ok (if r < Word.bound then some r else none) ∧
        Align.ceil? v a = (if r < Word.bound then some r else none) ∧
        Align.up v a = if v + a < Word.bound then .ok r else .stop .addOverflow) ∧
      (∃ r, IsGreatest {m | a ∣ m ∧ m ≤ v} r ∧ Align.down v a = .ok r) ∧
      Align.test v a = .ok (decide (a ∣ v)) ∧ (Align.isMultiple v a = true ↔ a ∣ v)) ∧
    ∀ n, ∃ size, IsLeast {m | 16 ∣ m ∧ max (n + 8) 16 ≤ m} size ∧
      blockSizeFor n = if size ≤ Word.signedMax then some size else none := by
  refine ⟨fun a v power fits word => ?_, fun n =>
    ⟨_, ceil_behind_header_isLeast n, blockSizeFor_eq_ite n⟩⟩
  have ha := Align.isPowerOfTwo_iff.mpr power
  have pos := Align.pos_of_isPowerOfTwo ha
  have rounded := Align.ceil?_eq_ite (v := v) ha fits.le
  refine ⟨⟨_, Align.ceil_isLeast v a pos, ?_, rounded, Align.up_eq_ite ha⟩,
    ⟨_, Align.floor_isGreatest v a pos, Align.down_eq ha word fits.le⟩, Align.test_eq ha,
    Align.isMultiple_iff ha⟩
  rw [Align.up?_eq ha, rounded]

/-- Two addresses on the last page: one has a boundary above it among the words, one has none. -/
theorem rounding_exact_last_page :
    Align.up? (2 ^ 64 - 4097) 4096 = .ok (some (2 ^ 64 - 4096)) ∧
      Align.up (2 ^ 64 - 4096) 4096 = .stop .addOverflow ∧
      Align.up? (2 ^ 64 - 4095) 4096 = .ok none ∧
      Align.down (2 ^ 64 - 1) 4096 = .ok (2 ^ 64 - 4096) ∧ blockSizeFor 25 = some 48 := by
  obtain ⟨rounds, sizes⟩ := rounding_exact
  have power : ∃ k, 4096 = 2 ^ k := ⟨12, rfl⟩
  obtain ⟨⟨above, least, up, -, -⟩, -⟩ :=
    rounds 4096 (2 ^ 64 - 4097) power (by decide) (by decide)
  obtain ⟨⟨_, -, -, -, stopped⟩, -⟩ := rounds 4096 (2 ^ 64 - 4096) power (by decide) (by decide)
  obtain ⟨⟨beyond, least', up', -, -⟩, -⟩ :=
    rounds 4096 (2 ^ 64 - 4095) power (by decide) (by decide)
  obtain ⟨-, ⟨below, greatest, down⟩, -⟩ := rounds 4096 (2 ^ 64 - 1) power (by decide) (by decide)
  obtain ⟨size, smallest, fit⟩ := sizes 25
  obtain rfl : above = 2 ^ 64 - 4096 :=
    least.unique ⟨by decide, fun m ⟨aligned, (le : 2 ^ 64 - 4097 ≤ m)⟩ => by omega⟩
  obtain rfl : beyond = 2 ^ 64 :=
    least'.unique ⟨by decide, fun m ⟨aligned, (le : 2 ^ 64 - 4095 ≤ m)⟩ => by omega⟩
  obtain rfl : below = 2 ^ 64 - 4096 :=
    greatest.unique ⟨by decide, fun m ⟨aligned, (le : m ≤ 2 ^ 64 - 1)⟩ => by omega⟩
  obtain rfl : size = 48 :=
    smallest.unique ⟨by decide, fun m ⟨aligned, (room : max (25 + 8) 16 ≤ m)⟩ => by omega⟩
  exact ⟨up, stopped, up', down, fit⟩

end LayeredMemory
