import LayeredMemory.Align
import Mathlib.Algebra.Group.Nat.Defs

/-!
# Alignment — masks are division

Alignments are powers of two, so clearing the bits below one is rounding down in the sense of
division (`floorMask_eq`). The rounding operations follow: `up_eq` and `ceil?_eq` give the first
boundary at or after an address, `isMultiple_iff` the test for one. No bit appears after this
module.
-/

namespace LayeredMemory

theorem Word.bytes_eq : Word.bytes = 8 := rfl

theorem Word.bound_eq : Word.bound = 2 ^ 64 := rfl

theorem bytes_isPowerOfTwo : Align.isPowerOfTwo Word.bytes = true := rfl

namespace Align

theorem isPowerOfTwo_iff {a : Nat} : isPowerOfTwo a = true ↔ ∃ k, a = 2 ^ k := by
  unfold isPowerOfTwo
  rw [Bool.and_eq_true, bne_iff_ne, beq_iff_eq]
  exact Nat.ne_zero_and_sub_one_eq_zero_iff_isPowerOfTwo

theorem pos_of_isPowerOfTwo {a : Nat} (h : isPowerOfTwo a = true) : 0 < a := by
  obtain ⟨k, rfl⟩ := isPowerOfTwo_iff.mp h
  exact Nat.two_pow_pos k

/-- Clearing the low `k` bits of a word. -/
theorem floorMask_two_pow {v k : Nat} (hv : v < Word.bound) (hk : k ≤ 64) :
    floorMask v (2 ^ k) = v / 2 ^ k * 2 ^ k := by
  have fits : v < 2 ^ 64 := hv
  have small : 2 ^ k - 1 < 2 ^ 64 := by
    have := Nat.pow_le_pow_right (n := 2) (by decide) hk
    have := Nat.two_pow_pos k
    omega
  have mask : (BitVec.ofNat 64 (2 ^ k - 1)).toNat = 2 ^ k - 1 := Nat.mod_eq_of_lt small
  apply Nat.eq_of_testBit_eq
  intro i
  unfold floorMask
  rw [← BitVec.getLsbD, BitVec.getLsbD_and, BitVec.getLsbD_not, BitVec.getLsbD_ofNat,
    BitVec.getLsbD_ofNat, Nat.testBit_two_pow_sub_one, Nat.testBit_mul_two_pow,
    Nat.testBit_div_two_pow]
  by_cases low : i < k
  · simp [low, Nat.not_le.mpr low]
  · by_cases high : i < 64
    · simp [low, high, Nat.not_lt.mp low]
    · have : v.testBit i = false :=
        Nat.testBit_lt_two_pow
          (Nat.lt_of_lt_of_le fits (Nat.pow_le_pow_right (by decide) (by omega)))
      simp [high, Nat.not_lt.mp low, this]

/-- **The mask rounds down.** -/
theorem floorMask_eq {v a : Nat} (ha : isPowerOfTwo a = true) (hv : v < Word.bound)
    (fits : a ≤ Word.bound) : floorMask v a = v / a * a := by
  obtain ⟨k, rfl⟩ := isPowerOfTwo_iff.mp ha
  exact floorMask_two_pow hv ((Nat.pow_le_pow_iff_right (by decide : 1 < 2)).mp fits)

theorem ceil?_eq {v a : Nat} (ha : isPowerOfTwo a = true) (fits : v + (a - 1) < Word.bound) :
    ceil? v a = some ((v + (a - 1)) / a * a) := by
  have := pos_of_isPowerOfTwo ha
  unfold ceil? Word.add?
  rw [if_pos fits, Option.map_some, floorMask_eq ha fits (by omega)]

theorem ceil?_eq_none {v a : Nat} (large : Word.bound ≤ v + (a - 1)) : ceil? v a = none := by
  unfold ceil? Word.add?
  rw [if_neg (by omega), Option.map_none]

theorem up_eq {v a : Nat} (ha : isPowerOfTwo a = true) (fits : v + a < Word.bound) :
    up v a = .ok ((v + (a - 1)) / a * a) := by
  have pos := pos_of_isPowerOfTwo ha
  have rounded : floorMask (v + a - 1) a = (v + (a - 1)) / a * a := by
    rw [Nat.add_sub_assoc pos]
    exact floorMask_eq ha (by omega) (by omega)
  unfold up guardAlignment Word.add
  rw [if_pos ha, if_pos fits]
  exact congrArg Except.ok rounded

theorem up_eq_stop {v a : Nat} (ha : isPowerOfTwo a = true) (large : Word.bound ≤ v + a) :
    up v a = .stop .addOverflow := by
  unfold up guardAlignment Word.add
  rw [if_pos ha, if_neg (Nat.not_lt.mpr large)]
  rfl

theorem isMultiple_iff {v a : Nat} (ha : isPowerOfTwo a = true) :
    isMultiple v a = true ↔ a ∣ v := by
  obtain ⟨k, rfl⟩ := isPowerOfTwo_iff.mp ha
  unfold isMultiple
  rw [beq_iff_eq, Nat.and_two_pow_sub_one_eq_mod, Nat.dvd_iff_mod_eq_zero]

end Align

end LayeredMemory
