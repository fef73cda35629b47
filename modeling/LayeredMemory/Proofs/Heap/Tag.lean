import LayeredMemory.Heap.Tag
import LayeredMemory.Proofs.Action
import LayeredMemory.Proofs.Align

/-!
# Boundary tags — writing and reading them

A header holds its size and its two flags without loss (`size_make`, `isAllocated_make`,
`isPrevAllocated_make`), and changing the second flag leaves the rest (`withPrev_make`). So the
proofs about heaps speak of `Tag.make size allocated prev` and never of bits.

Memory that is damaged may hold any word in a header's place. Changing its second flag changes
nothing else of what it says either (`size_withPrev`, `isAllocated_withPrev`).

`writeFree_run` and `setPrev_word` say what the two tag writers do to memory.
`blockSizeFor_eq_some_iff` gives the size of the block that serves a request.
-/

namespace LayeredMemory

theorem granule_eq : granule = 16 := rfl

theorem minBlock_eq : minBlock = 16 := rfl

theorem granule_isPowerOfTwo : Align.isPowerOfTwo granule = true := rfl

namespace Tag

variable {size : Nat} {allocated prev : Bool}

theorem size_make (h : 16 ∣ size) : Tag.size (make size allocated prev) = size := by
  unfold Tag.size make
  rw [granule_eq]
  cases allocated <;> cases prev <;> simp only [Bool.toNat_true, Bool.toNat_false] <;> omega

theorem isAllocated_make (h : 16 ∣ size) :
    isAllocated (make size allocated prev) = allocated := by
  have parity : (make size allocated prev) % 2 = allocated.toNat := by
    unfold make
    cases allocated <;> cases prev <;> simp only [Bool.toNat_true, Bool.toNat_false] <;> omega
  unfold isAllocated
  rw [parity]
  cases allocated <;> rfl

theorem isPrevAllocated_make (h : 16 ∣ size) :
    isPrevAllocated (make size allocated prev) = prev := by
  have second : (make size allocated prev) / 2 % 2 = prev.toNat := by
    unfold make
    cases allocated <;> cases prev <;> simp only [Bool.toNat_true, Bool.toNat_false] <;> omega
  unfold isPrevAllocated
  rw [second]
  cases prev <;> rfl

theorem withPrev_make (h : 16 ∣ size) (q : Bool) :
    withPrev (make size allocated prev) q = make size allocated q := by
  unfold withPrev
  rw [isPrevAllocated_make h]
  unfold make
  omega

theorem isEpilogue_make (h : 16 ∣ size) :
    isEpilogue (make size allocated prev) = (size == 0 && allocated) := by
  unfold isEpilogue
  rw [size_make h, isAllocated_make h]

theorem make_lt (h : 16 ∣ size) (fits : size < Word.bound) :
    make size allocated prev < Word.bound := by
  rw [Word.bound_eq] at *
  unfold make
  cases allocated <;> cases prev <;> simp only [Bool.toNat_true, Bool.toNat_false] <;> omega

/-! ### Any word as a header -/

section Words

variable (tag : Nat) (q : Bool)

theorem dvd_size : 16 ∣ Tag.size tag :=
  granule_eq ▸ Nat.dvd_mul_left granule _

theorem withPrev_eq : withPrev tag q = tag / 4 * 4 + tag % 2 + 2 * q.toNat := by
  have second : (isPrevAllocated tag).toNat = tag / 2 % 2 := by
    unfold isPrevAllocated
    rcases Nat.mod_two_eq_zero_or_one (tag / 2) with bit | bit <;> rw [bit] <;> rfl
  unfold withPrev
  rw [second]
  omega

theorem size_withPrev : Tag.size (withPrev tag q) = Tag.size tag := by
  rw [withPrev_eq]
  unfold Tag.size
  rw [granule_eq]
  cases q <;> simp only [Bool.toNat_true, Bool.toNat_false] <;> omega

theorem isAllocated_withPrev : isAllocated (withPrev tag q) = isAllocated tag := by
  have parity : withPrev tag q % 2 = tag % 2 := by
    rw [withPrev_eq]
    omega
  unfold isAllocated
  rw [parity]

theorem isPrevAllocated_withPrev : isPrevAllocated (withPrev tag q) = q := by
  have second : withPrev tag q / 2 % 2 = q.toNat := by
    rw [withPrev_eq]
    cases q <;> simp only [Bool.toNat_true, Bool.toNat_false] <;> omega
  unfold isPrevAllocated
  rw [second]
  cases q <;> rfl

theorem withPrev_lt {tag : Nat} (fits : tag < Word.bound) : withPrev tag q < Word.bound := by
  rw [withPrev_eq]
  rw [Word.bound_eq] at *
  cases q <;> simp only [Bool.toNat_true, Bool.toNat_false] <;> omega

end Words

variable {σ : Type} {m : Memory} {addr : Nat}

/-- A free block's header and footer, and nothing beyond the block. -/
theorem writeFree_run (p : σ) (m : Memory) (addr size : Nat) (prev : Bool) (aligned : 16 ∣ size)
    (pos : 16 ≤ size) (fits : addr + size < Word.bound) :
    ∃ m', writeFree addr size prev ⟨p, m⟩ = .ok () ⟨p, m'⟩ ∧
      m'.readWord addr = make size false prev ∧ m'.readWord (addr + (size - 8)) = size ∧
      m.ChangedWithin m' addr (addr + size) := by
  have less : Word.sub size Word.bytes = .ok (size - 8) :=
    Word.sub_eq_ok_iff.mpr ⟨by rw [Word.bytes_eq]; omega, rfl⟩
  have footer : Word.after addr (size - 8) = addr + (size - 8) := Word.after_eq (by omega)
  refine ⟨(m.writeWord addr (make size false prev)).writeWord (addr + (size - 8)) size, ?_,
    ?_, ?_, ?_⟩
  · unfold writeFree
    rw [Action.writeWord_bind, Action.lift_ok_bind less, footer]
    rfl
  · rw [Memory.readWord_writeWord_of_apart (by omega),
      Memory.readWord_writeWord (make_lt aligned (by omega))]
  · exact Memory.readWord_writeWord (by omega)
  · have first := (m.changedWithin_writeWord addr (make size false prev)).mono
      (Nat.le_refl addr) (show addr + 8 ≤ addr + size by omega)
    exact first.trans ((Memory.changedWithin_writeWord _ (addr + (size - 8)) size).mono
      (by omega) (by omega))

/-- One header with its second flag set, and nothing else. -/
theorem setPrev_word (p : σ) (m : Memory) (addr : Nat) (q : Bool) :
    ∃ m', setPrev addr q ⟨p, m⟩ = .ok () ⟨p, m'⟩ ∧
      m'.readWord addr = withPrev (m.readWord addr) q ∧ m.ChangedWithin m' addr (addr + 8) :=
  ⟨m.writeWord addr (withPrev (m.readWord addr) q), rfl,
    Memory.readWord_writeWord (withPrev_lt q (m.readWord_lt addr)),
    Memory.changedWithin_writeWord m addr _⟩

end Tag

/-- The first multiple of the granule at or after `n` with room for a header below it. -/
theorem ceil_behind_header (n : Nat) :
    ((Word.add? n Word.bytes).bind fun a => Align.ceil? a granule) =
    if n + 23 < Word.bound then some ((n + 23) / 16 * 16) else none := by
  split
  · next near =>
    have sum : Word.add? n Word.bytes = some (n + 8) :=
      Word.add?_eq_some_iff.mpr ⟨by rw [Word.bytes_eq]; omega, rfl⟩
    rw [sum, Option.bind_some]
    exact Align.ceil?_eq granule_isPowerOfTwo (by rw [granule_eq]; omega)
  · next far =>
    cases sum : Word.add? n Word.bytes with
    | none => rfl
    | some a =>
      obtain ⟨-, rfl⟩ := Word.add?_eq_some_iff.mp sum
      exact Align.ceil?_eq_none (by rw [granule_eq, Word.bytes_eq]; omega)

/-- The least block that has room for a header and `n` bytes, where blocks can be that large. -/
theorem blockSizeFor_eq_some_iff {n size : Nat} :
    blockSizeFor n = some size ↔
      size = max ((n + 23) / 16 * 16) 16 ∧ (n + 23) / 16 * 16 ≤ Word.signedMax := by
  have bound : Word.signedMax + 24 < Word.bound := by decide
  unfold blockSizeFor
  rw [Option.bind_eq_bind, ← Option.bind_assoc, ceil_behind_header]
  by_cases near : n + 23 < Word.bound
  · rw [if_pos near, Option.bind_some]
    by_cases big : Word.signedMax < (n + 23) / 16 * 16
    · rw [if_pos big]
      exact ⟨nofun, fun h => absurd h.2 (by omega)⟩
    · rw [if_neg big, minBlock_eq, Option.some_inj]
      exact ⟨fun h => ⟨h.symm, by omega⟩, fun h => h.1.symm⟩
  · rw [if_neg near, Option.bind_none]
    exact ⟨nofun, fun h => absurd h.2 (by omega)⟩

theorem blockSizeFor_spec {n size : Nat} (h : blockSizeFor n = some size) :
    16 ∣ size ∧ n + 8 ≤ size ∧ 16 ≤ size ∧ size ≤ Word.signedMax := by
  obtain ⟨rfl, fits⟩ := blockSizeFor_eq_some_iff.mp h
  have : 16 ≤ Word.signedMax := by decide
  omega

end LayeredMemory
