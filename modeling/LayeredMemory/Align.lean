import LayeredMemory.Word

/-!
# Alignment — rounding addresses to boundaries

A boundary is a multiple of an alignment, and an alignment is a power of two, so that rounding is a
matter of masks: `floorMask v a` clears the bits of `v` below `a`, and adding `a - 1` first rounds
the other way. The rounding operations refuse an alignment that is no power of two before they do
any arithmetic.
-/

namespace LayeredMemory.Align

/-- Exactly one bit is set. -/
def isPowerOfTwo (a : Nat) : Bool :=
  a != 0 && a &&& (a - 1) == 0

/-- `v` with the bits below `a` cleared, in the width of a word. -/
def floorMask (v a : Nat) : Nat :=
  (BitVec.ofNat 64 v &&& ~~~BitVec.ofNat 64 (a - 1)).toNat

/-- The first boundary at or after `v`, if there is one among the words. -/
def ceil? (v a : Nat) : Option Nat :=
  (Word.add? v (a - 1)).map fun top => floorMask top a

/-- The remainder below the alignment is empty. -/
def isMultiple (v a : Nat) : Bool :=
  v &&& (a - 1) == 0

/-- Stops on an alignment that is no power of two. -/
def guardAlignment (a : Nat) : Checked Unit :=
  if isPowerOfTwo a then .ok () else .stop .notPowerOfTwo

/-- Rounds `v` up; stops where `v + a` is no word, also where the boundary itself would be one. -/
def up (v a : Nat) : Checked Nat := do
  guardAlignment a
  let top ← Word.add v a
  return floorMask (top - 1) a

/-- Rounds `v` up, with no answer where the boundary is no word. -/
def up? (v a : Nat) : Checked (Option Nat) := do
  guardAlignment a
  return ceil? v a

/-- Rounds `v` down. -/
def down (v a : Nat) : Checked Nat := do
  guardAlignment a
  return floorMask v a

/-- Tests for a boundary. The alignment is not examined first: at zero the mask itself stops. -/
def test (v a : Nat) : Checked Bool := do
  let mask ← Word.sub a 1
  return v &&& mask == 0

end LayeredMemory.Align
