import LayeredMemory.Align

/-!
# Layouts — the size and alignment of a request

A layout asks for `size` bytes at a multiple of `align`. Its alignment is a power of two and its
size, rounded up to the alignment, is still a size of objects: `Layout.of?` makes no others.
A layout may ask for no bytes at all; allocators refuse such a request with `Layout.validate`.
-/

namespace LayeredMemory

/-- The size and alignment of a request. -/
structure Layout where
  size : Nat
  align : Nat
  powerOfTwo : Align.isPowerOfTwo align = true
  fits : size ≤ Word.signedMax - (align - 1)
  deriving DecidableEq

namespace Layout

/-- The layout of this size and alignment, if there is one. -/
def of? (size align : Nat) : Option Layout :=
  if powerOfTwo : Align.isPowerOfTwo align = true then
    if fits : size ≤ Word.signedMax - (align - 1) then some ⟨size, align, powerOfTwo, fits⟩
    else none
  else none

/-- The fault of a request that could not be served. -/
def outOfMemory (l : Layout) : Fault :=
  .outOfMemory l.size l.align

/-- Refuses a request for no bytes. -/
def validate (l : Layout) : Except Fault Unit :=
  if l.size = 0 then .error .zeroSize else .ok ()

theorem of?_eq_some_iff {size align : Nat} {l : Layout} :
    of? size align = some l ↔ l.size = size ∧ l.align = align := by
  unfold of?
  constructor
  · split
    · split
      · rintro ⟨⟩; exact ⟨rfl, rfl⟩
      · intro h; cases h
    · intro h; cases h
  · rintro ⟨rfl, rfl⟩
    rw [dif_pos l.powerOfTwo, dif_pos l.fits]

end Layout

end LayeredMemory
