import LayeredMemory.Word

/-!
# Memory — a byte at every address

`Memory` holds a byte at every address: reading never fails and writing never misses. The bytes of
one *window* sit in an array, which is where a run does its work; the bytes beyond it are a
function. Where the window lies affects speed only: every law below is about `read`, and no law
mentions the window.

Words are eight bytes, least significant first. Three bulk operations are given by what they do to
`read`: **`fill`** repeats one byte over a range, **`store`** writes a list of bytes, and
**`copy`** moves a range, reading all of it before writing any of it.
-/

namespace LayeredMemory

/-- A byte at every address. -/
structure Memory where
  /-- First address of the window. -/
  base : Nat
  /-- The bytes of the window. -/
  window : ByteArray
  /-- The bytes beyond the window. -/
  beyond : Nat → UInt8

namespace Memory

/-- Zero everywhere, with nothing in the window. -/
def zero : Memory :=
  ⟨0, ByteArray.empty, fun _ => 0⟩

/-- The byte at `a`. -/
def read (m : Memory) (a : Nat) : UInt8 :=
  if h : m.base ≤ a ∧ a - m.base < m.window.size then m.window.get (a - m.base) h.2 else m.beyond a

/-- Changes the byte at `a`. -/
def write (m : Memory) (a : Nat) (b : UInt8) : Memory :=
  if h : m.base ≤ a ∧ a - m.base < m.window.size then
    { m with window := m.window.set (a - m.base) b h.2 }
  else { m with beyond := fun x => if x = a then b else m.beyond x }

/-- Writes `n` copies of `b` from `a` on. -/
def fill (m : Memory) (a : Nat) (b : UInt8) : Nat → Memory
  | 0 => m
  | n + 1 => (m.write a b).fill (a + 1) b n

/-- Writes the bytes of a list from `a` on. -/
def store (m : Memory) (a : Nat) : List UInt8 → Memory
  | [] => m
  | b :: bs => (m.write a b).store (a + 1) bs

/-- The `n` bytes from `a` on. -/
def load (m : Memory) (a n : Nat) : List UInt8 :=
  (List.range n).map fun i => m.read (a + i)

/-- Moves `n` bytes from `source` to `target`. -/
def copy (m : Memory) (source target n : Nat) : Memory :=
  m.store target (m.load source n)

/-- The word whose bytes are `bs`, least significant first. -/
def wordOfBytes : List UInt8 → Nat
  | [] => 0
  | b :: bs => b.toNat + 256 * wordOfBytes bs

/-- The `n` lowest bytes of `w`, least significant first. -/
def bytesOfWord (w : Nat) : Nat → List UInt8
  | 0 => []
  | n + 1 => UInt8.ofNat w :: bytesOfWord (w / 256) n

/-- The word at `a`. -/
@[irreducible] def readWord (m : Memory) (a : Nat) : Nat :=
  wordOfBytes (m.load a Word.bytes)

/-- Changes the word at `a`. -/
def writeWord (m : Memory) (a w : Nat) : Memory :=
  m.store a (bytesOfWord w Word.bytes)

/-! ### Reading after writing -/

variable (m : Memory)

private theorem size_set (w : ByteArray) (i : Nat) (b : UInt8) (h : i < w.size) :
    (w.set i b h).size = w.size :=
  Array.size_set h

private theorem get_set (w : ByteArray) (i j : Nat) (b : UInt8) (h : i < w.size)
    (hj : j < (w.set i b h).size) :
    (w.set i b h).get j hj = if i = j then b else w.get j (size_set w i b h ▸ hj) :=
  Array.getElem_set ..

theorem read_write (a x : Nat) (b : UInt8) :
    (m.write a b).read x = if x = a then b else m.read x := by
  by_cases h : m.base ≤ a ∧ a - m.base < m.window.size
  · have written : m.write a b = { m with window := m.window.set (a - m.base) b h.2 } := dif_pos h
    rw [written]
    by_cases hx : m.base ≤ x ∧ x - m.base < m.window.size
    · have there : x - m.base < (m.window.set (a - m.base) b h.2).size := by
        rw [size_set]; exact hx.2
      have old : m.read x = m.window.get (x - m.base) hx.2 := dif_pos hx
      have new : read { m with window := m.window.set (a - m.base) b h.2 } x =
          (m.window.set (a - m.base) b h.2).get (x - m.base) there := dif_pos ⟨hx.1, there⟩
      rw [new, get_set, old]
      by_cases e : x = a
      · rw [if_pos e, if_pos (by rw [e])]
      · rw [if_neg e, if_neg (by omega)]
    · have gone : ¬(m.base ≤ x ∧ x - m.base < (m.window.set (a - m.base) b h.2).size) := by
        rw [size_set]; exact hx
      have old : m.read x = m.beyond x := dif_neg hx
      have new : read { m with window := m.window.set (a - m.base) b h.2 } x = m.beyond x :=
        dif_neg gone
      rw [new, old, if_neg fun e : x = a => hx (e ▸ h)]
  · have written : m.write a b = { m with beyond := fun y => if y = a then b else m.beyond y } :=
      dif_neg h
    rw [written]
    by_cases hx : m.base ≤ x ∧ x - m.base < m.window.size
    · have old : m.read x = m.window.get (x - m.base) hx.2 := dif_pos hx
      have new : read { m with beyond := fun y => if y = a then b else m.beyond y } x =
          m.window.get (x - m.base) hx.2 := dif_pos hx
      rw [new, old, if_neg fun e : x = a => h (e ▸ hx)]
    · have old : m.read x = m.beyond x := dif_neg hx
      have new : read { m with beyond := fun y => if y = a then b else m.beyond y } x =
          if x = a then b else m.beyond x := dif_neg hx
      rw [new, old]

theorem read_fill (a n x : Nat) (b : UInt8) :
    (m.fill a b n).read x = if a ≤ x ∧ x < a + n then b else m.read x := by
  induction n generalizing m a with
  | zero => rw [fill, if_neg (by omega)]
  | succ n ih =>
    rw [fill, ih, read_write]
    by_cases e : x = a
    · subst e; simp
    · by_cases h : a + 1 ≤ x ∧ x < a + 1 + n
      · rw [if_pos h, if_pos (by omega)]
      · rw [if_neg h, if_neg e, if_neg (by omega)]

theorem read_store (a x : Nat) (bs : List UInt8) :
    (m.store a bs).read x = if a ≤ x then bs.getD (x - a) (m.read x) else m.read x := by
  induction bs generalizing m a with
  | nil => simp [store]
  | cons b bs ih =>
    rw [store, ih, read_write]
    by_cases e : x = a
    · subst e
      rw [if_neg (by omega), if_pos rfl, if_pos (Nat.le_refl x), Nat.sub_self]
      rfl
    · by_cases h : a + 1 ≤ x
      · have succ : x - a = (x - (a + 1)) + 1 := by omega
        rw [if_pos h, if_neg e, if_pos (by omega : a ≤ x), succ, List.getD_cons_succ]
      · rw [if_neg h, if_neg e, if_neg (by omega)]

@[simp] theorem length_load (a n : Nat) : (m.load a n).length = n := by
  simp [load]

theorem getElem?_load (a n i : Nat) :
    (m.load a n)[i]? = if i < n then some (m.read (a + i)) else none := by
  by_cases h : i < n <;> simp [load, h]

theorem read_copy (source target n x : Nat) :
    (m.copy source target n).read x =
      if target ≤ x ∧ x < target + n then m.read (source + (x - target)) else m.read x := by
  rw [copy, read_store]
  by_cases h : target ≤ x
  · rw [if_pos h, List.getD_eq_getElem?_getD, getElem?_load]
    by_cases hn : x - target < n
    · rw [if_pos hn, if_pos (by omega)]; rfl
    · rw [if_neg hn, if_neg (by omega)]; rfl
  · rw [if_neg h, if_neg (by omega)]

end Memory

end LayeredMemory
