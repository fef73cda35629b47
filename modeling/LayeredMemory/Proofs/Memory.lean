import LayeredMemory.Memory
import Mathlib.Algebra.Group.Nat.Defs

/-!
# Memory — words, and where two memories differ

`readWord_writeWord` reads a word back. Everything else is about bytes that stay: a memory is
`ChangedWithin` an interval of another when all bytes outside the interval are the same, and a
computation that writes in several places changes its memory within one interval that holds them
all (`ChangedWithin.trans`). A word outside the interval reads as before (`ChangedWithin.readWord`).
-/

namespace LayeredMemory.Memory

variable {m m' m'' : Memory}

/-! ### Words -/

theorem wordOfBytes_bytesOfWord (w n : Nat) : wordOfBytes (bytesOfWord w n) = w % 256 ^ n := by
  induction n generalizing w with
  | zero => simp [bytesOfWord, wordOfBytes, Nat.mod_one]
  | succ n ih =>
    rw [bytesOfWord, wordOfBytes, ih, Nat.pow_succ', Nat.mod_mul]
    rfl

@[simp] theorem length_bytesOfWord (w n : Nat) : (bytesOfWord w n).length = n := by
  induction n generalizing w with
  | zero => rfl
  | succ n ih => rw [bytesOfWord, List.length_cons, ih]

theorem load_store (m : Memory) (a : Nat) (bs : List UInt8) :
    (m.store a bs).load a bs.length = bs := by
  apply List.ext_getElem?
  intro i
  rw [getElem?_load, read_store, if_pos (Nat.le_add_right a i), Nat.add_sub_cancel_left]
  by_cases h : i < bs.length
  · rw [if_pos h, List.getD_eq_getElem?_getD, List.getElem?_eq_getElem h, Option.getD_some]
  · rw [if_neg h, List.getElem?_eq_none (Nat.le_of_not_lt h)]

theorem readWord_writeWord {a w : Nat} (h : w < Word.bound) :
    (m.writeWord a w).readWord a = w := by
  have bytes := load_store m a (bytesOfWord w Word.bytes)
  rw [length_bytesOfWord] at bytes
  unfold readWord writeWord
  rw [bytes, wordOfBytes_bytesOfWord]
  exact Nat.mod_eq_of_lt h

theorem wordOfBytes_lt (bs : List UInt8) : wordOfBytes bs < 256 ^ bs.length := by
  induction bs with
  | nil => exact Nat.one_pos
  | cons b bs ih =>
    have := b.toNat_lt
    rw [wordOfBytes, List.length_cons, Nat.pow_succ']
    omega

/-- What is read is a word. -/
theorem readWord_lt (m : Memory) (a : Nat) : m.readWord a < Word.bound := by
  have bytes := wordOfBytes_lt (m.load a Word.bytes)
  rw [length_load] at bytes
  unfold readWord
  exact bytes

/-- A word reads alike where its eight bytes do. -/
theorem readWord_congr {a : Nat} (same : ∀ x, a ≤ x → x < a + 8 → m'.read x = m.read x) :
    m'.readWord a = m.readWord a := by
  unfold readWord
  congr 1
  apply List.map_congr_left
  intro i hi
  have : i < 8 := List.mem_range.mp hi
  exact same (a + i) (by omega) (by omega)

/-! ### Bytes that stay -/

/-- All bytes outside `[lo, hi)` are the same. -/
def ChangedWithin (m m' : Memory) (lo hi : Nat) : Prop :=
  ∀ x, x < lo ∨ hi ≤ x → m'.read x = m.read x

variable {lo hi : Nat}

theorem ChangedWithin.refl (m : Memory) (lo hi : Nat) : m.ChangedWithin m lo hi :=
  fun _ _ => rfl

theorem ChangedWithin.trans (h : m.ChangedWithin m' lo hi) (h' : m'.ChangedWithin m'' lo hi) :
    m.ChangedWithin m'' lo hi :=
  fun x hx => (h' x hx).trans (h x hx)

theorem ChangedWithin.mono {lo' hi' : Nat} (h : m.ChangedWithin m' lo hi) (hlo : lo' ≤ lo)
    (hhi : hi ≤ hi') : m.ChangedWithin m' lo' hi' :=
  fun x hx => h x (by omega)

theorem ChangedWithin.readWord (h : m.ChangedWithin m' lo hi) {a : Nat}
    (off : a + 8 ≤ lo ∨ hi ≤ a) : m'.readWord a = m.readWord a :=
  readWord_congr fun x _ _ => h x (by omega)

theorem changedWithin_store (m : Memory) (a : Nat) (bs : List UInt8) :
    m.ChangedWithin (m.store a bs) a (a + bs.length) := by
  intro x hx
  rw [read_store]
  by_cases h : a ≤ x
  · rw [if_pos h, List.getD_eq_getElem?_getD, List.getElem?_eq_none (by omega), Option.getD_none]
  · rw [if_neg h]

theorem changedWithin_writeWord (m : Memory) (a w : Nat) :
    m.ChangedWithin (m.writeWord a w) a (a + 8) := by
  have h := changedWithin_store m a (bytesOfWord w Word.bytes)
  rwa [length_bytesOfWord] at h

theorem changedWithin_fill (m : Memory) (a n : Nat) (b : UInt8) :
    m.ChangedWithin (m.fill a b n) a (a + n) := by
  intro x hx
  rw [read_fill, if_neg (by omega)]

theorem changedWithin_copy (m : Memory) (source target n : Nat) :
    m.ChangedWithin (m.copy source target n) target (target + n) := by
  intro x hx
  rw [read_copy, if_neg (by omega)]

theorem changedWithin_write (m : Memory) (a : Nat) (b : UInt8) :
    m.ChangedWithin (m.write a b) a (a + 1) := by
  intro x hx
  rw [read_write, if_neg (by omega)]

theorem readWord_writeWord_of_apart {a b w : Nat} (off : b + 8 ≤ a ∨ a + 8 ≤ b) :
    (m.writeWord a w).readWord b = m.readWord b :=
  (changedWithin_writeWord m a w).readWord off

end LayeredMemory.Memory
