import LayeredMemory.Failure

/-!
# Words — the numbers a machine word holds

Addresses and sizes are natural numbers below `Word.bound`. Arithmetic on them stays inside that
range or stops the call: `Word.add`, `Word.sub` and `Word.mul` are the exact operations on naturals
where the result is a word, and a stop elsewhere.

Moving an address is another matter. Addresses go round, zero after the largest, and `Word.after`
and `Word.before` never stop. They are plain sums and differences wherever those are words
(`after_eq`, `before_eq`); only a distance read from damaged memory leads beyond.
-/

namespace LayeredMemory.Word

/-- One above the largest word. -/
def bound : Nat := 0x10000000000000000

/-- The largest word. -/
def max : Nat := bound - 1

/-- The largest size of an object: the largest word that is also a signed one. -/
def signedMax : Nat := 0x7fffffffffffffff

/-- Bytes in a word: the unit of every header, footer and link. -/
def bytes : Nat := 8

/-- The sum, where it is a word. -/
def add? (a b : Nat) : Option Nat :=
  if a + b < bound then some (a + b) else none

/-- The sum, or a stop. -/
def add (a b : Nat) : Checked Nat :=
  if a + b < bound then .ok (a + b) else .stop .addOverflow

/-- The difference, or a stop. -/
def sub (a b : Nat) : Checked Nat :=
  if b ≤ a then .ok (a - b) else .stop .subOverflow

/-- The product, or a stop. -/
def mul (a b : Nat) : Checked Nat :=
  if a * b < bound then .ok (a * b) else .stop .mulOverflow

/-- The sum, cut off at the largest word. -/
def saturatingAdd (a b : Nat) : Nat :=
  min (a + b) max

/-- The address `n` bytes after `a`. -/
def after (a n : Nat) : Nat :=
  (a + n) % bound

/-- The address `n` bytes before `a`. -/
def before (a n : Nat) : Nat :=
  (a + (bound - n % bound)) % bound

variable {a b c : Nat}

theorem add?_eq_some_iff : add? a b = some c ↔ a + b < bound ∧ c = a + b := by
  unfold add?
  split
  · next h => simp [h, eq_comm]
  · next h => simp [h]

theorem add_eq_ok_iff : add a b = .ok c ↔ a + b < bound ∧ c = a + b := by
  unfold add
  split
  · next h => simp [h, eq_comm]
  · next h => simp [h, Checked.stop]

theorem sub_eq_ok_iff : sub a b = .ok c ↔ b ≤ a ∧ c = a - b := by
  unfold sub
  split
  · next h => simp [h, eq_comm]
  · next h => simp [h, Checked.stop]

theorem after_eq (h : a + b < bound) : after a b = a + b :=
  Nat.mod_eq_of_lt h

theorem before_eq (le : b ≤ a) (h : a < bound) : before a b = a - b := by
  unfold before
  rw [Nat.mod_eq_of_lt (by omega : b < bound), ← Nat.add_sub_assoc (by omega),
    Nat.add_comm a bound, Nat.add_sub_assoc le, Nat.add_mod_left, Nat.mod_eq_of_lt (by omega)]

end LayeredMemory.Word
