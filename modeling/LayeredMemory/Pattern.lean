import LayeredMemory.Action

/-!
# Patterns — recognisable bytes for diagnosis

A component may fill the bytes it hands out with one pattern and the bytes it takes back with
another, so that reading too early or too late shows. A pattern may be absent; then nothing is
filled.
-/

namespace LayeredMemory

/-- The byte to fill with, if any. -/
abbrev Pattern : Type :=
  Option UInt8

namespace Pattern

/-- The usual pattern of bytes handed out. -/
def fresh : Pattern := some 0xBB

/-- The usual pattern of bytes taken back. -/
def stale : Pattern := some 0xDD

/-- The text of a pattern. -/
def text : Pattern → String
  | some b => s!"Some({b.toNat})"
  | none => "None"

/-- Fills `n` bytes from `a` on, if there is a pattern. -/
def fill {σ : Type} (pattern : Pattern) (a n : Nat) : Action σ Unit :=
  match pattern with
  | some b => Action.modifyMemory fun m => m.fill a b n
  | none => pure ()

end Pattern

end LayeredMemory
