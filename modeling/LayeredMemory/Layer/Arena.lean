import LayeredMemory.Layer.Basic

/-!
# Arenas — a range of addresses with a log

An arena hands out the addresses of one range in ascending order and writes down every call. It is
the base to rehearse a hierarchy on: where its blocks are is known beforehand, it can be told to
refuse calls, to do without a capability, or to break the contract of an allocator by blocks that
are too long, too short or not aligned.
-/

namespace LayeredMemory

/-- How a request for a block ended. -/
inductive Placement where
  | at (addr : Nat)
  /-- The call was to be refused. -/
  | refused
  /-- The range had no room. -/
  | full
  deriving DecidableEq, Repr

/-- A call of an arena. -/
inductive ArenaCall where
  | acquire (size align : Nat) (placement : Placement)
  | resize (ptr oldSize newSize : Nat)
  | release (ptr size align : Nat)
  deriving DecidableEq, Repr

/-- A range of addresses. -/
structure Arena where
  /-- The first address that has not been handed out. -/
  next : Nat
  /-- The first address after the range. -/
  limit : Nat
  /-- Bytes taken beyond the size of a block. -/
  pad : Nat := 0
  /-- Bytes by which a block is reported shorter than it is. -/
  short : Nat := 0
  /-- Distance of a block from its boundary. -/
  skew : Nat := 0
  /-- The numbers of the requests to refuse. -/
  refuses : Nat → Bool := fun _ => false
  /-- The fault of a refusal. -/
  refusal : Layout → Fault := Layout.outOfMemory
  canResize : Bool := true
  canRelease : Bool := true
  /-- A block that was released serves the next request for its layout. -/
  reuses : Bool := false
  /-- Requests so far. -/
  requests : Nat := 0
  /-- The blocks that were released, the latest first. -/
  freed : List (Nat × Layout) := []
  /-- The calls so far, the latest first. -/
  log : List ArenaCall := []

namespace Arena

/-- Writes down a call. -/
def note (call : ArenaCall) : Action Arena Unit :=
  Action.modifyPart fun a => { a with log := call :: a.log }

/-- The address that the next fresh block of a layout has, and the first address after it. -/
def nextFor (a : Arena) (l : Layout) : Checked (Nat × Nat) := do
  let boundary ← Align.up a.next l.align
  let addr ← Word.add boundary a.skew
  let top ← Word.add addr l.size
  let after ← Word.add top a.pad
  return (addr, after)

/-- The block at an address, as it is reported. -/
def report (a : Arena) (l : Layout) (addr : Nat) : Checked Block := do
  let len ← Word.add l.size a.pad
  return ⟨addr, len - a.short⟩

/-- The block that was released last among those of a layout. -/
def freedFor? (a : Arena) (l : Layout) : Option (Nat × Layout) :=
  if a.reuses then a.freed.find? fun b => decide (b.2 = l) else none

/-- Hands out a block, or refuses. -/
def place (l : Layout) : Action Arena Block := do
  let a ← Action.part
  Action.modifyPart fun a => { a with requests := a.requests + 1 }
  if a.refuses a.requests then
    note (.acquire l.size l.align .refused)
    Action.fault (a.refusal l)
  else
    match a.freedFor? l with
    | some b =>
      Action.modifyPart fun a => { a with freed := a.freed.erase b }
      note (.acquire l.size l.align (.at b.1))
      a.report l b.1
    | none =>
      let (addr, after) ← a.nextFor l
      if a.limit < after then
        note (.acquire l.size l.align .full)
        Action.fault l.outOfMemory
      else
        Action.modifyPart fun a => { a with next := after }
        note (.acquire l.size l.align (.at addr))
        a.report l addr

instance : Allocator Arena where
  acquire layout := do
    Action.ofExcept layout.validate
    place layout
  canResize a := a.canResize
  resize ptr old new := do
    let a ← Action.part
    if a.canResize then
      Action.ofExcept new.validate
      note (.resize ptr old.size new.size)
      if new.size ≤ old.size then return ⟨ptr, new.size⟩
      else
        let b ← place new
        Action.modifyMemory fun m => m.copy ptr b.ptr old.size
        return b
    else Action.fault (.unsupported "resize")
  canRelease a := a.canRelease
  release ptr layout := do
    let a ← Action.part
    if a.canRelease then
      note (.release ptr layout.size layout.align)
      Action.modifyPart fun a => { a with freed := (ptr, layout) :: a.freed }

end Arena

end LayeredMemory
