import LayeredMemory.Heap.Fit

/-!
# Heaps — handing blocks out and taking them back

`Heap.malloc` cuts the block it needs from the low end of the free block that the search finds, and
asks the growth source for an extent where there is none. `Heap.release` merges a block with its
free neighbours at once, so that no two free blocks are adjacent, and moves the cursor there.
`Heap.realloc` shrinks or grows a block in place where it can, and moves it where it cannot.

`Heap.free` and `Heap.realloc` believe a pointer unless the heap verifies frees; `Heap.tryFree`
always checks it.
-/

namespace LayeredMemory.Heap

variable {γ : Type}

/-- Moves the cursor. -/
def setCursor (c : Nat) : Action (Heap γ) Unit :=
  Action.modifyPart fun h => { h with cursor := some c }

/-- The extent overlaps that of a segment. -/
def overlapsAny (e : Extent) : List Segment → Checked Bool
  | [] => return false
  | s :: rest => do
    let stop ← s.extent.stop
    if e.start < stop then
      let last ← e.stop
      if s.extent.start < last then return true else overlapsAny e rest
    else overlapsAny e rest

/-- Registers an extent: one free block and an epilogue. -/
def addPool (e : Extent) : Action (Heap γ) Unit := do
  let h ← Action.part
  if ← overlapsAny e h.segments then
    Action.fault (.invalidArgument "extent overlaps a registered pool")
  else
    match Segment.of? e with
    | none =>
      Action.fault (.invalidArgument
        s!"extent of {e.len} bytes cannot hold a {minBlock}-byte block")
    | some s =>
      Tag.writeFree s.first s.usable true
      Action.writeWord s.stop (Tag.make 0 true false)
      Action.modifyPart fun h =>
        { h with segments := h.segments ++ [s], cursor := h.cursor <|> some s.first }

/-- Allocates the low `need` bytes of a free block; the rest, if it can be a block, stays free. -/
def place (block need : Nat) : Action (Heap γ) Nat := do
  let h ← Action.part
  let m ← Action.memory
  let tag := m.readWord block
  let size := Tag.size tag
  if minBlock ≤ size - need then
    Action.writeWord block (Tag.make need true (Tag.isPrevAllocated tag))
    Tag.writeFree (Word.after block need) (size - need) true
    setCursor (Word.after block need)
    h.config.allocPattern.fill (payload block) (need - Word.bytes)
  else
    Action.writeWord block (Tag.make size true (Tag.isPrevAllocated tag))
    Tag.setPrev (Word.after block size) true
    setCursor (Word.after block size)
    h.config.allocPattern.fill (payload block) (size - Word.bytes)
  return payload block

/-- Frees a block and merges it with its free neighbours. -/
def coalesce (block : Nat) : Action (Heap γ) Unit := do
  let m ← Action.memory
  let tag := m.readWord block
  let next := m.readWord (Word.after block (Tag.size tag))
  let withNext ←
    if Tag.isAllocated next then pure (Tag.size tag) else Word.add (Tag.size tag) (Tag.size next)
  let start :=
    if Tag.isPrevAllocated tag then block else Word.before block (m.readWord (block - Word.bytes))
  let startTag := m.readWord start
  let size ←
    if Tag.isPrevAllocated tag then pure withNext else Word.add withNext (Tag.size startTag)
  Tag.writeFree start size (Tag.isPrevAllocated startTag)
  Tag.setPrev (Word.after start size) false
  setCursor start

/-- Takes a live block back. -/
def release (ptr : Nat) : Action (Heap γ) Unit := do
  let h ← Action.part
  if h.config.deallocPattern.isSome then
    let m ← Action.memory
    let room ← usableSize m ptr
    h.config.deallocPattern.fill ptr room
  coalesce (ofPayload ptr)

/-- Takes a block back, if the heap believes or finds that the pointer is live. -/
def free (ptr : Nat) : Action (Heap γ) Unit := do
  let h ← Action.part
  let m ← Action.memory
  match if h.config.verifyFrees then h.checkLive m ptr else .ok () with
  | .error f => Action.stop (.heapFree f)
  | .ok () => release ptr

/-- Takes back whatever is live, and refuses every other address. -/
def tryFree (ptr : Nat) : Action (Heap γ) Unit := do
  let h ← Action.part
  let m ← Action.memory
  match h.checkLive m ptr with
  | .error f => Action.fault f
  | .ok () => release ptr

/-- The free block of at least `need` bytes that the search finds, if it finds one. -/
def seek (need : Nat) : Action (Heap γ) (Option Nat) := do
  let h ← Action.part
  let m ← Action.memory
  match h.search m need with
  | .ended found => return found
  | .endless => Action.stop .endless

variable [GrowthSource γ]

/-- Room for one more block of `need` bytes that is to serve `n`. An extent that cannot be
registered is no room. -/
def grow (n need : Nat) : Action (Heap γ) Unit := do
  match Word.add? need (granule + Word.bytes) with
  | none => Action.fault (.outOfMemory n granule)
  | some minLen =>
    match ← onGrowth (GrowthSource.request minLen) with
    | none => Action.fault (.outOfMemory n granule)
    | some e =>
      match ← Action.attempt (addPool e) with
      | .error _ => Action.fault (.outOfMemory n granule)
      | .ok () =>
        Action.modifyPart fun h =>
          { h with cursor := h.segments.getLast?.map (·.first), growths := h.growths + 1 }

/-- Hands out a block for `n` bytes. -/
def malloc (n : Nat) : Action (Heap γ) Nat := do
  if n = 0 then Action.fault .zeroSize
  else
    match blockSizeFor n with
    | none => Action.fault (.outOfMemory n granule)
    | some need =>
      match ← seek need with
      | some block => place block need
      | none =>
        grow n need
        match ← seek need with
        | some block => place block need
        | none => Action.fault (.outOfMemory n granule)

/-- Hands out a block for `n` bytes, all of them zero. -/
def mallocZeroed (n : Nat) : Action (Heap γ) Nat := do
  let ptr ← malloc n
  Action.modifyMemory fun m => m.fill ptr 0 n
  return ptr

/-- Makes an allocated block of `size` bytes one of `need` bytes, which are no more. -/
def shrinkTo (block size need : Nat) : Action (Heap γ) Unit := do
  if minBlock ≤ size - need then
    let m ← Action.memory
    Action.writeWord block (Tag.make need true (Tag.isPrevAllocated (m.readWord block)))
    Action.writeWord (Word.after block need) (Tag.make (size - need) true true)
    coalesce (Word.after block need)

/-- Makes an allocated block one of `need` bytes, out of its own and those of the free block after
it, `total` in all. -/
def extendTo (block total need : Nat) : Action (Heap γ) Unit := do
  let h ← Action.part
  let m ← Action.memory
  let tag := m.readWord block
  let absorbed := h.cursor = some (Word.after block (Tag.size tag))
  if minBlock ≤ total - need then
    Action.writeWord block (Tag.make need true (Tag.isPrevAllocated tag))
    Tag.writeFree (Word.after block need) (total - need) true
    if absorbed then setCursor (Word.after block need)
  else
    Action.writeWord block (Tag.make total true (Tag.isPrevAllocated tag))
    Tag.setPrev (Word.after block total) true
    if absorbed then setCursor (Word.after block total)

/-- Moves what a block of `size` bytes holds to a fresh block for `n` bytes. -/
def moveTo (ptr size n : Nat) : Action (Heap γ) Nat := do
  let moved ← malloc n
  let room ← Word.sub size Word.bytes
  Action.modifyMemory fun m => m.copy ptr moved (min room n)
  release ptr
  return moved

/-- Makes a live block serve `n` bytes, in place if it can. -/
def realloc (ptr n : Nat) : Action (Heap γ) Nat := do
  if n = 0 then Action.fault .zeroSize
  else
    let h ← Action.part
    let m ← Action.memory
    match if h.config.verifyFrees then h.checkLive m ptr else .ok () with
    | .error f => Action.stop (.heapRealloc f)
    | .ok () =>
      match blockSizeFor n with
      | none => Action.fault (.outOfMemory n granule)
      | some need =>
        let block := ofPayload ptr
        let size := Tag.size (m.readWord block)
        let next := m.readWord (Word.after block size)
        if need ≤ size then
          shrinkTo block size need
          return ptr
        else if Tag.isAllocated next then moveTo ptr size n
        else
          let total ← Word.add size (Tag.size next)
          if need ≤ total then
            extendTo block total need
            return ptr
          else moveTo ptr size n

end LayeredMemory.Heap
