import LayeredMemory.Fault

/-!
# Rosters — three sequences of slab numbers

A cache keeps its slabs apart by *occupancy*: some slots free, none free, all free. A `Roster`
holds the three sequences. They are linked by number: every number has the number before and after
it and the sequence it is on, so that moving a slab from one sequence to another takes a bounded
number of steps and never touches the slab.

`Roster.pushBack`, `Roster.remove` and `Roster.relink` change the sequences; `Roster.validate`
follows each of them from its head and compares what it meets with the links and the length.
-/

namespace LayeredMemory

/-- How much of a slab is handed out. -/
inductive Occupancy where
  | available
  | full
  | empty
  deriving DecidableEq, Repr

namespace Occupancy

/-- The occupancy of a slab with `allocated` of `capacity` slots handed out. -/
def classify (allocated capacity : Nat) : Occupancy :=
  if allocated = 0 then empty else if allocated = capacity then full else available

/-- The name of an occupancy. -/
def name : Occupancy → String
  | available => "Available"
  | full => "Full"
  | empty => "Empty"

end Occupancy

/-- The neighbours of a number and the sequence it is on. -/
structure Link where
  prev : Option Nat := none
  next : Option Nat := none
  place : Option Occupancy := none
  deriving DecidableEq, Repr

/-- The two ends of a sequence and its length. -/
structure Ends where
  head : Option Nat := none
  tail : Option Nat := none
  length : Nat := 0
  deriving DecidableEq, Repr

/-- Three sequences of numbers, linked by number. -/
structure Roster where
  links : Array Link := #[]
  available : Ends := {}
  full : Ends := {}
  empty : Ends := {}

namespace Roster

/-- The link of a number; numbers beyond the table are on no sequence. -/
def link (r : Roster) (id : Nat) : Link :=
  r.links.getD id {}

/-- The ends of a sequence. -/
def ends (r : Roster) : Occupancy → Ends
  | .available => r.available
  | .full => r.full
  | .empty => r.empty

/-- How many numbers are on a sequence. -/
def length (r : Roster) (o : Occupancy) : Nat :=
  (r.ends o).length

/-- The first number on a sequence. -/
def front (r : Roster) (o : Occupancy) : Option Nat :=
  (r.ends o).head

/-- The last number on a sequence. -/
def back (r : Roster) (o : Occupancy) : Option Nat :=
  (r.ends o).tail

/-- The sequence that a number is on. -/
def placeOf (r : Roster) (id : Nat) : Option Occupancy :=
  (r.link id).place

/-- Changes the ends of a sequence. -/
def modifyEnds (r : Roster) (o : Occupancy) (f : Ends → Ends) : Roster :=
  match o with
  | .available => { r with available := f r.available }
  | .full => { r with full := f r.full }
  | .empty => { r with empty := f r.empty }

/-- Changes the link of a number in the table. -/
def modifyLink (r : Roster) (id : Nat) (f : Link → Link) : Roster :=
  { r with links := r.links.modify id f }

/-- Extends the table so that it has a place for `id`. -/
def reserve (r : Roster) (id : Nat) : Roster :=
  { r with links := r.links ++ Array.replicate (id + 1 - r.links.size) {} }

/-- Sets what follows `before`: the link of a number, or the head of the sequence. -/
def setNext (r : Roster) (o : Occupancy) (before next : Option Nat) : Roster :=
  match before with
  | some b => r.modifyLink b fun l => { l with next := next }
  | none => r.modifyEnds o fun e => { e with head := next }

/-- Sets what precedes `after`: the link of a number, or the tail of the sequence. -/
def setPrev (r : Roster) (o : Occupancy) (after prev : Option Nat) : Roster :=
  match after with
  | some a => r.modifyLink a fun l => { l with prev := prev }
  | none => r.modifyEnds o fun e => { e with tail := prev }

/-- Puts a number that is on no sequence at the end of one. -/
def pushBack (r : Roster) (id : Nat) (o : Occupancy) : Roster :=
  let tail := r.back o
  let r := (r.reserve id).modifyLink id fun _ => { prev := tail, next := none, place := some o }
  let r := r.setNext o tail (some id)
  r.modifyEnds o fun e => { e with tail := some id, length := e.length + 1 }

/-- Takes a number off its sequence, if it is on one. -/
def remove (r : Roster) (id : Nat) : Roster :=
  let link := r.link id
  match link.place with
  | none => r
  | some o =>
    let r := r.setNext o link.prev link.next
    let r := r.setPrev o link.next link.prev
    let r := r.modifyEnds o fun e => { e with length := e.length - 1 }
    r.modifyLink id fun _ => {}

/-- Moves a number to the end of a sequence, unless it is on that sequence already. -/
def relink (r : Roster) (id : Nat) (o : Occupancy) : Roster :=
  if r.placeOf id = some o then r else (r.remove id).pushBack id o

/-- Follows a sequence from `cursor`, which comes after `prev` and `met` others; answers with the
last number and how many there were. More numbers than the table has are a cycle. -/
def follow (r : Roster) (o : Occupancy) :
    (room met : Nat) → (prev cursor : Option Nat) → Except Fault (Option Nat × Nat)
  | _, met, prev, none => .ok (prev, met)
  | room, met, prev, some id =>
    let link := r.link id
    if link.place = some o ∧ link.prev = prev then
      match room with
      | 0 => .error (.corruptHeap "pool_cache" id s!"cycle on the {o.name} list")
      | room + 1 => r.follow o room (met + 1) (some id) link.next
    else
      .error (.corruptHeap "pool_cache" id
        s!"pool {id} has inconsistent links on the {o.name} list")

/-- The links and ends of one sequence agree. -/
def validateOne (r : Roster) (o : Occupancy) : Except Fault Unit := do
  let (last, count) ← r.follow o r.links.size 0 none (r.front o)
  if r.back o = last ∧ r.length o = count then return ()
  else
    .error (.corruptHeap "pool_cache" 0
      s!"{o.name} list length {r.length o} but {count} reachable")

/-- The links and ends of all sequences agree. -/
def validate (r : Roster) : Except Fault Unit := do
  r.validateOne .available
  r.validateOne .full
  r.validateOne .empty

end Roster

end LayeredMemory
