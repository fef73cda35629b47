import LayeredMemory.Proofs.Cache.Roster
import Mathlib.Data.List.Dedup

/-!
# Policy — three sequences of slab numbers

What a cache does to its roster, without the links: operations on three sequences of numbers.
`next?` is the slab that serves next. A slab that changes its occupancy is moved to the back of
another sequence (`move`), a new one joins the empty ones (`insert`), and empty ones leave from the
front (`drop`), as many as there are to spare (`spare`, `trim`). `Move` is what a request comes
down to, and `Move.Obeys` which moves the policy allows.

* `Roster.Holds.erase`, `Roster.Holds.relink`, `Roster.Holds.evict`: the linked roster follows.
* `Move.Obeys.sublist_emptied`: under the policy the empty slabs stand in the order in which they
  were emptied last.
-/

namespace LayeredMemory

/-- The numbers on each sequence, first to last. -/
abbrev Sequences : Type :=
  Occupancy → List Nat

namespace Sequences

/-- The slab that serves next: the first with some slots free, else the one emptied last. -/
def next? (q : Sequences) : Option Nat :=
  (q .available).head? <|> (q .empty).getLast?

/-- A slab goes to the back of a sequence, unless it is there already. -/
def move (q : Sequences) (id : Nat) (o : Occupancy) : Sequences :=
  if id ∈ q o then q else fun x => if x = o then q x ++ [id] else (q x).erase id

/-- A new slab joins the empty ones. -/
def insert (q : Sequences) (id : Nat) : Sequences :=
  Function.update q .empty (q .empty ++ [id])

/-- The first `n` empty slabs leave. -/
def drop (q : Sequences) (n : Nat) : Sequences :=
  Function.update q .empty ((q .empty).drop n)

/-- The empty slabs that are too many, where `keep` may stay. -/
def spare (q : Sequences) (keep : Nat) : List Nat :=
  (q .empty).take ((q .empty).length - keep)

/-- The empty slabs that are too many leave. -/
def trim (q : Sequences) (keep : Nat) : Sequences :=
  q.drop ((q .empty).length - keep)

variable {q : Sequences} {id keep n : Nat} {o x : Occupancy}

/-- The slab that serves next is not listed as full. -/
theorem exists_of_next? (h : q.next? = some id) : ∃ o, id ∈ q o ∧ o ≠ .full := by
  unfold next? at h
  cases first : (q .available).head? with
  | some i =>
    rw [first] at h
    exact ⟨.available, List.mem_of_mem_head? (first.trans h), nofun⟩
  | none =>
    rw [first] at h
    exact ⟨.empty, List.mem_of_getLast? h, nofun⟩

theorem next?_eq_none_iff : q.next? = none ↔ q .available = [] ∧ q .empty = [] := by
  unfold next?
  cases q .available with
  | nil => simp
  | cons => simp

theorem move_of_mem (h : id ∈ q o) : q.move id o = q :=
  if_pos h

theorem move_self (h : id ∉ q o) : q.move id o o = q o ++ [id] := by
  unfold move
  rw [if_neg h, if_pos rfl]

theorem move_elsewhere (h : id ∉ q o) (ne : x ≠ o) : q.move id o x = (q x).erase id := by
  unfold move
  rw [if_neg h, if_neg ne]

@[simp] theorem drop_empty : q.drop n .empty = (q .empty).drop n :=
  Function.update_self ..

@[simp] theorem insert_empty : q.insert id .empty = q .empty ++ [id] :=
  Function.update_self ..

theorem drop_zero : q.drop 0 = q :=
  Function.update_eq_self ..

theorem drop_drop {k : Nat} : (q.drop n).drop k = q.drop (n + k) := by
  unfold drop
  rw [Function.update_self, Function.update_idem, List.drop_drop]

/-- What leaves and what stays are the front and the back of the empty ones. -/
theorem spare_append_trim : q.spare keep ++ q.trim keep .empty = q .empty := by
  rw [trim, drop_empty]
  exact List.take_append_drop ..

theorem spare_zero : q.spare 0 = q .empty :=
  List.take_length

theorem trim_zero : q.trim 0 = Function.update q .empty [] := by
  unfold trim drop
  rw [Nat.sub_zero, List.drop_length]

/-- Moving to a sequence of its own leaves a slab's number nowhere else. -/
theorem move_empty_sublist (ne : o ≠ .empty) : (q.move id o .empty).Sublist (q .empty) := by
  by_cases h : id ∈ q o
  · rw [move_of_mem h]
  · rw [move_elsewhere h ne.symm]
    exact List.erase_sublist

/-- A new slab that hands an object out at once leaves the empty ones as they were. -/
theorem insert_move_empty (fresh : ∀ x, id ∉ q x) (ne : o ≠ .empty) :
    (q.insert id).move id o .empty = q .empty := by
  have absent : id ∉ q.insert id o := by
    rw [insert, Function.update_of_ne ne]
    exact fresh o
  rw [move_elsewhere absent ne.symm, insert_empty, List.erase_append_right _ (fresh .empty),
    List.erase_cons_head, List.append_nil]

end Sequences

/-! ### The roster follows -/

namespace Roster.Holds

variable {r : Roster} {q : Sequences} {id n : Nat} {o o' : Occupancy} {rest : List Nat}

theorem length_eq (h : r.Holds q) : r.length o = (q o).length :=
  congrArg Ends.length (h.ends o)

/-- A number is on one sequence at the most. -/
theorem eq_of_mem (h : r.Holds q) (here : id ∈ q o) (there : id ∈ q o') : o = o' :=
  Option.some.inj ((h.mem_iff.mp here).symm.trans (h.mem_iff.mp there))

theorem next_eq (h : r.Holds q) : (r.front .available <|> r.back .empty) = q.next? := by
  rw [h.front_eq, h.back_eq, Sequences.next?]

theorem insert (h : r.Holds q) (out : r.placeOf id = none) :
    (r.pushBack id .empty).Holds (q.insert id) :=
  h.pushBack out .empty

/-- **Removing erases** a number wherever it is, and does nothing if it is nowhere. -/
theorem erase (h : r.Holds q) (id : Nat) : (r.remove id).Holds fun x => (q x).erase id := by
  cases place : r.placeOf id with
  | none =>
    have gone : (fun x => (q x).erase id) = q := funext fun x => List.erase_of_not_mem fun mem => by
      rw [h.mem_iff.mp mem] at place
      cases place
    rw [gone, Roster.remove_of_placeOf place]
    exact h
  | some o =>
    have here : id ∈ q o := h.mem_iff.mpr place
    obtain ⟨us, vs, split⟩ := List.append_of_mem here
    have gone : (fun x => (q x).erase id) = Function.update q o (us ++ vs) := by
      funext x
      by_cases same : x = o
      · subst same
        have first : id ∉ us := by
          have nodup := split ▸ h.nodup x
          exact fun mem => (List.nodup_append.mp nodup).2.2 id mem id List.mem_cons_self rfl
        rw [Function.update_self, split, List.erase_append_right _ first, List.erase_cons_head]
      · rw [Function.update_of_ne same, List.erase_of_not_mem]
        exact fun mem => same (h.eq_of_mem mem here)
    exact gone ▸ h.remove split

theorem placeOf_erase (h : r.Holds q) (id : Nat) : (r.remove id).placeOf id = none := by
  cases place : (r.remove id).placeOf id with
  | none => rfl
  | some o => exact absurd ((h.erase id).mem_iff.mpr place) (h.nodup o).not_mem_erase

/-- **Relinking moves** a number. -/
theorem relink (h : r.Holds q) (id : Nat) (o : Occupancy) :
    (r.relink id o).Holds (q.move id o) := by
  unfold Roster.relink
  by_cases same : r.placeOf id = some o
  · rw [if_pos same, Sequences.move_of_mem (h.mem_iff.mpr same)]
    exact h
  · have absent : id ∉ q o := fun mem => same (h.mem_iff.mp mem)
    rw [if_neg same]
    have moved : Function.update (fun x => (q x).erase id) o ((q o).erase id ++ [id]) =
        q.move id o := by
      funext x
      by_cases at_o : x = o
      · subst at_o
        rw [Function.update_self, Sequences.move_self absent, List.erase_of_not_mem absent]
      · rw [Function.update_of_ne at_o, Sequences.move_elsewhere absent at_o]
    exact moved ▸ (h.erase id).pushBack (h.placeOf_erase id) o

/-- **Removing the first empty slab** drops it. -/
theorem evict (h : r.Holds q) (first : q .empty = id :: rest) : (r.remove id).Holds (q.drop 1) := by
  have split : q .empty = [] ++ id :: rest := first
  have after := h.remove split
  unfold Sequences.drop
  rw [first]
  exact after

end Roster.Holds

/-! ### Moves -/

/-- What a request does to the sequences. -/
inductive Move where
  /-- A slab that is listed hands an object out. -/
  | took (id : Nat) (o : Occupancy)
  /-- A new slab hands an object out. -/
  | grew (id : Nat) (o : Occupancy)
  /-- There is no object. -/
  | denied
  /-- A slab takes an object back, and some slabs leave. -/
  | gave (id : Nat) (o : Occupancy) (gone : List Nat)
  /-- What was given back is no object. -/
  | refused
  /-- Some slabs leave. -/
  | shrank (gone : List Nat)

namespace Move

/-- The slab that became empty. -/
def emptied : Move → List Nat
  | .gave id .empty _ => [id]
  | _ => []

/-- What leaves when a slab has become as full as `o`: if it is empty, then empty slabs until `keep`
are left. -/
inductive Trims (keep : Nat) (q : Sequences) : Occupancy → List Nat → Sequences → Prop
  | empty : Trims keep q .empty (q.spare keep) (q.trim keep)
  | busy {o : Occupancy} (busy : o ≠ .empty) : Trims keep q o [] q

/-- **The policy.** A new slab comes only where no slab is available or empty. A slab that is
emptied joins the empty ones at the back before the first of them leave, and of these no more leave
than are above `keep`. -/
inductive Obeys (keep : Nat) : Sequences → Move → Sequences → Prop
  | took {q : Sequences} {id : Nat} {o : Occupancy} (next : q.next? = some id) (busy : o ≠ .empty) :
      Obeys keep q (.took id o) (q.move id o)
  | grew {q : Sequences} {id : Nat} {o : Occupancy} (next : q.next? = none)
      (fresh : ∀ x, id ∉ q x) (busy : o ≠ .empty) :
      Obeys keep q (.grew id o) ((q.insert id).move id o)
  | denied {q : Sequences} (next : q.next? = none) : Obeys keep q .denied q
  | gave {q q' : Sequences} {id : Nat} {o : Occupancy} {gone : List Nat} (listed : ∃ x, id ∈ q x)
      (occupied : id ∉ q .empty) (trims : Trims keep (q.move id o) o gone q') :
      Obeys keep q (.gave id o gone) q'
  | refused {q : Sequences} : Obeys keep q .refused q
  | shrank {q : Sequences} : Obeys keep q (.shrank (q.spare 0)) (q.trim 0)

/-- An entry that is made again counts where it was made last. -/
theorem sublist_dedup_concat {xs log : List Nat} {id : Nat} (absent : id ∉ xs)
    (sub : xs.Sublist log.dedup) : (xs ++ [id]).Sublist (log ++ [id]).dedup := by
  induction log generalizing xs with
  | nil =>
    rw [List.dedup_nil, List.sublist_nil] at sub
    subst sub
    exact .refl _
  | cons a log ih =>
    rw [List.cons_append]
    by_cases again : a ∈ log
    · rw [List.dedup_cons_of_mem again] at sub
      rw [List.dedup_cons_of_mem (List.mem_append_left _ again)]
      exact ih absent sub
    · rw [List.dedup_cons_of_notMem again] at sub
      by_cases same : a = id
      · subst same
        rw [List.dedup_cons_of_mem (List.mem_append_right _ List.mem_cons_self)]
        cases sub with
        | cons _ sub => exact ih absent sub
        | cons_cons _ sub => exact absurd List.mem_cons_self absent
      · have new : a ∉ log ++ [id] := by simp [again, same]
        rw [List.dedup_cons_of_notMem new]
        cases sub with
        | cons _ sub => exact (ih absent sub).cons a
        | cons_cons _ sub =>
          exact (ih (fun mem => absent (List.mem_cons_of_mem a mem)) sub).cons_cons a

/-- **The empty slabs stand in the order in which they were emptied last**, and a move keeps it so:
`log` are the slabs that were emptied, in this order. -/
theorem Obeys.sublist_emptied {keep : Nat} {q q' : Sequences} {mv : Move} {log : List Nat}
    (obeys : mv.Obeys keep q q') (order : (q .empty).Sublist log.dedup) :
    (q' .empty).Sublist (log ++ mv.emptied).dedup := by
  cases obeys with
  | took next busy =>
    rw [emptied, List.append_nil]
    · exact (Sequences.move_empty_sublist busy).trans order
    · nofun
  | @grew id o next fresh busy =>
    rw [emptied, List.append_nil, Sequences.insert_move_empty fresh busy]
    · exact order
    · nofun
  | denied | refused =>
    rw [emptied, List.append_nil]
    · exact order
    · nofun
  | @gave _ id o _ listed occupied trims =>
    cases trims with
    | empty =>
      rw [Sequences.trim, Sequences.drop_empty, Sequences.move_self occupied]
      exact (List.drop_sublist ..).trans (sublist_dedup_concat occupied order)
    | busy busy =>
      rw [emptied, List.append_nil]
      · exact (Sequences.move_empty_sublist busy).trans order
      · rintro _ _ ⟨⟩
        exact busy rfl
  | shrank =>
    rw [emptied, List.append_nil, Sequences.trim, Sequences.drop_empty]
    · exact (List.drop_sublist ..).trans order
    · nofun

/-- **The slab that was emptied stays**, where one may be kept, and is the last of the empty ones.
The slabs that leave are the first of them, and as many stay as may. -/
theorem Obeys.of_emptied {keep id : Nat} {q q' : Sequences} {gone : List Nat}
    (obeys : (Move.gave id .empty gone).Obeys keep q q') :
    gone ++ q' .empty = q .empty ++ [id] ∧
      (q' .empty).length = min ((q .empty).length + 1) keep ∧
      (1 ≤ keep → id ∉ gone ∧ (q' .empty).getLast? = some id) := by
  cases obeys with
  | gave listed occupied trims =>
    cases trims with
    | busy busy => exact absurd rfl busy
    | empty =>
      have moved := Sequences.move_self occupied
      refine ⟨moved ▸ Sequences.spare_append_trim, ?_, fun some => ?_⟩
      · rw [Sequences.trim, Sequences.drop_empty, moved, List.length_drop, List.length_append,
          List.length_singleton]
        omega
      · have few : (q .empty ++ [id]).length - keep ≤ (q .empty).length := by
          rw [List.length_append, List.length_singleton]
          omega
        rw [Sequences.spare, Sequences.trim, Sequences.drop_empty, moved]
        rw [List.take_append_of_le_length few, List.drop_append_of_le_length few]
        exact ⟨fun mem => occupied (List.mem_of_mem_take mem), List.getLast?_concat⟩

/-- No more slabs are empty after a move than before it, or than may be kept. -/
theorem Obeys.length_empty_le {keep : Nat} {q q' : Sequences} {mv : Move}
    (obeys : mv.Obeys keep q q') : (q' .empty).length ≤ max (q .empty).length keep := by
  cases obeys with
  | took next busy =>
    exact Nat.le_trans (Sequences.move_empty_sublist busy).length_le (Nat.le_max_left ..)
  | grew next fresh busy =>
    rw [Sequences.insert_move_empty fresh busy]
    exact Nat.le_max_left ..
  | denied | refused => exact Nat.le_max_left ..
  | gave listed occupied trims =>
    cases trims with
    | empty =>
      rw [Sequences.trim, Sequences.drop_empty, List.length_drop]
      omega
    | busy busy =>
      exact Nat.le_trans (Sequences.move_empty_sublist busy).length_le (Nat.le_max_left ..)
  | shrank =>
    rw [Sequences.trim, Sequences.drop_empty, List.length_drop]
    omega

end Move

end LayeredMemory
