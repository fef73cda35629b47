import LayeredMemory.Cache.Roster
import Mathlib.Data.List.Nodup
import Mathlib.Data.List.Perm.Subperm
import Mathlib.Logic.Function.Basic

/-!
# Rosters — three sequences behind the links

A roster `Holds` three sequences when the link of every number on one of them names its neighbours
there, the ends are those of the sequence, and no other number claims to be on one. Putting a number
at the end (`Holds.pushBack`) and taking one off (`Holds.remove`) are then what they are for lists,
and validation, which follows the links, succeeds (`Holds.validate_eq`).

A roster is `Valid` when it holds some sequences. Caches know no more than that, and where a number
is (`placeOf`) and how many there are on a sequence (`length`) after each operation.
-/

namespace LayeredMemory.Roster

variable {r : Roster} {id j : Nat} {o o' : Occupancy}

/-! ### Links and ends after one write -/

theorem link_modifyLink {f : Link → Link} :
    (r.modifyLink id f).link j =
      if j = id ∧ id < r.links.size then f (r.link id) else r.link j := by
  unfold modifyLink link
  dsimp only
  rw [Array.getD_eq_getD_getElem?, Array.getD_eq_getD_getElem?, Array.getD_eq_getD_getElem?,
    Array.getElem?_modify]
  by_cases same : id = j
  · subst same
    by_cases lt : id < r.links.size
    · rw [if_pos rfl, if_pos ⟨rfl, lt⟩, Array.getElem?_eq_getElem lt]
      rfl
    · rw [if_pos rfl, if_neg (fun h => lt h.2), Array.getElem?_eq_none (Nat.le_of_not_lt lt)]
      rfl
  · rw [if_neg same, if_neg fun h => same h.1.symm]

theorem link_reserve : (r.reserve id).link j = r.link j := by
  unfold reserve link
  dsimp only
  rw [Array.getD_eq_getD_getElem?, Array.getD_eq_getD_getElem?, Array.getElem?_append]
  by_cases lt : j < r.links.size
  · rw [if_pos lt]
  · rw [if_neg lt, Array.getElem?_eq_none (Nat.le_of_not_lt lt), Array.getElem?_replicate]
    split <;> rfl

theorem lt_size_reserve : id < (r.reserve id).links.size := by
  unfold reserve
  dsimp only
  rw [Array.size_append, Array.size_replicate]
  omega

@[simp] theorem link_modifyEnds {f : Ends → Ends} : (r.modifyEnds o f).link j = r.link j := by
  cases o <;> rfl

@[simp] theorem size_modifyEnds {f : Ends → Ends} :
    (r.modifyEnds o f).links.size = r.links.size := by
  cases o <;> rfl

@[simp] theorem size_modifyLink {f : Link → Link} : (r.modifyLink id f).links.size = r.links.size :=
  Array.size_modify ..

theorem ends_modifyEnds {f : Ends → Ends} :
    (r.modifyEnds o f).ends o' = if o' = o then f (r.ends o) else r.ends o' := by
  cases o <;> cases o' <;> rfl

@[simp] theorem ends_modifyLink {f : Link → Link} : (r.modifyLink id f).ends o = r.ends o := by
  cases o <;> rfl

@[simp] theorem ends_reserve : (r.reserve id).ends o = r.ends o := by
  cases o <;> rfl

theorem lt_size_of_placeOf (h : r.placeOf id = some o) : id < r.links.size := by
  by_contra out
  unfold placeOf link at h
  rw [Array.getD_eq_getD_getElem?, Array.getElem?_eq_none (Nat.le_of_not_lt out)] at h
  cases h

/-- A number that is nowhere stays so. -/
theorem remove_of_placeOf (out : r.placeOf id = none) : r.remove id = r := by
  unfold remove
  dsimp only
  rw [show (r.link id).place = none from out]

section Neighbours

variable {n : Option Nat}

/-- The last number of a sequence hears of its successor, or the head is set. -/
theorem link_setNext {b : Option Nat} (inside : ∀ x ∈ b, x < r.links.size) :
    (r.setNext o b n).link j = if b = some j then { r.link j with next := n } else r.link j := by
  cases b with
  | none => exact link_modifyEnds
  | some x =>
    unfold setNext
    dsimp only
    rw [link_modifyLink]
    by_cases same : j = x
    · subst same
      rw [if_pos ⟨rfl, inside j rfl⟩, if_pos rfl]
    · rw [if_neg (fun h => same h.1), if_neg (fun h => same (Option.some.inj h).symm)]

theorem ends_setNext {b : Option Nat} :
    (r.setNext o b n).ends o' =
      if o' = o ∧ b = none then { r.ends o with head := n } else r.ends o' := by
  cases b with
  | none =>
    unfold setNext
    dsimp only
    rw [ends_modifyEnds]
    simp
  | some x =>
    unfold setNext
    simp

/-- The first number of a sequence hears of its predecessor, or the tail is set. -/
theorem link_setPrev {a : Option Nat} (inside : ∀ x ∈ a, x < r.links.size) :
    (r.setPrev o a n).link j = if a = some j then { r.link j with prev := n } else r.link j := by
  cases a with
  | none => exact link_modifyEnds
  | some x =>
    unfold setPrev
    dsimp only
    rw [link_modifyLink]
    by_cases same : j = x
    · subst same
      rw [if_pos ⟨rfl, inside j rfl⟩, if_pos rfl]
    · rw [if_neg (fun h => same h.1), if_neg (fun h => same (Option.some.inj h).symm)]

theorem ends_setPrev {a : Option Nat} :
    (r.setPrev o a n).ends o' =
      if o' = o ∧ a = none then { r.ends o with tail := n } else r.ends o' := by
  cases a with
  | none =>
    unfold setPrev
    dsimp only
    rw [ends_modifyEnds]
    simp
  | some x =>
    unfold setPrev
    simp

@[simp] theorem size_setNext {b : Option Nat} : (r.setNext o b n).links.size = r.links.size := by
  cases b <;> simp [setNext]

@[simp] theorem size_setPrev {a : Option Nat} : (r.setPrev o a n).links.size = r.links.size := by
  cases a <;> simp [setPrev]

end Neighbours

/-! ### Sequences -/

/-- The links and ends of a roster are those of three sequences. -/
structure Holds (r : Roster) (seqs : Occupancy → List Nat) : Prop where
  ends : ∀ o, r.ends o = ⟨(seqs o).head?, (seqs o).getLast?, (seqs o).length⟩
  links : ∀ o xs id ys, seqs o = xs ++ id :: ys → r.link id = ⟨xs.getLast?, ys.head?, some o⟩
  nodup : ∀ o, (seqs o).Nodup
  listed : ∀ id o, r.placeOf id = some o → id ∈ seqs o

namespace Holds

variable {seqs : Occupancy → List Nat}

theorem new : Holds {} fun _ => [] := by
  refine ⟨fun o => ?_, fun o xs id ys h => ?_, fun _ => .nil, fun id o h => ?_⟩
  · cases o <;> rfl
  · cases xs <;> cases h
  · cases h

theorem mem_iff (h : r.Holds seqs) : id ∈ seqs o ↔ r.placeOf id = some o := by
  refine ⟨fun mem => ?_, h.listed id o⟩
  obtain ⟨xs, ys, split⟩ := List.append_of_mem mem
  unfold placeOf
  rw [h.links o xs id ys split]

theorem back_eq (h : r.Holds seqs) : r.back o = (seqs o).getLast? :=
  congrArg Ends.tail (h.ends o)

theorem front_eq (h : r.Holds seqs) : r.front o = (seqs o).head? :=
  congrArg Ends.head (h.ends o)

theorem placeOf_back (h : r.Holds seqs) (last : r.back o = some id) : r.placeOf id = some o :=
  h.mem_iff.mp (List.mem_of_getLast? (h.back_eq ▸ last))

theorem placeOf_front (h : r.Holds seqs) (first : r.front o = some id) : r.placeOf id = some o :=
  h.mem_iff.mp (List.mem_of_mem_head? (h.front_eq ▸ first))

/-- **One sequence changes**, and the links on the others are as they were. -/
theorem update (h : r.Holds seqs) {r' : Roster} {l : List Nat} (nodup : l.Nodup)
    (ends : ∀ o', r'.ends o' = if o' = o then ⟨l.head?, l.getLast?, l.length⟩ else r.ends o')
    (links : ∀ xs j ys, l = xs ++ j :: ys → r'.link j = ⟨xs.getLast?, ys.head?, some o⟩)
    (listed : ∀ j, r'.placeOf j = some o → j ∈ l)
    (elsewhere : ∀ j o', o' ≠ o → (r.placeOf j = some o' → r'.link j = r.link j) ∧
      (r'.placeOf j = some o' → r.placeOf j = some o')) :
    r'.Holds (Function.update seqs o l) := by
  refine ⟨fun o' => ?_, fun o' xs j ys split => ?_, fun o' => ?_, fun j o' hj => ?_⟩
  all_goals by_cases same : o' = o
  · subst same
    rw [ends, if_pos rfl, Function.update_self]
  · rw [ends, if_neg same, Function.update_of_ne same, h.ends]
  · subst same
    rw [Function.update_self] at split
    exact links xs j ys split
  · rw [Function.update_of_ne same] at split
    have place : r.placeOf j = some o' := h.mem_iff.mp (split ▸ by simp)
    rw [(elsewhere j o' same).1 place]
    exact h.links o' xs j ys split
  · subst same
    rwa [Function.update_self]
  · rw [Function.update_of_ne same]
    exact h.nodup o'
  · subst same
    rw [Function.update_self]
    exact listed j hj
  · rw [Function.update_of_ne same]
    exact h.listed j o' ((elsewhere j o' same).2 hj)

/-! ### Putting a number at the end -/

theorem link_pushBack (h : r.Holds seqs) (out : r.placeOf id = none) :
    (r.pushBack id o).link j =
      if j = id then ⟨r.back o, none, some o⟩
      else if r.back o = some j then { r.link j with next := some id } else r.link j := by
  unfold Roster.pushBack
  dsimp only
  rw [link_modifyEnds, link_setNext, link_modifyLink, link_reserve]
  · by_cases same : j = id
    · subst same
      rw [if_neg (fun last => by rw [h.placeOf_back last] at out; cases out),
        if_pos ⟨rfl, lt_size_reserve⟩, if_pos rfl]
    · simp only [same, false_and, if_false]
  · intro x hx
    have := lt_size_of_placeOf (h.placeOf_back hx)
    rw [size_modifyLink]
    unfold reserve
    rw [Array.size_append]
    omega

theorem ends_pushBack (h : r.Holds seqs) :
    (r.pushBack id o).ends o' =
      if o' = o then ⟨(seqs o ++ [id]).head?, some id, (seqs o).length + 1⟩ else r.ends o' := by
  unfold Roster.pushBack
  dsimp only
  rw [ends_modifyEnds, ends_setNext, ends_setNext]
  by_cases same : o' = o
  · subst same
    rw [if_pos rfl, if_pos rfl, ends_modifyLink, ends_reserve, h.ends, h.back_eq]
    cases seqs o' <;> simp
  · rw [if_neg same, if_neg same, if_neg (fun e => same e.1), ends_modifyLink, ends_reserve]

theorem placeOf_pushBack (h : r.Holds seqs) (out : r.placeOf id = none) :
    (r.pushBack id o).placeOf j = if j = id then some o else r.placeOf j := by
  unfold placeOf
  rw [h.link_pushBack out]
  split
  · rfl
  · split <;> rfl

/-- The links on a sequence behind which a number was put. -/
theorem links_pushBack (h : r.Holds seqs) (out : r.placeOf id = none) {xs ys : List Nat}
    (split : seqs o ++ [id] = xs ++ j :: ys) :
    (r.pushBack id o).link j = ⟨xs.getLast?, ys.head?, some o⟩ := by
  rw [h.link_pushBack out]
  rcases List.eq_nil_or_concat' ys with rfl | ⟨ys, z, rfl⟩
  · -- The new number.
    obtain ⟨rfl, last⟩ := List.append_inj' split rfl
    cases last
    rw [if_pos rfl, h.back_eq]
    rfl
  · -- An older number: only the last of them hears of the new one.
    rw [← List.cons_append, ← List.append_assoc] at split
    obtain ⟨before, last⟩ := List.append_inj' split rfl
    cases last
    have place : r.placeOf j = some o := h.mem_iff.mp (before ▸ by simp)
    have ne : j ≠ id := by
      rintro rfl
      rw [out] at place
      cases place
    rw [if_neg ne, h.links o xs j ys before, h.back_eq, before]
    cases ys with
    | nil => simp
    | cons y ys =>
      have nodup := h.nodup o
      rw [before] at nodup
      have later : j ∉ y :: ys := (List.nodup_cons.mp (List.nodup_append.mp nodup).2.1).1
      rw [if_neg fun last => ?_]
      · rfl
      · rw [List.getLast?_append_cons, List.getLast?_cons_cons] at last
        exact later (List.mem_of_getLast? last)

/-- **Putting a number at the end** of a sequence. -/
theorem pushBack (h : r.Holds seqs) (out : r.placeOf id = none) (o : Occupancy) :
    (r.pushBack id o).Holds (Function.update seqs o (seqs o ++ [id])) := by
  have fresh : id ∉ seqs o := fun mem => by
    rw [h.mem_iff.mp mem] at out
    cases out
  refine h.update (List.concat_eq_append ▸ .concat fresh (h.nodup o)) (fun o' => ?_)
    (fun xs j ys => h.links_pushBack out) (fun j hj => ?_)
    fun j o' ne => ⟨fun place => ?_, fun place => ?_⟩
  · rw [h.ends_pushBack, List.getLast?_concat, List.length_append]
    rfl
  · rw [h.placeOf_pushBack out] at hj
    by_cases new : j = id
    · rw [new]
      exact List.mem_append_right _ List.mem_cons_self
    · rw [if_neg new] at hj
      exact List.mem_append_left _ (h.listed j o hj)
  · have other : j ≠ id := by
      rintro rfl
      rw [out] at place
      cases place
    have not_last : r.back o ≠ some j := by
      intro last
      rw [h.placeOf_back last] at place
      exact ne (Option.some.inj place).symm
    rw [h.link_pushBack out, if_neg other, if_neg not_last]
  · rw [h.placeOf_pushBack out] at place
    by_cases new : j = id
    · rw [if_pos new] at place
      exact absurd (Option.some.inj place).symm ne
    · rwa [if_neg new] at place

/-! ### Taking a number off -/

section Remove

variable {us vs : List Nat}

/-- An element of two lists in a row is in the second or in the first. -/
theorem append_eq_append_cons {xs ys : List Nat} (e : us ++ vs = xs ++ j :: ys) :
    (∃ as, xs = us ++ as ∧ vs = as ++ j :: ys) ∨ ∃ as, us = xs ++ j :: as ∧ ys = as ++ vs := by
  rcases List.append_eq_append_iff.mp e with ⟨as, rfl, rfl⟩ | ⟨as, rfl, tail⟩
  · exact .inl ⟨as, rfl, rfl⟩
  · cases as with
    | nil => exact .inl ⟨[], by simp, tail.symm⟩
    | cons a as =>
      obtain ⟨rfl, rfl⟩ := List.cons.inj tail
      exact .inr ⟨as, rfl, rfl⟩

theorem link_remove (h : r.Holds seqs) (split : seqs o = us ++ id :: vs) :
    (r.remove id).link j =
      if j = id then {}
      else if vs.head? = some j then { r.link j with prev := us.getLast? }
      else if us.getLast? = some j then { r.link j with next := vs.head? }
      else r.link j := by
  have here := h.links o us id vs split
  have lt {x : Nat} (mem : x ∈ us ++ id :: vs) : x < r.links.size :=
    lt_size_of_placeOf (h.mem_iff.mp (split ▸ mem))
  have before : ∀ x ∈ us.getLast?, x < r.links.size := fun x hx =>
    lt (List.mem_append_left _ (List.mem_of_getLast? hx))
  have behind : ∀ x ∈ vs.head?, x < (r.setNext o us.getLast? vs.head?).links.size := by
    intro x hx
    rw [size_setNext]
    exact lt (List.mem_append_right _ (List.mem_cons_of_mem _ (List.mem_of_mem_head? hx)))
  have self := lt (x := id) (by simp)
  unfold Roster.remove
  rw [here]
  dsimp only
  rw [link_modifyLink, link_modifyEnds, link_setPrev behind, link_setNext before]
  by_cases same : j = id
  · rw [if_pos same, if_pos ⟨same, by simpa using self⟩]
  · rw [if_neg same, if_neg fun e => same e.1]
    by_cases first : vs.head? = some j
    · have nodup := h.nodup o
      rw [split] at nodup
      have other : us.getLast? ≠ some j := fun last =>
        (List.nodup_append.mp nodup).2.2 j (List.mem_of_getLast? last) j
          (List.mem_cons_of_mem _ (List.mem_of_mem_head? first)) rfl
      rw [if_pos first, if_pos first, if_neg other]
    · rw [if_neg first, if_neg first]

theorem ends_remove (h : r.Holds seqs) (split : seqs o = us ++ id :: vs) :
    (r.remove id).ends o' =
      if o' = o then ⟨(us ++ vs).head?, (us ++ vs).getLast?, (us ++ vs).length⟩ else r.ends o' := by
  have here := h.links o us id vs split
  unfold Roster.remove
  rw [here]
  dsimp only
  by_cases same : o' = o
  · subst same
    simp only [ends_modifyLink, ends_modifyEnds, ends_setPrev, ends_setNext, h.ends, split]
    rcases List.eq_nil_or_concat' us with rfl | ⟨us, u, rfl⟩ <;> cases vs <;> simp
  · simp only [ends_modifyLink, ends_modifyEnds, ends_setPrev, ends_setNext, same, false_and,
      if_false]

theorem placeOf_remove (h : r.Holds seqs) (split : seqs o = us ++ id :: vs) :
    (r.remove id).placeOf j = if j = id then none else r.placeOf j := by
  unfold placeOf
  rw [h.link_remove split]
  split
  · rfl
  · split
    · rfl
    · split <;> rfl

/-- The links on a sequence from which a number was taken. -/
theorem links_remove (h : r.Holds seqs) (split : seqs o = us ++ id :: vs) {xs ys : List Nat}
    (at_j : us ++ vs = xs ++ j :: ys) : (r.remove id).link j = ⟨xs.getLast?, ys.head?, some o⟩ := by
  have nodup := h.nodup o
  rw [split] at nodup
  obtain ⟨out, rest⟩ := List.nodup_middle.mp nodup |> List.nodup_cons.mp
  have ne : j ≠ id := by
    rintro rfl
    exact out (at_j ▸ by simp)
  rw [h.link_remove split, if_neg ne]
  obtain ⟨nodup_us, nodup_vs, apart⟩ := List.nodup_append.mp rest
  rcases append_eq_append_cons at_j with ⟨as, rfl, rfl⟩ | ⟨as, rfl, rfl⟩
  · -- The number lies behind the one that goes.
    have link := h.links o (us ++ id :: as) j ys (by rw [split, List.append_assoc]; rfl)
    have not_last : us.getLast? ≠ some j := fun last =>
      apart j (List.mem_of_getLast? last) j (by simp) rfl
    cases as with
    | nil => rw [List.nil_append, List.head?_cons, if_pos rfl, link, List.append_nil]
    | cons a as =>
      have not_first : a ≠ j := by
        rintro rfl
        exact (List.nodup_cons.mp nodup_vs).1 (by simp)
      rw [List.cons_append, List.head?_cons, if_neg (fun e => not_first (Option.some.inj e)),
        if_neg not_last, link]
      simp
  · -- The number lies before the one that goes.
    have link := h.links o xs j (as ++ id :: vs) (by rw [split, List.append_assoc]; rfl)
    have not_first : vs.head? ≠ some j := fun first =>
      apart j (by simp) j (List.mem_of_mem_head? first) rfl
    rw [if_neg not_first, link]
    cases as with
    | nil => simp
    | cons a as =>
      have later := (List.nodup_cons.mp (List.nodup_append.mp nodup_us).2.1).1
      rw [if_neg fun last => ?_]
      · rfl
      · rw [List.getLast?_append_cons, List.getLast?_cons_cons] at last
        exact later (List.mem_of_getLast? last)

/-- **Taking a number off** its sequence. -/
theorem remove (h : r.Holds seqs) (split : seqs o = us ++ id :: vs) :
    (r.remove id).Holds (Function.update seqs o (us ++ vs)) := by
  have nodup := h.nodup o
  rw [split] at nodup
  refine h.update (List.nodup_cons.mp (List.nodup_middle.mp nodup)).2
    (fun o' => h.ends_remove split) (fun xs j ys => h.links_remove split) (fun j hj => ?_)
    fun j o' ne => ⟨fun place => ?_, fun place => ?_⟩
  · rw [h.placeOf_remove split] at hj
    by_cases gone : j = id
    · rw [if_pos gone] at hj
      cases hj
    · rw [if_neg gone] at hj
      have mem := h.listed j o hj
      rw [split] at mem
      simpa [gone] using mem
  · have off : j ∉ us ++ id :: vs := by
      intro mem
      rw [h.mem_iff.mp (split ▸ mem)] at place
      exact ne (Option.some.inj place).symm
    rw [List.mem_append, List.mem_cons, not_or, not_or] at off
    have not_first : vs.head? ≠ some j := fun first => off.2.2 (List.mem_of_mem_head? first)
    have not_last : us.getLast? ≠ some j := fun last => off.1 (List.mem_of_getLast? last)
    rw [h.link_remove split, if_neg off.2.1, if_neg not_first, if_neg not_last]
  · rw [h.placeOf_remove split] at place
    by_cases gone : j = id
    · rw [if_pos gone] at place
      cases place
    · rwa [if_neg gone] at place

end Remove

/-! ### Validation -/

/-- Following the links of a sequence meets what is left of it. -/
theorem follow_eq (h : r.Holds seqs) {xs ys : List Nat} (split : seqs o = xs ++ ys) (room met : Nat)
    (enough : ys.length ≤ room) :
    r.follow o room met xs.getLast? ys.head? = .ok ((seqs o).getLast?, met + ys.length) := by
  -- The sequence ends before the room does, so the walk is never cut short.
  induction ys generalizing xs room met with
  | nil =>
    rw [split, List.append_nil, List.head?_nil, follow]
    rfl
  | cons id ys ih =>
    obtain ⟨room, rfl⟩ : ∃ k, room = k + 1 := ⟨room - 1, by rw [List.length_cons] at enough; omega⟩
    have split' : seqs o = (xs ++ [id]) ++ ys := by rw [split, List.append_assoc]; rfl
    have next := ih split' room (met + 1) (Nat.le_of_succ_le_succ enough)
    rw [List.getLast?_concat] at next
    rw [List.head?_cons, follow, h.links o xs id ys split]
    dsimp only
    rw [if_pos ⟨rfl, rfl⟩, next, List.length_cons]
    congr 2
    omega

theorem length_le_size (h : r.Holds seqs) : (seqs o).length ≤ r.links.size := by
  have sub : seqs o ⊆ List.range r.links.size := fun id hid =>
    List.mem_range.mpr (lt_size_of_placeOf (h.mem_iff.mp hid))
  have := (List.subperm_of_subset (h.nodup o) sub).length_le
  rwa [List.length_range] at this

theorem validateOne_eq (h : r.Holds seqs) : r.validateOne o = .ok () := by
  have follow := h.follow_eq (List.nil_append (seqs o)).symm r.links.size 0 h.length_le_size
  unfold validateOne
  rw [h.front_eq]
  rw [List.getLast?_nil] at follow
  rw [follow]
  refine if_pos ⟨h.back_eq, ?_⟩
  rw [Nat.zero_add]
  exact congrArg Ends.length (h.ends o)

/-- **Validation of a roster that holds sequences** succeeds. -/
theorem validate_eq (h : r.Holds seqs) : r.validate = .ok () := by
  unfold validate
  rw [h.validateOne_eq, h.validateOne_eq, h.validateOne_eq]
  rfl

end Holds

/-! ### What caches know -/

/-- The roster holds some sequences. -/
def Valid (r : Roster) : Prop :=
  ∃ seqs, r.Holds seqs

namespace Valid

theorem new : Valid {} :=
  ⟨_, .new⟩

theorem validate_eq (h : r.Valid) : r.validate = .ok () := by
  obtain ⟨seqs, holds⟩ := h
  exact holds.validate_eq

/-- **Putting a number at the end** of a sequence. -/
theorem pushBack (h : r.Valid) (out : r.placeOf id = none) (o : Occupancy) :
    (r.pushBack id o).Valid ∧
      (∀ j, (r.pushBack id o).placeOf j = if j = id then some o else r.placeOf j) ∧
      ∀ o', (r.pushBack id o).length o' = r.length o' + if o' = o then 1 else 0 := by
  obtain ⟨seqs, holds⟩ := h
  refine ⟨⟨_, holds.pushBack out o⟩, fun j => holds.placeOf_pushBack out, fun o' => ?_⟩
  unfold Roster.length
  rw [holds.ends_pushBack]
  by_cases same : o' = o
  · subst same
    rw [if_pos rfl, if_pos rfl, holds.ends]
  · rw [if_neg same, if_neg same, Nat.add_zero]

/-- **Taking a number off** its sequence. -/
theorem remove (h : r.Valid) (listed : r.placeOf id = some o) :
    (r.remove id).Valid ∧ (∀ j, (r.remove id).placeOf j = if j = id then none else r.placeOf j) ∧
      ∀ o', (r.remove id).length o' + (if o' = o then 1 else 0) = r.length o' := by
  obtain ⟨seqs, holds⟩ := h
  obtain ⟨us, vs, split⟩ := List.append_of_mem (holds.listed id o listed)
  refine ⟨⟨_, holds.remove split⟩, fun j => holds.placeOf_remove split, fun o' => ?_⟩
  unfold Roster.length
  rw [holds.ends_remove split]
  by_cases same : o' = o
  · subst same
    rw [if_pos rfl, if_pos rfl, holds.ends, split]
    simp only [List.length_append, List.length_cons]
    omega
  · rw [if_neg same, if_neg same, Nat.add_zero]

/-- **Moving a number** to the end of a sequence. -/
theorem relink (h : r.Valid) (listed : r.placeOf id = some o) (o' : Occupancy) :
    (r.relink id o').Valid ∧
      (∀ j, (r.relink id o').placeOf j = if j = id then some o' else r.placeOf j) ∧
      ∀ x, (r.relink id o').length x + (if x = o then 1 else 0) =
        r.length x + if x = o' then 1 else 0 := by
  unfold Roster.relink
  by_cases same : r.placeOf id = some o'
  · obtain rfl : o = o' := Option.some.inj (listed.symm.trans same)
    rw [if_pos same]
    refine ⟨h, fun j => ?_, fun x => rfl⟩
    split
    · next e => rw [e, same]
    · rfl
  · rw [if_neg same]
    obtain ⟨valid, place, length⟩ := h.remove listed
    have out : (r.remove id).placeOf id = none := by rw [place, if_pos rfl]
    obtain ⟨valid', place', length'⟩ := valid.pushBack out o'
    refine ⟨valid', fun j => ?_, fun x => ?_⟩
    · rw [place', place]
      by_cases e : j = id
      · rw [if_pos e, if_pos e]
      · rw [if_neg e, if_neg e, if_neg e]
    · rw [length', ← length x]
      omega

end Valid

end LayeredMemory.Roster
