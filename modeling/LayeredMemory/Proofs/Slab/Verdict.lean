import LayeredMemory.Proofs.Slab.Geometry

/-!
# Verdicts — validating a slab whose links may be damaged

Here nothing is assumed about memory, nor about the head of the free list and the count: a slab is
`Worn` when it was built once, and used or spoiled in any way since. All that is left of it is the
cut.

Validation follows links that may lead anywhere. `guardedValidate` is validation that reads links
only where it is let, and gives up after so many nodes. What bounds it is the set of slots that were
not met yet (`Marks`): a node that is no slot, or was met before, ends the walk before its link is
read.

* `guardedValidate_eq`: with the first words of the slots to read, and one node more than there are
  slots, the guarded walk comes to the same verdict. So validation ends, and reads nothing else.
* `validate_eq_ok_iff`: it succeeds exactly if there is a free list as there should be.
* `validate_exact`: both, for every slab that is worn and every memory.
-/

namespace LayeredMemory.Slab

/-- Slabs as they come about from a new one, on any memory at any time: by calls, however they end,
and by anybody who overwrites the head of the free list and the count. -/
inductive Worn : Slab → Prop
  | init {σ : Type} {p p' : σ} {m m' : Memory} {e : Extent} {slotSize capacity : Nat} {s : Slab}
      (valid : e.Valid) (run : Slab.init e slotSize capacity ⟨p, m⟩ = .ok s ⟨p', m'⟩) : Worn s
  | alloc {s : Slab} (before : Worn s) (m : Memory) :
      Worn (Action.final (Slab.alloc ⟨s, m⟩)).part
  | free {s : Slab} (before : Worn s) (a : Nat) (m : Memory) :
      Worn (Action.final (Slab.free a ⟨s, m⟩)).part
  | reset {s : Slab} (before : Worn s) (m : Memory) :
      Worn (Action.final (Slab.reset ⟨s, m⟩)).part
  | spoil {s : Slab} (before : Worn s) (head count : Nat) :
      Worn { s with freeHead := head, allocated := count }

/-- The first words of the slots, and no other. -/
def link? (s : Slab) (m : Memory) (a : Nat) : Option Nat :=
  if s.owns a then some (m.readWord a) else none

/-- Counts nodes from `node` on while they are different slots. Reads links only through `link`, and
gives up when that refuses or when it has visited `room` nodes. -/
def guardedInspect (s : Slab) (link : Nat → Option Nat) :
    (room count seen node : Nat) → Option (Except Fault Nat)
  | 0, count, _, node => if node = 0 then some (.ok count) else none
  | room + 1, count, seen, node =>
    if node = 0 then some (.ok count)
    else
      match s.slotIndex node with
      | none =>
        some (.error (.corruptHeap "pool" node "free-list entry is not a slot of this pool"))
      | some i =>
        if seen.testBit i then
          some (.error (.corruptHeap "pool" node s!"slot {i} appears twice on the free list"))
        else do
          let next ← link node
          s.guardedInspect link room (count + 1) (seen ||| 1 <<< i) next

/-- The end of a validation that has counted the nodes of the free list. -/
def reconcile (s : Slab) (counted : Except Fault Nat) : Checked Unit := do
  let count ← Checked.ofExcept counted
  let expected ← s.freeSlots
  if count = expected then return ()
  else
    Checked.fault (.corruptHeap "pool" s.first
      s!"free list holds {count} slots, bookkeeping says {expected}")

/-- Validation that reads links only through `link` and visits at most `room` nodes. -/
def guardedValidate (s : Slab) (link : Nat → Option Nat) (room : Nat) : Option (Checked Unit) :=
  (s.guardedInspect link room 0 0 s.freeHead).map s.reconcile

/-- The slots in `met` are different, and the bits of `seen` are their numbers. -/
structure Marks (s : Slab) (seen : Nat) (met : List Nat) : Prop where
  slots : ∀ a ∈ met, s.HasSlot a
  nodup : met.Nodup
  bits : ∀ i < s.capacity, seen.testBit i = true ↔ s.slotAddr i ∈ met

variable {s : Slab} {m m' : Memory} {count seen node room n : Nat} {met l : List Nat}
  {link : Nat → Option Nat} {f : Fault}

/-! ### Slots that were met -/

namespace Marks

theorem zero (s : Slab) : s.Marks 0 [] :=
  ⟨nofun, .nil, fun i _ => by simp⟩

/-- A slot that is met for the first time. -/
theorem mark {i : Nat} (marks : s.Marks seen met) (pos : 0 < s.stride) (lt : i < s.capacity)
    (fresh : seen.testBit i ≠ true) : s.Marks (seen ||| 1 <<< i) (s.slotAddr i :: met) := by
  have out : s.slotAddr i ∉ met := fun h => fresh ((marks.bits i lt).mpr h)
  refine ⟨List.forall_mem_cons.mpr ⟨⟨i, lt, rfl⟩, marks.slots⟩,
    List.nodup_cons.mpr ⟨out, marks.nodup⟩, fun j hj => ?_⟩
  rw [Nat.testBit_or, Bool.or_eq_true, marks.bits j hj, Nat.one_shiftLeft, Nat.testBit_two_pow,
    decide_eq_true_iff, List.mem_cons, or_comm]
  refine or_congr_left ⟨fun same => same ▸ rfl, fun same => ?_⟩
  exact (slotAddr_inj pos same).symm

theorem length_le (marks : s.Marks seen met) : met.length ≤ s.capacity :=
  length_le_capacity marks.nodup marks.slots

end Marks

/-! ### The guarded walk -/

/-- **A walk ends when no slot is left to meet**, at the latest: with enough room it makes no
difference that it may read the first words of slots only, nor where the chain of links is cut. -/
theorem guardedInspect_eq {cut : Nat} (pos : 0 < s.stride) (marks : s.Marks seen met)
    (reads : ∀ a, s.HasSlot a → link a = some (m.readWord a))
    (enough : s.capacity < met.length + room) (long : s.capacity < met.length + cut) :
    s.guardedInspect link room count seen node =
      some (s.inspect count seen (chain m node cut)) := by
  -- Each node that does not end the walk is a slot more in `met`, and these cannot exceed all.
  induction room generalizing cut count seen met node with
  | zero => exact absurd marks.length_le (by omega)
  | succ room ih =>
    obtain ⟨cut, rfl⟩ : ∃ c, cut = c + 1 :=
      Nat.exists_eq_add_one_of_ne_zero fun zero => absurd marks.length_le (by omega)
    rw [guardedInspect, chain]
    by_cases null : node = 0
    · rw [if_pos null, if_pos null]
      rfl
    rw [if_neg null, if_neg null, inspect]
    cases index : s.slotIndex node with
    | none => rfl
    | some i =>
      obtain ⟨lt, rfl⟩ := (slotIndex_eq_some_iff pos).mp index
      dsimp only
      by_cases again : seen.testBit i = true
      · rw [if_pos again, if_pos again]
      · rw [if_neg again, if_neg again, reads _ ⟨i, lt, rfl⟩, Option.bind_eq_bind,
          Option.bind_some]
        refine ih (marks.mark pos lt again) ?_ ?_ <;> rw [List.length_cons] <;> omega

theorem link?_eq (pos : 0 < s.stride) {a : Nat} (slot : s.HasSlot a) :
    s.link? m a = some (m.readWord a) :=
  if_pos ((owns_iff pos).mpr slot)

/-- **Validation keeps to its slots**, and to one node more than there are. -/
theorem guardedValidate_eq (pos : 0 < s.stride) (enough : s.capacity < room) :
    s.guardedValidate (s.link? m) room = some (s.validate m) := by
  have counted : s.guardedInspect (s.link? m) room 0 0 s.freeHead =
      some (s.inspect 0 0 (s.freeChain m)) :=
    guardedInspect_eq pos (.zero s) (fun _ slot => link?_eq pos slot)
      (by rw [List.length_nil]; omega) (by rw [List.length_nil]; omega)
  unfold guardedValidate
  rw [counted]
  rfl

/-- Validation depends on the first words of the slots alone. -/
theorem validate_congr (pos : 0 < s.stride)
    (same : ∀ a, s.HasSlot a → ∀ x, a ≤ x → x < a + 8 → m'.read x = m.read x) :
    s.validate m' = s.validate m := by
  have links : s.link? m' = s.link? m := by
    funext a
    unfold link?
    split
    · next own => exact congrArg some (Memory.readWord_congr (same a ((owns_iff pos).mp own)))
    · rfl
  have verdict := guardedValidate_eq (m := m') pos (Nat.lt_succ_self s.capacity)
  rw [links, guardedValidate_eq pos (Nat.lt_succ_self s.capacity)] at verdict
  exact (Option.some.inj verdict).symm

/-! ### What is accepted -/

/-- What is counted are slots, and none of them was met before. -/
theorem inspect_ok (pos : 0 < s.stride) (marks : s.Marks seen met)
    (counted : s.inspect count seen l = .ok n) :
    (∀ a ∈ l, s.HasSlot a) ∧ (l ++ met).Nodup ∧ n = count + l.length := by
  induction l generalizing count seen met with
  | nil =>
    cases counted
    exact ⟨nofun, marks.nodup, rfl⟩
  | cons node rest ih =>
    rw [inspect] at counted
    cases index : s.slotIndex node with
    | none =>
      rw [index] at counted
      cases counted
    | some i =>
      obtain ⟨lt, rfl⟩ := (slotIndex_eq_some_iff pos).mp index
      rw [index] at counted
      dsimp only at counted
      split at counted
      · cases counted
      · next fresh =>
        obtain ⟨slots, nodup, rfl⟩ := ih (marks.mark pos lt fresh) counted
        refine ⟨List.forall_mem_cons.mpr ⟨⟨i, lt, rfl⟩, slots⟩, ?_, ?_⟩
        · exact List.perm_middle.nodup_iff.mp nodup
        · rw [List.length_cons]
          omega

/-- What is not counted is corrupt. -/
theorem inspect_error (rejected : s.inspect count seen l = .error f) :
    ∃ a details, f = .corruptHeap "pool" a details := by
  induction l generalizing count seen with
  | nil => cases rejected
  | cons node rest ih =>
    rw [inspect] at rejected
    split at rejected
    · cases rejected
      exact ⟨_, _, rfl⟩
    · split at rejected
      · cases rejected
        exact ⟨_, _, rfl⟩
      · exact ih rejected

/-- A chain of links that was not cut off ends at zero. -/
theorem linked_of_length_lt (short : (chain m node n).length < n) :
    Linked m node (chain m node n) := by
  induction n generalizing node with
  | zero => cases short
  | succ n ih =>
    rw [chain] at short ⊢
    split
    · next null =>
      subst null
      exact .nil
    · next live =>
      rw [if_neg live, List.length_cons] at short
      exact .cons (Nat.pos_of_ne_zero live) (ih (Nat.lt_of_succ_lt_succ short))

theorem reconcile_error (counted : Except Fault Nat) (le : s.allocated ≤ s.capacity)
    (corrupt : ∀ f, counted = .error f → ∃ a details, f = .corruptHeap "pool" a details) :
    s.reconcile counted = .ok () ∨
      ∃ a details, s.reconcile counted = .error (.fault (.corruptHeap "pool" a details)) := by
  have left : s.freeSlots = .ok (s.capacity - s.allocated) := Word.sub_eq_ok_iff.mpr ⟨le, rfl⟩
  cases counted with
  | error f =>
    obtain ⟨a, details, rfl⟩ := corrupt f rfl
    exact .inr ⟨a, details, rfl⟩
  | ok count =>
    show (s.freeSlots >>= _) = _ ∨ ∃ a details, (s.freeSlots >>= _) = _
    rw [left]
    by_cases same : count = s.capacity - s.allocated
    · exact .inl (if_pos same)
    · exact .inr ⟨_, _, if_neg same⟩

/-- A count that is accepted is the one in the books. -/
theorem reconcile_ok {counted : Except Fault Nat} (accepted : s.reconcile counted = .ok ()) :
    ∃ count, counted = .ok count ∧ s.allocated + count = s.capacity := by
  cases counted with
  | error f => cases accepted
  | ok count =>
    refine ⟨count, rfl, ?_⟩
    change (s.freeSlots >>= _) = _ at accepted
    cases left : s.freeSlots with
    | error e =>
      rw [left] at accepted
      cases accepted
    | ok expected =>
      obtain ⟨le, rfl⟩ := Word.sub_eq_ok_iff.mp left
      rw [left] at accepted
      by_cases same : count = s.capacity - s.allocated
      · omega
      · cases (if_neg same).symm.trans accepted

/-- **Validation accepts** exactly the free lists that are in order. -/
theorem validate_eq_ok_iff (shaped : s.Shaped) :
    s.validate m = .ok () ↔ ∃ free, s.FreeList m free := by
  have pos := shaped.stride_pos
  constructor
  · intro accepted
    obtain ⟨n, counted, balance⟩ := reconcile_ok accepted
    obtain ⟨slots, nodup, rfl⟩ := inspect_ok pos (.zero s) counted
    rw [List.append_nil] at nodup
    refine ⟨s.freeChain m, linked_of_length_lt ?_, slots, nodup, by omega⟩
    exact Nat.lt_succ_of_le (length_le_capacity nodup slots)
  · rintro ⟨free, list⟩
    exact (shaped.sound list).validate_eq

/-! ### Worn slabs -/

/-- **Wear leaves the cut.** -/
theorem Worn.shaped (worn : Worn s) : s.Shaped := by
  induction worn with
  | @init σ p p' m m' e slotSize capacity s valid run =>
    have built := init_built valid slotSize capacity p m
    rw [run] at built
    cases built with
    | made _ some _ fits => exact fresh_shaped valid some fits m
  | alloc _ m ih => exact (alloc_leaves _ m).shaped ih
  | free _ a m ih => exact (free_leaves a _ m).shaped ih
  | @reset s _ m ih => exact Recounts.shaped ⟨_, _, rfl⟩ ih
  | @spoil s _ head count ih => exact Recounts.shaped ⟨count, head, rfl⟩ ih

/-- **Validation is exact on damaged memory.** For every slab that was built once, whatever its
links, its head and its count have become since, as long as no more slots are counted than there
are: validation visits at most one node more than there are slots, reads the first words of slots
and nothing else, and depends on no other byte. It succeeds if and only if the links from the head
lead through different slots to zero, as many as the count leaves, and otherwise finds corruption.
-/
theorem validate_exact (worn : Worn s) (le : s.allocated ≤ s.capacity) (m : Memory) :
    (∀ room, s.capacity + 1 ≤ room →
      s.guardedValidate (s.link? m) room = some (s.validate m)) ∧
    (∀ m' : Memory, (∀ a, s.HasSlot a → ∀ x, a ≤ x → x < a + 8 → m'.read x = m.read x) →
      s.validate m' = s.validate m) ∧
    (s.validate m = .ok () ↔ ∃ path, Linked m s.freeHead path ∧ (∀ a ∈ path, s.HasSlot a) ∧
      path.Nodup ∧ path.length = s.capacity - s.allocated) ∧
    (s.validate m ≠ .ok () →
      ∃ a details, s.validate m = .error (.fault (.corruptHeap "pool" a details))) := by
  have shaped := worn.shaped
  have pos := shaped.stride_pos
  refine ⟨fun room enough => guardedValidate_eq pos enough, fun m' same => validate_congr pos same,
    ?_, ?_⟩
  · rw [validate_eq_ok_iff shaped]
    constructor
    · rintro ⟨free, list⟩
      have := list.count
      exact ⟨free, list.linked, list.slots, list.nodup, by omega⟩
    · rintro ⟨path, linked, slots, nodup, length⟩
      exact ⟨path, linked, slots, nodup, by omega⟩
  · exact (reconcile_error _ le fun f rejected => inspect_error rejected).resolve_left

/-- A slab with one free slot, as it should be and with the slot linked to itself. -/
theorem validate_exact_loop : ∃ s, Worn s ∧ s.allocated ≤ s.capacity ∧
    s.validate (Memory.zero.writeWord 4096 0) = .ok () ∧
    ∃ a details, s.validate (Memory.zero.writeWord 4096 4096) =
      .error (.fault (.corruptHeap "pool" a details)) := by
  obtain ⟨head, m, run, -⟩ := @init_spec Unit () Memory.zero ⟨4096, 32⟩ 8 4
    ⟨by decide, by decide⟩ (by decide) (by decide) (by decide) (by decide) (by decide)
  have worn : Worn ⟨⟨4096, 32⟩, 4096, 8, 4, 3, 4096⟩ :=
    .spoil (.init ⟨by decide, by decide⟩ run) 4096 3
  have le : 3 ≤ 4 := by decide
  have first : HasSlot ⟨⟨4096, 32⟩, 4096, 8, 4, 3, 4096⟩ 4096 := ⟨0, by decide, rfl⟩
  obtain ⟨-, -, accepted, -⟩ := validate_exact worn le (Memory.zero.writeWord 4096 0)
  obtain ⟨-, -, accepted', rejected⟩ := validate_exact worn le (Memory.zero.writeWord 4096 4096)
  refine ⟨_, worn, le, accepted.mpr ⟨[4096], .cons (show 0 < 4096 by decide) ?_, ?_, ?_, rfl⟩,
    rejected ?_⟩
  · rw [Memory.readWord_writeWord (by decide)]
    exact .nil
  · exact List.forall_mem_singleton.mpr first
  · exact List.nodup_singleton _
  · rw [Ne, accepted']
    rintro ⟨path, linked, -, nodup, length⟩
    -- The only path of one node would have to end behind it, but leads back.
    obtain ⟨a, rfl⟩ := List.length_eq_one_iff.mp length
    obtain ⟨rfl, next⟩ := linked.head_eq
    rw [Memory.readWord_writeWord (by decide)] at next
    cases next

end LayeredMemory.Slab
