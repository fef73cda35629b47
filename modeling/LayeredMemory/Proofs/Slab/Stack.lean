import LayeredMemory.Proofs.Slab.Geometry
import Mathlib.Data.List.Perm.Basic

/-!
# Slabs are stacks — the free list over whole runs

Seen from outside, a slab is a stack of slot numbers: taking a slot pops, returning one pushes, and
a reset puts all numbers back, the lowest on top. What is below, the links inside the slots and the
head of the list, `Refines` the stack.

`Reachable` pairs a slab and its memory with the stack of the same run, from `Slab.init` on, by
taking slots, returning slots that are out, resets, and writes of clients into slots that are out.

* `Refines.alloc`, `Refines.free`, `reset_refines`, `Refines.write`: one step of both.
* `Reachable.refines`: so a slab refines its stack after every run.
* `reachable_stack`: what follows for the free list in memory, for the bookkeeping, and for the
  bytes of slots that are out.
-/

namespace LayeredMemory.Slab

/-- Slot numbers: those on the stack, the next one first, and those that are out. -/
structure Stack where
  free : List Nat
  out : List Nat

namespace Stack

/-- All numbers below `n` are on the stack, zero on top. -/
def full (n : Nat) : Stack :=
  ⟨List.range n, []⟩

/-- Takes the number on top, if there is one. -/
def pop (t : Stack) : Stack :=
  match t.free with
  | [] => t
  | i :: rest => ⟨rest, i :: t.out⟩

/-- Puts a number that is out on top. -/
def push (t : Stack) (i : Nat) : Stack :=
  ⟨i :: t.free, t.out.erase i⟩

end Stack

/-- The bytes of slot `i`. -/
def slot (s : Slab) (i : Nat) : Extent :=
  ⟨s.slotAddr i, s.stride⟩

/-- The free list in memory spells the stack, and the bookkeeping counts what is out. -/
structure Refines (s : Slab) (m : Memory) (t : Stack) : Prop where
  shaped : s.Shaped
  linked : Linked m s.freeHead (t.free.map s.slotAddr)
  partition : (t.free ++ t.out).Perm (List.range s.capacity)
  allocated : s.allocated = t.out.length

/-- Slabs, their memory and their stacks, as they come about: from a new slab, by what may be done
with it in any order. -/
inductive Reachable : Slab → Memory → Stack → Prop
  | init {σ : Type} {p p' : σ} {m m' : Memory} {e : Extent} {slotSize capacity : Nat} {s : Slab}
      (valid : e.Valid) (run : Slab.init e slotSize capacity ⟨p, m⟩ = .ok s ⟨p', m'⟩) :
      Reachable s m' (.full capacity)
  | alloc {s s' : Slab} {m m' : Memory} {t : Stack} {answer : Except Fault Nat}
      (before : Reachable s m t)
      (run : Action.attempt Slab.alloc ⟨s, m⟩ = .ok answer ⟨s', m'⟩) : Reachable s' m' t.pop
  | free {s s' : Slab} {m m' : Memory} {t : Stack} {i : Nat} (before : Reachable s m t)
      (out : i ∈ t.out) (run : Slab.free (s.slotAddr i) ⟨s, m⟩ = .ok () ⟨s', m'⟩) :
      Reachable s' m' (t.push i)
  | reset {s s' : Slab} {m m' : Memory} {t : Stack} (before : Reachable s m t)
      (run : Slab.reset ⟨s, m⟩ = .ok () ⟨s', m'⟩) : Reachable s' m' (.full s.capacity)
  | write {s : Slab} {m : Memory} {t : Stack} {i a : Nat} {b : UInt8} (before : Reachable s m t)
      (out : i ∈ t.out) (inside : a ∈ s.slot i) : Reachable s (m.write a b) t

/-- What an operation leaves alone that is about none of the slots `out`: all their bytes, and all
bytes outside the slots. -/
structure Spares (s : Slab) (m m' : Memory) (out : List Nat) : Prop where
  slots : ∀ i ∈ out, ∀ x ∈ s.slot i, m'.read x = m.read x
  outside : ∀ x, (∀ i < s.capacity, x ∉ s.slot i) → m'.read x = m.read x

variable {s s' : Slab} {m m' : Memory} {t : Stack} {i j : Nat} {rest : List Nat}

theorem slot_apart (ne : i ≠ j) : (s.slot i).Apart (s.slot j) :=
  slotAddr_apart ne

/-- Between the first slot and the end of the last there are only slots. -/
theorem exists_slot {x : Nat} (pos : 0 < s.stride) (lo : s.first ≤ x)
    (hi : x < s.first + s.capacity * s.stride) : ∃ i < s.capacity, x ∈ s.slot i := by
  have lt : (x - s.first) / s.stride < s.capacity :=
    (Nat.div_lt_iff_lt_mul pos).mpr (by omega)
  refine ⟨_, lt, ?_⟩
  have := Nat.div_add_mod' (x - s.first) s.stride
  have := Nat.mod_lt (x - s.first) pos
  rw [Extent.mem_iff]
  dsimp only [slot, slotAddr]
  omega

/-- Writing into one slot spares the others. -/
theorem Spares.of_slot {out : List Nat} (lt : i < s.capacity)
    (changed : m.ChangedWithin m' (s.slotAddr i) (s.slotAddr i + s.stride)) (others : i ∉ out) :
    s.Spares m m' out := by
  have off {x : Nat} (hx : x ∉ s.slot i) : m'.read x = m.read x := by
    refine changed x ?_
    rw [Extent.mem_iff] at hx
    dsimp only [slot] at hx
    omega
  refine ⟨fun j hj x hx => off ?_, fun x hx => off (hx i lt)⟩
  exact (slot_apart fun same : j = i => others (same ▸ hj)).not_mem hx

namespace Refines

/-! ### What a stack says about a slab -/

theorem nodup (r : Refines s m t) : (t.free ++ t.out).Nodup :=
  r.partition.nodup_iff.mpr List.nodup_range

theorem lt_capacity (r : Refines s m t) (hi : i ∈ t.free ∨ i ∈ t.out) : i < s.capacity :=
  List.mem_range.mp (r.partition.mem_iff.mp (List.mem_append.mpr hi))

theorem length_add (r : Refines s m t) : t.free.length + t.out.length = s.capacity := by
  rw [← List.length_append, r.partition.length_eq, List.length_range]

theorem stride_pos (r : Refines s m t) : 0 < s.stride :=
  r.shaped.stride_pos

theorem hasSlot (r : Refines s m t) (hi : i ∈ t.free ∨ i ∈ t.out) : s.HasSlot (s.slotAddr i) :=
  ⟨i, r.lt_capacity hi, rfl⟩

/-- A stack is one way to see a free list. -/
theorem freeList (r : Refines s m t) : s.FreeList m (t.free.map s.slotAddr) := by
  refine ⟨r.linked, fun a ha => ?_, ?_, ?_⟩
  · obtain ⟨i, hi, rfl⟩ := List.mem_map.mp ha
    exact r.hasSlot (.inl hi)
  · exact (List.nodup_append.mp r.nodup).1.map fun i j e => slotAddr_inj r.stride_pos e
  · rw [List.length_map, r.allocated, Nat.add_comm]
    exact r.length_add

theorem freeChain_eq (r : Refines s m t) : s.freeChain m = t.free.map s.slotAddr :=
  r.freeList.freeChain_eq

theorem validate_eq (r : Refines s m t) : s.validate m = .ok () :=
  (r.shaped.sound r.freeList).validate_eq

/-- A slot that is out is not on the free list. -/
theorem out_not_mem (r : Refines s m t) (out : i ∈ t.out) :
    s.slotAddr i ∉ t.free.map s.slotAddr := by
  intro h
  obtain ⟨j, hj, same⟩ := List.mem_map.mp h
  obtain rfl := slotAddr_inj r.stride_pos same
  exact (List.nodup_append.mp r.nodup).2.2 j hj j out rfl

/-! ### One step -/

/-- **Taking a slot** pops. -/
theorem alloc (r : Refines s m t) (top : t.free = i :: rest) :
    ∃ s', Slab.alloc ⟨s, m⟩ = .ok (s.slotAddr i) ⟨s', m⟩ ∧ s'.slot = s.slot ∧
      Refines s' m t.pop := by
  have list := r.freeList
  rw [top, List.map_cons] at list
  obtain ⟨run, after⟩ := list.alloc r.shaped
  refine ⟨_, run, rfl, ⟨r.shaped.valid, r.shaped.start_le, r.shaped.stop_le, r.shaped.stride_le⟩,
    ?_, ?_, ?_⟩
  · rw [Stack.pop, top]
    exact after.linked
  · refine .trans ?_ r.partition
    rw [Stack.pop, top]
    exact List.perm_middle
  · rw [Stack.pop, top]
    exact congrArg Nat.succ r.allocated

/-- With the stack empty no slot is left to take. -/
theorem alloc_exhausted (r : Refines s m t) (none : t.free = []) :
    Slab.alloc ⟨s, m⟩ = .error (.fault (.exhausted "pool" s.capacity)) ⟨s, m⟩ := by
  have head : s.freeHead = 0 := r.linked.eq_nil_iff.mp (by rw [none, List.map_nil])
  unfold Slab.alloc
  rw [Action.part_bind, if_pos head]
  rfl

theorem free_eq_nil_iff (r : Refines s m t) : t.free = [] ↔ t.out.length = s.capacity := by
  have := r.length_add
  rw [← List.length_eq_zero_iff]
  omega

/-- **Returning a slot** pushes. -/
theorem free (r : Refines s m t) (out : i ∈ t.out) :
    ∃ s' m', Slab.free (s.slotAddr i) ⟨s, m⟩ = .ok () ⟨s', m'⟩ ∧ s'.slot = s.slot ∧
      Refines s' m' (t.push i) ∧ s.Spares m m' (t.out.erase i) := by
  obtain ⟨run, after⟩ := r.freeList.free_spec r.shaped (r.hasSlot (.inr out)) (r.out_not_mem out)
  have := r.shaped.stride_le
  refine ⟨_, _, run, rfl,
    ⟨⟨r.shaped.valid, r.shaped.start_le, r.shaped.stop_le, r.shaped.stride_le⟩, after.linked, ?_,
      ?_⟩, ?_⟩
  · -- Slot `i` moves from those that are out to the top.
    exact (List.perm_middle.symm.trans ((List.perm_cons_erase out).symm.append_left _)).trans
      r.partition
  · dsimp only [Stack.push]
    rw [List.length_erase_of_mem out, r.allocated]
  · refine .of_slot (r.lt_capacity (.inr out))
      ((m.changedWithin_writeWord _ _).mono (Nat.le_refl _) (by omega)) ?_
    exact (List.nodup_append.mp r.nodup).2.1.not_mem_erase

/-- **Clients write** into slots that are out, and the stack stays. -/
theorem write (r : Refines s m t) (out : i ∈ t.out) {a : Nat} (inside : a ∈ s.slot i) (b : UInt8) :
    Refines s (m.write a b) t := by
  refine { r with linked := r.linked.frame fun c hc => ?_ }
  obtain ⟨j, hj, rfl⟩ := List.mem_map.mp hc
  have ne : i ≠ j := fun same => (List.nodup_append.mp r.nodup).2.2 j hj i out same.symm
  have apart := slotAddr_apart (s := s) ne
  have inside := Extent.mem_iff.mp inside
  have := r.shaped.stride_le
  dsimp only [slot] at inside
  exact (m.changedWithin_write a b).readWord (by omega)

end Refines

/-- Threading makes a slab refine the full stack, whatever memory holds. -/
theorem Shaped.thread_refines (shaped : s.Shaped) (m : Memory) :
    Refines { s with freeHead := (thread s.first s.stride s.capacity 0 m).1, allocated := 0 }
        (thread s.first s.stride s.capacity 0 m).2 (.full s.capacity) ∧
      s.Spares m (thread s.first s.stride s.capacity 0 m).2 [] := by
  have stride_pos := shaped.stride_pos
  obtain ⟨list, changed⟩ := shaped.thread_spec m
  refine ⟨⟨⟨shaped.valid, shaped.start_le, shaped.stop_le, shaped.stride_le⟩, list.linked, ?_, rfl⟩,
    nofun, fun x off => changed x ?_⟩
  · rw [Stack.full, List.append_nil]
  · by_contra inside
    obtain ⟨i, lt, hx⟩ := exists_slot stride_pos (by omega : s.first ≤ x) (by omega)
    exact off i lt hx

/-- **A reset** puts all slots back, whatever the free list was and whatever memory holds. -/
theorem Refines.reset (r : Refines s m t) (head count : Nat) (m₁ : Memory) :
    ∃ s' m', Slab.reset ⟨{ s with freeHead := head, allocated := count }, m₁⟩ = .ok () ⟨s', m'⟩ ∧
      s'.slot = s.slot ∧ Refines s' m' (.full s.capacity) ∧ s.Spares m₁ m' [] := by
  obtain ⟨refines, spares⟩ := r.shaped.thread_refines m₁
  exact ⟨_, _, rfl, rfl, refines, spares⟩

/-! ### A new slab -/

/-- **A new slab** refines the full stack. -/
theorem init_refines {σ : Type} {p p' : σ} {e : Extent} {slotSize capacity : Nat} (valid : e.Valid)
    (run : Slab.init e slotSize capacity ⟨p, m⟩ = .ok s ⟨p', m'⟩) :
    Refines s m' (.full capacity) ∧ s.Spares m m' [] ∧ s.capacity = capacity ∧ p' = p := by
  have built := init_built valid slotSize capacity p m
  rw [run] at built
  cases built with
  | made pos some calm fits =>
    obtain ⟨refines, spares⟩ := (fresh_shaped valid some fits m).thread_refines m
    exact ⟨refines, spares, rfl, rfl⟩

/-! ### Whole runs -/

/-- **A slab refines a stack** after every run. -/
theorem Reachable.refines (reachable : Reachable s m t) : Refines s m t := by
  induction reachable with
  | init valid run => exact (init_refines valid run).1
  | @alloc s s' m m' t answer _ run ih =>
    cases top : t.free with
    | nil =>
      rw [Action.attempt_of_fault (ih.alloc_exhausted top)] at run
      cases run
      rwa [Stack.pop, top]
    | cons i rest =>
      obtain ⟨s₁, popped, -, refines⟩ := ih.alloc top
      rw [Action.attempt_of_ok popped] at run
      cases run
      exact refines
  | free _ out run ih =>
    obtain ⟨s₁, m₁, pushed, -, refines, -⟩ := ih.free out
    rw [pushed] at run
    cases run
    exact refines
  | @reset s s' m m' t _ run ih =>
    obtain ⟨s₁, m₁, again, -, refines, -⟩ := ih.reset s.freeHead s.allocated m
    cases again.symm.trans run
    exact refines
  | write _ out inside ih => exact ih.write out inside _

/-- **A slab is a stack of its slots.** A new slab has all of them on the stack. After every run the
free list in memory spells the stack, which together with what is out has each number once; the
bookkeeping counts what is out, and validation succeeds. Taking a slot pops, and is refused exactly
when all are out; returning one pushes, and a reset puts all back whatever it finds. The bytes of
slots that are out stay, but for those of the slot that is returned, and so do all bytes outside the
slots. -/
theorem reachable_stack (reachable : Reachable s m t) :
    (∀ {σ : Type} {p p' : σ} {m₀ m₁ : Memory} {e : Extent} {slotSize capacity : Nat} {s₀ : Slab},
        e.Valid → Slab.init e slotSize capacity ⟨p, m₀⟩ = .ok s₀ ⟨p', m₁⟩ →
        Refines s₀ m₁ (.full capacity) ∧ s₀.Spares m₀ m₁ []) ∧
      (s.freeChain m = t.free.map s.slotAddr ∧ (t.free ++ t.out).Perm (List.range s.capacity) ∧
        s.allocated = t.out.length ∧ s.validate m = .ok ()) ∧
      (∀ i rest, t.free = i :: rest → ∃ s', Slab.alloc ⟨s, m⟩ = .ok (s.slotAddr i) ⟨s', m⟩ ∧
        s'.slot = s.slot ∧ Refines s' m t.pop) ∧
      (Slab.alloc ⟨s, m⟩ = .error (.fault (.exhausted "pool" s.capacity)) ⟨s, m⟩ ↔
        t.out.length = s.capacity) ∧
      (∀ i ∈ t.out, ∃ s' m', Slab.free (s.slotAddr i) ⟨s, m⟩ = .ok () ⟨s', m'⟩ ∧
        s'.slot = s.slot ∧ Refines s' m' (t.push i) ∧ s.Spares m m' (t.out.erase i)) ∧
      ∀ head count m₁, ∃ s' m',
        Slab.reset ⟨{ s with freeHead := head, allocated := count }, m₁⟩ = .ok () ⟨s', m'⟩ ∧
        s'.slot = s.slot ∧ Refines s' m' (.full s.capacity) ∧ s.Spares m₁ m' [] := by
  have r := reachable.refines
  refine ⟨fun valid run => ?new, ⟨r.freeChain_eq, r.partition, r.allocated, r.validate_eq⟩,
    fun i rest top => r.alloc top, ?refused, fun i out => r.free out, r.reset⟩
  case new =>
    obtain ⟨refines, spares, -⟩ := init_refines valid run
    exact ⟨refines, spares⟩
  case refused =>
    rw [← r.free_eq_nil_iff]
    refine ⟨fun refused => ?_, r.alloc_exhausted⟩
    cases top : t.free with
    | nil => rfl
    | cons i rest =>
      obtain ⟨s', popped, -⟩ := r.alloc top
      rw [popped] at refused
      cases refused

/-- Two slots are taken, the second is written to, and the first goes back on top. A reset then puts
all four back in their order. -/
theorem reachable_stack_four : ∃ s m, Reachable s m ⟨[0, 2, 3], [1]⟩ ∧
    s.freeChain m = [4096, 4112, 4120] ∧ s.allocated = 1 ∧ s.validate m = .ok () ∧
    m.read 4105 = 7 ∧ ∃ s' m', Slab.reset ⟨s, m⟩ = .ok () ⟨s', m'⟩ ∧
      s'.freeChain m' = [4096, 4104, 4112, 4120] ∧ s'.allocated = 0 := by
  have valid : Extent.Valid ⟨4096, 32⟩ := ⟨by decide, by decide⟩
  obtain ⟨head, m, run, -⟩ := @init_spec Unit () Memory.zero ⟨4096, 32⟩ 8 4 valid (by decide)
    (by decide) (by decide) (by decide) (by decide)
  have new : Reachable _ m (.full 4) := .init valid run
  obtain ⟨s₁, first, slots₁, -⟩ := (reachable_stack new).2.2.1 0 [1, 2, 3] rfl
  have one := new.alloc (Action.attempt_of_ok first)
  obtain ⟨s₂, second, slots₂, -⟩ := (reachable_stack one).2.2.1 1 [2, 3] rfl
  have two := one.alloc (Action.attempt_of_ok second)
  have inside : 4105 ∈ s₂.slot 1 := by
    rw [slots₂, slots₁]
    exact Extent.mem_iff.mpr (by decide : 4104 ≤ 4105 ∧ 4105 < 4104 + 8)
  have written := two.write (i := 1) (b := 7) (List.mem_cons_self ..) inside
  obtain ⟨s₃, m₃, returned, slots₃, -, spares⟩ :=
    (reachable_stack written).2.2.2.2.1 0 (List.mem_cons_of_mem _ (List.mem_cons_self ..))
  have three := written.free (List.mem_cons_of_mem _ (List.mem_cons_self ..)) returned
  obtain ⟨-, ⟨chain, each, count, sound⟩, -, -, -, reset⟩ := reachable_stack three
  obtain ⟨s₄, m₄, again, slots₄, -⟩ := reset s₃.freeHead s₃.allocated m₃
  obtain ⟨-, ⟨chain', -, count', -⟩, -⟩ := reachable_stack (three.reset again)
  have four : 4 = s₃.capacity := each.length_eq.trans List.length_range
  have slots := slots₃.trans (slots₂.trans slots₁)
  have addr (i : Nat) : s₃.slotAddr i = 4096 + i * 8 :=
    congrArg Extent.start (congrFun slots i)
  have addr' (i : Nat) : s₄.slotAddr i = 4096 + i * 8 :=
    congrArg Extent.start (congrFun (slots₄.trans slots) i)
  have kept : m₃.read 4105 = 7 := by
    rw [spares.slots 1 (List.mem_cons_self ..) 4105 inside, Memory.read_write, if_pos rfl]
  refine ⟨s₃, m₃, three, ?_, count, sound, kept, s₄, m₄, again, ?_, count'⟩
  · rw [chain, funext addr]
    rfl
  · rw [chain', funext addr', ← four]
    rfl

end LayeredMemory.Slab
