import LayeredMemory.Proofs.Slab.Stack

/-!
# Returning slots — what is live, and nothing else

`Dealt` keeps the addresses that a slab handed out and did not take back, from its answers alone,
through any calls in any order: also through those that are refused, and those that stop because the
address is none of these. Clients write into the slots that they hold.

* `Dealt.refines`: these addresses are the slots that the stack of the run has out.
* `Refines.free_cases`: every address is a slot that is out, a slot that is free, or no slot.
* `dealt_returns`: so exactly the live addresses are taken back, and the others leave slab and
  memory as they were.
-/

namespace LayeredMemory.Slab

/-- Slabs and their memory, with the addresses that are live. -/
inductive Dealt : Slab → Memory → List Nat → Prop
  | init {σ : Type} {p p' : σ} {m m' : Memory} {e : Extent} {slotSize capacity : Nat} {s : Slab}
      (valid : e.Valid) (run : Slab.init e slotSize capacity ⟨p, m⟩ = .ok s ⟨p', m'⟩) :
      Dealt s m' []
  | alloc {s s' : Slab} {m m' : Memory} {live : List Nat} {a : Nat} (before : Dealt s m live)
      (run : Slab.alloc ⟨s, m⟩ = .ok a ⟨s', m'⟩) : Dealt s' m' (a :: live)
  | refused {s s' : Slab} {m m' : Memory} {live : List Nat} {f : Failure} (before : Dealt s m live)
      (run : Slab.alloc ⟨s, m⟩ = .error f ⟨s', m'⟩) : Dealt s' m' live
  | free {s s' : Slab} {m m' : Memory} {live : List Nat} {a : Nat} (before : Dealt s m live)
      (run : Slab.free a ⟨s, m⟩ = .ok () ⟨s', m'⟩) : Dealt s' m' (live.erase a)
  | stopped {s s' : Slab} {m m' : Memory} {live : List Nat} {a : Nat} {f : Failure}
      (before : Dealt s m live) (run : Slab.free a ⟨s, m⟩ = .error f ⟨s', m'⟩) : Dealt s' m' live
  | reset {s s' : Slab} {m m' : Memory} {live : List Nat} (before : Dealt s m live)
      (run : Slab.reset ⟨s, m⟩ = .ok () ⟨s', m'⟩) : Dealt s' m' []
  | write {s : Slab} {m : Memory} {live : List Nat} {a x : Nat} {b : UInt8}
      (before : Dealt s m live) (held : a ∈ live) (inside : x ∈ (⟨a, s.stride⟩ : Extent)) :
      Dealt s (m.write x b) live

variable {s s' : Slab} {m m' : Memory} {t : Stack} {live : List Nat} {i a : Nat}

/-- The addresses of the slots that are out. -/
def Stack.outAt (t : Stack) (s : Slab) : List Nat :=
  t.out.map s.slotAddr

theorem slotAddr_of_slot (same : s'.slot = s.slot) : s'.slotAddr = s.slotAddr :=
  funext fun i => congrArg Extent.start (congrFun same i)

namespace Refines

/-! ### Where an address is -/

theorem slotAddr_mem_outAt (r : Refines s m t) : s.slotAddr i ∈ t.outAt s ↔ i ∈ t.out :=
  List.mem_map_of_injective fun _ _ => slotAddr_inj r.stride_pos

/-- An address is a slot that is out, a slot that is free, or no slot. -/
theorem free_cases (r : Refines s m t) (a : Nat) :
    (∃ i ∈ t.out, a = s.slotAddr i) ∨ (s.HasSlot a ∧ a ∉ t.outAt s ∧ a ∈ s.freeChain m) ∨
      ¬s.HasSlot a := by
  by_cases slot : s.HasSlot a
  · obtain ⟨i, lt, rfl⟩ := slot
    have counted := r.partition.mem_iff.mpr (List.mem_range.mpr lt)
    obtain free | out := List.mem_append.mp counted
    · refine .inr (.inl ⟨⟨i, lt, rfl⟩, fun out => ?_, r.freeChain_eq ▸ List.mem_map_of_mem free⟩)
      exact (List.nodup_append.mp r.nodup).2.2 i free i (r.slotAddr_mem_outAt.mp out) rfl
    · exact .inl ⟨i, out, rfl⟩
  · exact .inr (.inr slot)

theorem hasSlot_of_mem_outAt (r : Refines s m t) (out : a ∈ t.outAt s) : s.HasSlot a := by
  obtain ⟨i, hi, rfl⟩ := List.mem_map.mp out
  exact r.hasSlot (.inr hi)

/-- The free list meets the slots that are not out. -/
theorem isFree_iff_not_mem (r : Refines s m t) :
    s.isFree m a = true ↔ s.HasSlot a ∧ a ∉ t.outAt s := by
  rw [isFree_iff]
  constructor
  · intro free
    have slot := r.freeList.slots a (r.freeChain_eq ▸ free)
    obtain ⟨i, out, rfl⟩ | ⟨-, out, -⟩ | off := r.free_cases a
    · exact absurd (r.freeChain_eq ▸ free) (r.out_not_mem out)
    · exact ⟨slot, out⟩
    · exact absurd slot off
  · rintro ⟨slot, out⟩
    obtain ⟨i, hi, rfl⟩ | ⟨-, -, free⟩ | off := r.free_cases a
    · exact absurd (r.slotAddr_mem_outAt.mpr hi) out
    · exact free
    · exact absurd slot off

/-- What is not out is not taken back, and nothing happens. -/
theorem free_stops (r : Refines s m t) (out : a ∉ t.outAt s) :
    ∃ k, Slab.free a ⟨s, m⟩ = .error (.stop k) ⟨s, m⟩ := by
  obtain ⟨i, hi, rfl⟩ | ⟨slot, -, free⟩ | off := r.free_cases a
  · exact absurd (r.slotAddr_mem_outAt.mpr hi) out
  · exact ⟨_, free_of_free r.stride_pos slot free⟩
  · exact ⟨_, free_of_not_slot r.stride_pos off⟩

end Refines

/-! ### Whole runs -/

/-- **Live addresses are the slots that are out**, after every run. -/
theorem Dealt.refines (dealt : Dealt s m live) : ∃ t, Refines s m t ∧ live = t.outAt s := by
  induction dealt with
  | init valid run => exact ⟨_, (init_refines valid run).1, rfl⟩
  | @alloc s s' m m' live a _ run ih =>
    obtain ⟨t, r, rfl⟩ := ih
    cases top : t.free with
    | nil => cases (r.alloc_exhausted top).symm.trans run
    | cons i rest =>
      obtain ⟨s₁, popped, same, after⟩ := r.alloc top
      cases popped.symm.trans run
      refine ⟨_, after, ?_⟩
      rw [Stack.pop, top, Stack.outAt, Stack.outAt, slotAddr_of_slot same, List.map_cons]
  | refused _ run ih =>
    obtain ⟨t, r, rfl⟩ := ih
    cases top : t.free with
    | nil =>
      cases (r.alloc_exhausted top).symm.trans run
      exact ⟨t, r, rfl⟩
    | cons i rest =>
      obtain ⟨s₁, popped, -⟩ := r.alloc top
      cases popped.symm.trans run
  | @free s s' m m' live a _ run ih =>
    obtain ⟨t, r, rfl⟩ := ih
    by_cases held : a ∈ t.outAt s
    · obtain ⟨i, out, rfl⟩ := List.mem_map.mp held
      obtain ⟨s₁, m₁, pushed, same, after, -⟩ := r.free out
      cases pushed.symm.trans run
      refine ⟨_, after, ?_⟩
      rw [Stack.push, Stack.outAt, Stack.outAt, slotAddr_of_slot same,
        List.map_erase fun _ _ => slotAddr_inj r.stride_pos]
    · obtain ⟨k, stops⟩ := r.free_stops held
      cases stops.symm.trans run
  | @stopped s s' m m' live a f _ run ih =>
    obtain ⟨t, r, rfl⟩ := ih
    by_cases held : a ∈ t.outAt s
    · obtain ⟨i, out, rfl⟩ := List.mem_map.mp held
      obtain ⟨s₁, m₁, pushed, -⟩ := r.free out
      cases pushed.symm.trans run
    · obtain ⟨k, stops⟩ := r.free_stops held
      cases stops.symm.trans run
      exact ⟨t, r, rfl⟩
  | @reset s s' m m' live _ run ih =>
    obtain ⟨t, r, rfl⟩ := ih
    obtain ⟨s₁, m₁, again, -, after, -⟩ := r.reset s.freeHead s.allocated m
    cases again.symm.trans run
    exact ⟨_, after, rfl⟩
  | write _ held inside ih =>
    obtain ⟨t, r, rfl⟩ := ih
    obtain ⟨i, out, rfl⟩ := List.mem_map.mp held
    exact ⟨t, r.write out inside _, rfl⟩

/-- **Exactly the live slots are taken back.** After every run and for every address: returning it
succeeds if and only if it is live, and what is live is a slot. Everything else stops the call and
leaves slab and memory as they were, a slot because it is free already, all other addresses because
they are no slots. The test whether an address is free holds for the slots that are not live, and
for them only. -/
theorem dealt_returns (dealt : Dealt s m live) (a : Nat) :
    ((∃ after, Slab.free a ⟨s, m⟩ = .ok () after) ↔ a ∈ live) ∧ (a ∈ live → s.HasSlot a) ∧
      (s.HasSlot a → a ∉ live →
        Slab.free a ⟨s, m⟩ = .error (.stop (.doubleFree a)) ⟨s, m⟩) ∧
      (¬s.HasSlot a → Slab.free a ⟨s, m⟩ = .error (.stop (.foreignSlot a)) ⟨s, m⟩) ∧
      (s.isFree m a = true ↔ s.HasSlot a ∧ a ∉ live) := by
  obtain ⟨t, r, rfl⟩ := dealt.refines
  refine ⟨⟨?_, ?_⟩, r.hasSlot_of_mem_outAt, fun slot out => ?_, free_of_not_slot r.stride_pos,
    r.isFree_iff_not_mem⟩
  · rintro ⟨after, run⟩
    by_contra out
    obtain ⟨k, stops⟩ := r.free_stops out
    cases stops.symm.trans run
  · intro held
    obtain ⟨i, out, rfl⟩ := List.mem_map.mp held
    obtain ⟨s', m', pushed, -⟩ := r.free out
    exact ⟨_, pushed⟩
  · exact free_of_free r.stride_pos slot (isFree_iff.mp (r.isFree_iff_not_mem.mpr ⟨slot, out⟩))

theorem dealt_returns_second : ∃ s m after, Dealt s m [4096] ∧
    Slab.free 4096 ⟨s, m⟩ = .ok () after ∧
    Slab.free 4100 ⟨s, m⟩ = .error (.stop (.foreignSlot 4100)) ⟨s, m⟩ ∧
    s.isFree m 4120 = true := by
  have valid : Extent.Valid ⟨4096, 32⟩ := ⟨by decide, by decide⟩
  obtain ⟨head, m, run, sound, -⟩ := @init_spec Unit () Memory.zero ⟨4096, 32⟩ 8 4 valid (by decide)
    (by decide) (by decide) (by decide) (by decide)
  obtain ⟨s, popped, -⟩ := (init_refines valid run).1.alloc (i := 0) rfl
  have dealt : Dealt s m [4096] := .alloc (.init valid run) popped
  obtain ⟨a, next, taken, -⟩ := sound.alloc (show 0 < 4 by decide)
  cases taken.symm.trans popped
  have inner : ¬HasSlot ⟨⟨4096, 32⟩, 4096, 8, 4, 1, next⟩ 4100 := by
    rintro ⟨i, lt, at_i⟩
    dsimp only [slotAddr] at at_i
    omega
  obtain ⟨⟨-, returned⟩, -⟩ := dealt_returns dealt 4096
  obtain ⟨after, run⟩ := returned List.mem_cons_self
  obtain ⟨-, -, -, stopped, -⟩ := dealt_returns dealt 4100
  obtain ⟨-, -, -, -, free⟩ := dealt_returns dealt 4120
  have last : HasSlot ⟨⟨4096, 32⟩, 4096, 8, 4, 1, next⟩ 4120 := ⟨3, show 3 < 4 by decide, rfl⟩
  exact ⟨_, m, after, dealt, run, stopped inner, free.mpr ⟨last, by decide⟩⟩

end LayeredMemory.Slab
