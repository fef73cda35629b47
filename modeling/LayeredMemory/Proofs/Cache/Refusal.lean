import LayeredMemory.Proofs.Cache.Order

/-!
# Refusal — why an address is no object

Before a cache takes an object back it may check the address: it searches for the slab, asks it for
the slot and its free list, and compares the owner header. Each check has its reason to refuse, and
the reason is true of the address (`Unfit`): no object that is out is refused, and no other address
is accepted.

* `Unfit.not_mem`: what a reason is true of is no object that is out.
* `InOrder.refusal?_cases`: an address is an object that is out, or there is a reason against it.
-/

namespace LayeredMemory.Cache

variable {α : Type} {c : Cache α} {m : Memory} {p : Nat} {objs : List Nat} {reason : String}

/-- Why an address is no object that is out. -/
inductive Unfit (c : Cache α) (m : Memory) (p : Nat) : String → Prop
  | misaligned (off : ¬(8 ∣ p ∧ header ≤ p)) : Unfit c m p "misaligned object pointer"
  | foreign (whole : 8 ∣ p ∧ header ≤ p)
      (outside : ∀ id e, c.lookup? id = some e → p - header ∉ e.slab.extent) :
      Unfit c m p "not owned by this cache"
  | between {id : Nat} {e : CacheEntry} (whole : 8 ∣ p ∧ header ≤ p) (he : c.lookup? id = some e)
      (inside : p - header ∈ e.slab.extent) (off : ¬e.slab.HasSlot (p - header)) :
      Unfit c m p "not an object boundary"
  | free {id : Nat} {e : CacheEntry} (whole : 8 ∣ p ∧ header ≤ p) (he : c.lookup? id = some e)
      (slot : e.slab.HasSlot (p - header)) (free : p - header ∈ e.slab.freeChain m) :
      Unfit c m p "object is not allocated"

/-- **A reason excludes** that the address is an object that is out. -/
theorem Unfit.not_mem (h : c.Unfit m p reason) (o : c.InOrder m objs) : p ∉ objs := by
  intro hp
  obtain ⟨large, j, d, hd, taken⟩ := o.exists_slot hp
  have inside' : p - header ∈ d.slab.extent := (o.housed.sound hd).shaped.slot_mem taken.1
  cases h with
  | misaligned off => exact off ⟨o.dvd_object hp, large⟩
  | foreign whole outside => exact outside j d hd inside'
  | between whole he inside off =>
    obtain rfl := o.housed.eq_of_mem he hd inside inside'
    obtain rfl := Option.some.inj (he.symm.trans hd)
    exact off taken.1
  | free whole he slot free => exact ((o.mem_iff_taken he slot).mp hp).2 free

/-- **The checks are exact.** The owner header is never the reason: clients do not write there. -/
theorem InOrder.refusal?_cases (o : c.InOrder m objs) (p : Nat) :
    (c.refusal? m p = none ∧ p ∈ objs) ∨
      ∃ reason, c.refusal? m p = some reason ∧ c.Unfit m p reason := by
  have whole : ¬(Align.isMultiple p Word.bytes = false ∨ p < header) ↔ 8 ∣ p ∧ header ≤ p := by
    rw [not_or, Bool.not_eq_false, Align.isMultiple_iff bytes_isPowerOfTwo, Nat.not_lt]
    rfl
  unfold refusal?
  by_cases off : Align.isMultiple p Word.bytes = false ∨ p < header
  · rw [if_pos off]
    exact .inr ⟨_, rfl, .misaligned fun ok => whole.mpr ok off⟩
  rw [if_neg off]
  have whole := whole.mp off
  cases owner : c.ownerOf? (p - header) with
  | none =>
    refine .inr ⟨_, rfl, .foreign whole fun id e he inside => ?_⟩
    rw [o.housed.ownerOf?_eq he inside] at owner
    cases owner
  | some t =>
    obtain ⟨id, e⟩ := t
    obtain ⟨he, inside⟩ := Housed.ownerOf?_some owner
    have owns := Slab.owns_iff (a := p - header) (o.housed.sound he).stride_pos
    dsimp only
    by_cases slot : e.slab.HasSlot (p - header)
    case neg =>
      rw [if_pos (Bool.eq_false_iff.mpr (owns.not.mpr slot))]
      exact .inr ⟨_, rfl, .between whole he inside slot⟩
    rw [if_neg (by rw [owns.mpr slot]; nofun)]
    by_cases free : p - header ∈ e.slab.freeChain m
    · rw [if_pos (Slab.isFree_iff.mpr free)]
      exact .inr ⟨_, rfl, .free whole he slot free⟩
    have taken : e.slab.Taken m (p - header) := ⟨slot, free⟩
    rw [if_neg (Slab.isFree_iff.not.mpr free), if_neg (not_not.mpr (o.housed.owner he taken))]
    exact .inl ⟨rfl, (o.mem_iff_taken he slot).mpr taken⟩

/-- **What can be taken back** are the objects that are out. -/
theorem InOrder.refusal?_eq_none_iff (o : c.InOrder m objs) : c.refusal? m p = none ↔ p ∈ objs := by
  rcases o.refusal?_cases p with ⟨accepted, hp⟩ | ⟨reason, refused, unfit⟩
  · exact ⟨fun _ => hp, fun _ => accepted⟩
  · rw [refused]
    exact ⟨nofun, fun hp => (unfit.not_mem o hp).elim⟩

end LayeredMemory.Cache
