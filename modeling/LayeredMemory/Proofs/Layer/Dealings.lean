import LayeredMemory.Proofs.Layer.Contract

/-!
# Dealings — what a layer has to do with the allocator below

A layer holds leases of an allocator and works in them. What can happen to leases is a `Dealing`:
the allocator hands one out or refuses to, it takes one back, or the layer abandons one because the
allocator takes nothing back. `Dealing.Takes` says what each of them does, and all but the last are
calls of the allocator, run as they are.

`Dealings` is a record of what a layer does from one state to another: dealings, and between them
work of its own, which changes no byte outside the leases that it holds then. So a layer whose work
has a record writes nowhere else, calls the allocator for nothing else, and releases what it holds,
once. Some extents are `busy` meanwhile: they are apart from whatever is released or abandoned.

Under the contract of the allocator a record keeps everything in order (`Holding.InOrder`):

* `ready`, `history`: leases stay separate, what was abandoned stays out, and its bytes stay for
  good.
* `let_go`: what was released or abandoned is apart from all that the layer still holds then.
* `not_abandoned`, `not_released`: allocators that always or never take blocks back.
-/

namespace LayeredMemory

/-- An allocator, memory, and the leases that a layer holds. -/
structure Holding (α : Type) where
  allocator : α
  memory : Memory
  leases : Multiset Lease

/-- What can happen to leases. -/
inductive Dealing where
  | acquired (l : Lease)
  | refused
  | released (l : Lease)
  | abandoned (l : Lease)

namespace Dealing

/-- A lease was acquired. -/
def isAcquired : Dealing → Bool
  | .acquired _ => true
  | _ => false

/-- A lease was released. -/
def isReleased : Dealing → Bool
  | .released _ => true
  | _ => false

/-- A lease was abandoned. -/
def isAbandoned : Dealing → Bool
  | .abandoned _ => true
  | _ => false

/-- The lease that is held no more. -/
def lets : Dealing → Option Lease
  | .released l | .abandoned l => some l
  | .acquired _ | .refused => none

/-- The lease that is left behind, if one is. -/
def left : Dealing → Multiset Lease
  | .abandoned l => {l}
  | .acquired _ | .refused | .released _ => 0

theorem card_sum_left (es : List Dealing) :
    (es.map left).sum.card = es.countP isAbandoned := by
  induction es with
  | nil => rfl
  | cons x es ih =>
    rw [List.map_cons, List.sum_cons, Multiset.card_add, ih, List.countP_cons, Nat.add_comm]
    cases x <;> rfl

/-- What a dealing does, if blocks of one layout are acquired. -/
inductive Takes {α : Type} [Allocator α] (layout : Layout) (busy : Extent → Prop) :
    Dealing → Holding α → Holding α → Prop
  | acquire {a a' : α} {m m' : Memory} {L : Multiset Lease} {b : Block}
      (run : Allocator.acquire layout ⟨a, m⟩ = .ok b ⟨a', m'⟩) :
      Takes layout busy (.acquired ⟨b, layout⟩) ⟨a, m, L⟩ ⟨a', m', ⟨b, layout⟩ ::ₘ L⟩
  | refuse {a a' : α} {m m' : Memory} {L : Multiset Lease} {f : Fault}
      (run : Allocator.acquire layout ⟨a, m⟩ = .error (.fault f) ⟨a', m'⟩) :
      Takes layout busy .refused ⟨a, m, L⟩ ⟨a', m', L⟩
  | release {a a' : α} {m m' : Memory} {L : Multiset Lease} {b : Block}
      (can : Allocator.canRelease a = true) (vacant : ∀ f, busy f → f.Apart b.extent)
      (run : Allocator.release b.ptr layout ⟨a, m⟩ = .ok () ⟨a', m'⟩) :
      Takes layout busy (.released ⟨b, layout⟩) ⟨a, m, ⟨b, layout⟩ ::ₘ L⟩ ⟨a', m', L⟩
  | abandon {a : α} {m : Memory} {L : Multiset Lease} {b : Block}
      (can : Allocator.canRelease a = false) (vacant : ∀ f, busy f → f.Apart b.extent) :
      Takes layout busy (.abandoned ⟨b, layout⟩) ⟨a, m, ⟨b, layout⟩ ::ₘ L⟩ ⟨a, m, L⟩

end Dealing

/-- What a layer does from one state to another: work in its leases, and dealings. -/
inductive Dealings {α : Type} [Allocator α] (layout : Layout) (busy : Extent → Prop) :
    Holding α → List Dealing → Holding α → Prop
  | nil (s : Holding α) : Dealings layout busy s [] s
  | work {a : α} {m m' : Memory} {L : Multiset Lease} {es : List Dealing} {s : Holding α}
      (changed : m.ChangedIn m' (leased L)) (rest : Dealings layout busy ⟨a, m', L⟩ es s) :
      Dealings layout busy ⟨a, m, L⟩ es s
  | cons {x : Dealing} {es : List Dealing} {s t s' : Holding α} (step : x.Takes layout busy s t)
      (rest : Dealings layout busy t es s') : Dealings layout busy s (x :: es) s'

/-- The allocator is in order with the leases that are held and those in `gone` out, and all of them
are separate. -/
structure Holding.InOrder {α : Type} [Allocator α] (K : AllocatorContract α) (s : Holding α)
    (gone : Multiset Lease) : Prop where
  ready : K.Ready s.allocator s.memory (gone + s.leases)
  separate : Separate (gone + s.leases)

variable {α : Type} [Allocator α] {layout : Layout} {busy busy' : Extent → Prop}
  {s s' s'' : Holding α} {es es' : List Dealing} {x : Dealing} {l : Lease}

/-- Before anything is held. -/
theorem Holding.InOrder.start {K : AllocatorContract α} (ready : K.Ready s.allocator s.memory 0)
    (none : s.leases = 0) : s.InOrder K 0 := by
  constructor
  · rwa [none, add_zero]
  · rw [none, add_zero]
    exact .zero

namespace Dealing

theorem Takes.mono (step : x.Takes layout busy s s') (sub : ∀ f, busy' f → busy f) :
    x.Takes layout busy' s s' := by
  cases step with
  | acquire run => exact .acquire run
  | refuse run => exact .refuse run
  | release can vacant run => exact .release can (fun f hf => vacant f (sub f hf)) run
  | abandon can vacant => exact .abandon can fun f hf => vacant f (sub f hf)

/-- What is busy is apart from whatever is let go. -/
theorem Takes.apart (step : x.Takes layout busy s s') (lets : x.lets = some l) {f : Extent}
    (hf : busy f) : f.Apart l.extent := by
  cases step with
  | acquire | refuse => cases lets
  | release _ vacant | abandon _ vacant =>
    cases lets
    exact vacant f hf

/-- What is let go was held. -/
theorem Takes.leases_eq (step : x.Takes layout busy s s') (lets : x.lets = some l) :
    s.leases = l ::ₘ s'.leases := by
  cases step with
  | acquire | refuse => cases lets
  | release | abandon =>
    cases lets
    rfl

/-- **A dealing under the contract**: the allocator stays in order, and leases stay separate. -/
theorem Takes.spec {K : AllocatorContract α} {gone : Multiset Lease}
    (step : x.Takes layout busy s s') (pos : 0 < layout.size)
    (ready : K.Ready s.allocator s.memory (gone + s.leases)) :
    K.Ready s'.allocator s'.memory (x.left + gone + s'.leases) ∧
      s.memory.Keeps s'.memory (leased gone) ∧
      (Separate (gone + s.leases) → Separate (x.left + gone + s'.leases)) := by
  have others {L : Multiset Lease} : leased gone ⊆ leased (gone + L) :=
    leased_subset (Multiset.le_add_right gone L)
  cases step with
  | @acquire _ _ _ _ L b run =>
    obtain ⟨fits, kept, after⟩ := (K.acquire layout ready pos).answer run
    have moved : 0 + gone + ⟨b, layout⟩ ::ₘ L = ⟨b, layout⟩ ::ₘ (gone + L) := by
      rw [zero_add, Multiset.add_cons]
    exact ⟨moved ▸ after, kept.mono others, fun separate => moved ▸ separate.cons fits.apart⟩
  | @refuse _ _ _ _ L _ run =>
    obtain ⟨kept, after⟩ := (K.acquire layout ready pos).refusal run
    have moved : 0 + gone + L = gone + L := by rw [zero_add]
    exact ⟨moved ▸ after, kept.mono others, fun separate => moved ▸ separate⟩
  | @release _ _ _ _ L b can _ run =>
    dsimp only at ready
    rw [Multiset.add_cons] at ready
    obtain ⟨kept, after⟩ := (K.release _ ready can).answer run
    have moved : 0 + gone + L = gone + L := by rw [zero_add]
    refine ⟨moved ▸ after, kept.mono others, fun separate => ?_⟩
    dsimp only at separate
    rw [Multiset.add_cons] at separate
    exact moved ▸ separate.of_cons
  | @abandon _ _ L b =>
    have moved : gone + ⟨b, layout⟩ ::ₘ L = {⟨b, layout⟩} + gone + L := by
      rw [Multiset.add_cons, Multiset.singleton_add, Multiset.cons_add]
    exact ⟨moved ▸ ready, .refl _ _, fun separate => moved ▸ separate⟩

end Dealing

namespace Dealings

theorem trans (d : Dealings layout busy s es s') (d' : Dealings layout busy s' es' s'') :
    Dealings layout busy s (es ++ es') s'' := by
  induction d with
  | nil => exact d'
  | work changed _ ih => exact .work changed (ih d')
  | cons step _ ih => exact .cons step (ih d')

theorem mono (d : Dealings layout busy s es s') (sub : ∀ f, busy' f → busy f) :
    Dealings layout busy' s es s' := by
  induction d with
  | nil => exact .nil _
  | work changed _ ih => exact .work changed ih
  | cons step _ ih => exact .cons (step.mono sub) ih

/-- Work in the leases alone. -/
theorem of_changedIn {a : α} {m m' : Memory} {L : Multiset Lease}
    (changed : m.ChangedIn m' (leased L)) : Dealings layout busy ⟨a, m, L⟩ [] ⟨a, m', L⟩ :=
  .work changed (.nil _)

/-- A single dealing. -/
theorem of_takes (step : x.Takes layout busy s s') : Dealings layout busy s [x] s' :=
  .cons step (.nil _)

/-- Without dealings the allocator and the leases are as they were. -/
theorem of_nil (d : Dealings layout busy s [] s') :
    s'.allocator = s.allocator ∧ s'.leases = s.leases := by
  generalize none : ([] : List Dealing) = es at d
  induction d with
  | nil => exact ⟨rfl, rfl⟩
  | work _ _ ih => exact ih none
  | cons => cases none

/-- A record goes through the states before and after each of its dealings. -/
theorem split (d : Dealings layout busy s (es ++ x :: es') s') :
    ∃ t t', Dealings layout busy s es t ∧ x.Takes layout busy t t' ∧
      Dealings layout busy t' es' s' := by
  generalize whole : es ++ x :: es' = all at d
  induction d generalizing es with
  | nil => cases (List.append_eq_nil_iff.mp whole).2
  | work changed _ ih =>
    obtain ⟨t, t', before, step, after⟩ := ih whole
    exact ⟨t, t', .work changed before, step, after⟩
  | cons step rest ih =>
    rcases List.append_eq_cons_iff.mp whole with ⟨rfl, same⟩ | ⟨fs, rfl, tail⟩
    · cases same
      exact ⟨_, _, .nil _, step, rest⟩
    · obtain ⟨t, t', before, step', after⟩ := ih tail.symm
      exact ⟨t, t', .cons step before, step', after⟩

/-- What is busy is apart from whatever is let go. -/
theorem apart_of_lets {f : Extent} (d : Dealings layout busy s es s') (mem : x ∈ es)
    (lets : x.lets = some l) (hf : busy f) : f.Apart l.extent := by
  obtain ⟨before, after, rfl⟩ := List.append_of_mem mem
  obtain ⟨t, t', -, step, -⟩ := d.split
  exact step.apart lets hf

section Contract

variable {K : AllocatorContract α} {gone : Multiset Lease}

/-- **Under the contract** the allocator stays in order. What was abandoned stays out. -/
theorem ready (d : Dealings layout busy s es s') (pos : 0 < layout.size)
    (ready : K.Ready s.allocator s.memory (gone + s.leases)) :
    K.Ready s'.allocator s'.memory ((es.map Dealing.left).sum + gone + s'.leases) := by
  induction d generalizing gone with
  | nil s => rwa [List.map_nil, List.sum_nil, zero_add]
  | @work a m m' L es s changed _ ih =>
    exact ih (K.frame ready (changed.mono (leased_subset (Multiset.le_add_left L gone))))
  | @cons x es s t s' step _ ih =>
    rw [List.map_cons, List.sum_cons, add_comm x.left, add_assoc (es.map Dealing.left).sum]
    exact ih (step.spec pos ready).1

/-- **Under the contract** leases stay separate, also from what was abandoned, whose bytes stay for
good. -/
theorem history (d : Dealings layout busy s es s') (pos : 0 < layout.size)
    (order : s.InOrder K gone) :
    s'.InOrder K ((es.map Dealing.left).sum + gone) ∧ s.memory.Keeps s'.memory (leased gone) := by
  induction d generalizing gone with
  | nil s => exact ⟨by rwa [List.map_nil, List.sum_nil, zero_add], .refl _ _⟩
  | @work a m m' L es s changed _ ih =>
    obtain ⟨ready, separate⟩ := order
    have inside : m.ChangedIn m' (leased (gone + L)) :=
      changed.mono (leased_subset (Multiset.le_add_left L gone))
    obtain ⟨order', kept⟩ := ih ⟨K.frame ready inside, separate⟩
    refine ⟨order', Memory.Keeps.trans ?_ kept⟩
    -- Work is in leases that are held, and those are apart from the ones that are gone.
    rintro f hf y hy
    obtain ⟨g, hg, rfl⟩ := Multiset.mem_map.mp hf
    refine changed y fun e he => ?_
    obtain ⟨k, hk, rfl⟩ := Multiset.mem_map.mp he
    exact (separate.apart hg hk).symm.not_mem hy
  | @cons x es s t s' step _ ih =>
    obtain ⟨ready', kept, separate⟩ := step.spec pos order.ready
    obtain ⟨order', kept'⟩ := ih ⟨ready', separate order.separate⟩
    refine ⟨?_, kept.trans (kept'.mono ?_)⟩
    · rw [List.map_cons, List.sum_cons, add_comm x.left, add_assoc]
      exact order'
    · exact leased_subset (Multiset.le_add_left gone x.left)

/-- An allocator that takes blocks back is never left with one. -/
theorem not_abandoned (d : Dealings layout busy s es s') (pos : 0 < layout.size)
    (ready : K.Ready s.allocator s.memory (gone + s.leases)) (always : K.TakesBack) :
    es.countP Dealing.isAbandoned = 0 := by
  refine List.countP_eq_zero.mpr fun x mem hit => ?_
  obtain ⟨before, after, rfl⟩ := List.append_of_mem mem
  obtain ⟨t, t', first, step, -⟩ := d.split
  have there := always _ _ _ (first.ready pos ready)
  cases step with
  | acquire | refuse | release => cases hit
  | abandon can =>
    rw [there] at can
    cases can

/-- An allocator that takes nothing back is not asked to. -/
theorem not_released (d : Dealings layout busy s es s') (pos : 0 < layout.size)
    (ready : K.Ready s.allocator s.memory (gone + s.leases)) (never : K.TakesNothing) :
    es.countP Dealing.isReleased = 0 := by
  refine List.countP_eq_zero.mpr fun x mem hit => ?_
  obtain ⟨before, after, rfl⟩ := List.append_of_mem mem
  obtain ⟨t, t', first, step, -⟩ := d.split
  have there := never _ _ _ (first.ready pos ready)
  cases step with
  | acquire | refuse | abandon => cases hit
  | release can =>
    rw [there] at can
    cases can

/-- **What is let go** is apart from every lease that is held then, and so is none of the layer's
business any more, unless the allocator hands it out again. What was abandoned it does not. -/
theorem let_go (d : Dealings layout busy s (es ++ x :: es') s') (pos : 0 < layout.size)
    (order : s.InOrder K gone) (lets : x.lets = some l) :
    ∃ t, Dealings layout busy s (es ++ [x]) t ∧ Dealings layout busy t es' s' ∧
      (∀ k ∈ t.leases, k.extent.Apart l.extent) ∧
      (x = .abandoned l → t.memory.Keeps s'.memory {l.extent}) := by
  obtain ⟨u, t, before, step, after⟩ := d.split
  obtain ⟨⟨ready, separate⟩, -⟩ := before.history pos order
  obtain ⟨ready', -, separate'⟩ := step.spec pos ready
  refine ⟨t, before.trans (.of_takes step), after, fun k hk => ?_, ?_⟩
  · rw [step.leases_eq lets, Multiset.add_cons] at separate
    exact separate l _ rfl k (Multiset.mem_add.mpr (.inr hk))
  · rintro rfl
    obtain ⟨-, kept⟩ := after.history pos ⟨ready', separate' separate⟩
    exact kept.mono (by simp [leased, Dealing.left])

end Contract

end Dealings

end LayeredMemory
