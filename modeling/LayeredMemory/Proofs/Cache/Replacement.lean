import LayeredMemory.Proofs.Cache.Session

/-!
# Replacement — which slab serves, and which one leaves

A run of a cache is `Told` as a list of moves, one for each request, each of which obeys the policy
on the three sequences of slab numbers and says truly what the request did to the slabs
(`Session.Does`). Every run can be told, and what the roster holds after it are the three sequences.

The order of the empty slabs is that in which they were emptied last, however often each of them was
used again, left, or came back under the same number (`Told.order`). So the last of them is the one
emptied most recently, which `alloc` takes from, and the first the one that leaves.
-/

namespace LayeredMemory.Cache

open Session

variable {α : Type} [Allocator α]

/-- The runs of a cache, told move by move, with the sequences that they lead to. -/
inductive Told (K : AllocatorContract α) : List Move → Sequences → Session α → Prop
  | start {config : CacheConfig} {allocator : α} {cache : Cache α} {memory : Memory}
      (made : Cache.new config allocator = .ok cache) (ready : K.Ready allocator memory 0) :
      Told K [] (fun _ => []) ⟨cache, memory, []⟩
  | serve {ms : List Move} {q q' : Sequences} {σ σ' : Session α} {r : Request} {mv : Move}
      (before : Told K ms q σ) (legal : r.Legal σ) (served : σ.serve r = .ok σ')
      (does : σ.Does r mv σ') (obeys : mv.Obeys σ.cache.config.highWater q q')
      (left : σ'.cache.roster.Holds q') : Told K (ms ++ [mv]) q' σ'
  | write {ms : List Move} {q : Sequences} {σ : Session α} {a : Nat} {b : UInt8}
      (before : Told K ms q σ) (usable : σ.Usable a) : Told K ms q (σ.write a b)

variable {K : AllocatorContract α} {ms : List Move} {q : Sequences} {σ : Session α} {n : Nat}

namespace Told

/-- What is told is a run, with one request for each move. -/
theorem reachable (told : Told K ms q σ) : Reachable K ms.length σ := by
  induction told with
  | start made ready => exact .start made ready
  | serve _ legal served _ _ _ ih =>
    rw [List.length_append]
    exact ih.serve legal served
  | write _ usable ih => exact ih.write usable

/-- The roster holds the sequences. -/
theorem holds (told : Told K ms q σ) : σ.cache.roster.Holds q := by
  induction told with
  | start made ready =>
    obtain ⟨-, -, -, -, -, roster⟩ := new_spec made
    exact roster ▸ .new
  | serve _ _ _ _ _ left _ => exact left
  | write _ _ ih => exact ih

/-- The empty slabs stand in the order in which they were emptied last. -/
theorem order (told : Told K ms q σ) : (q .empty).Sublist (ms.flatMap Move.emptied).dedup := by
  induction told with
  | start => exact .refl _
  | serve _ _ _ _ obeys _ ih =>
    rw [List.flatMap_append, List.flatMap_singleton]
    exact obeys.sublist_emptied ih
  | write _ _ ih => exact ih

end Told

/-- **Every run can be told.** -/
theorem Reachable.exists_told (reachable : Reachable K n σ) :
    ∃ ms q, ms.length = n ∧ Told K ms q σ := by
  induction reachable with
  | start made ready => exact ⟨[], _, rfl, .start made ready⟩
  | serve before legal served ih =>
    obtain ⟨ms, q, rfl, told⟩ := ih
    obtain ⟨σ', run, -, -, mv, q', does, obeys, left⟩ :=
      serve_moves before.sound.1 legal told.holds
    rw [served] at run
    cases run
    exact ⟨ms ++ [mv], q', List.length_append, told.serve legal served does obeys left⟩
  | write _ usable ih =>
    obtain ⟨ms, q, length, told⟩ := ih
    exact ⟨ms, q, length, told.write usable⟩

/-- **The replacement policy.** Every run of a cache is told by moves of the policy, one for each
request, and so is every legal request after it. The roster holds the three sequences, each slab on
the one of its occupancy, and the empty ones in the order in which they were emptied last. When a
slab is emptied, it joins them at the back, and the first of them leave until no more are left than
may be; if any may be, the slab that was just emptied stays. Shrinking lets all empty slabs go in
order, and leaves the other sequences, the objects and their number alone. -/
theorem reachable_replaces (reachable : Reachable K n σ) :
    ∃ ms q, ms.length = n ∧ Told K ms q σ ∧ σ.cache.roster.Holds q ∧
      (∀ o id, id ∈ q o ↔ σ.occupancyOf id = some o) ∧
      (q .empty).Sublist (ms.flatMap Move.emptied).dedup ∧
      ∀ r : Request, r.Legal σ → ∃ σ' mv q', σ.serve r = .ok σ' ∧ σ.Does r mv σ' ∧
        mv.Obeys σ.cache.config.highWater q q' ∧ σ'.cache.roster.Holds q' ∧
        (∀ id gone, mv = .gave id .empty gone → gone ++ q' .empty = q .empty ++ [id] ∧
          (q' .empty).length = min ((q .empty).length + 1) σ.cache.config.highWater ∧
          (1 ≤ σ.cache.config.highWater → id ∉ gone ∧ (q' .empty).getLast? = some id)) ∧
        (r = .shrink → mv = .shrank (q .empty) ∧ q' = Function.update q .empty [] ∧
          σ'.live = σ.live ∧ σ'.cache.live = σ.cache.live ∧
          σ.memory.Keeps σ'.memory (σ.cache.cells σ.live)) := by
  obtain ⟨ms, q, length, told⟩ := reachable.exists_told
  have holds := told.holds
  have sound := reachable.sound.1
  refine ⟨ms, q, length, told, holds, fun o id => ?_, told.order, fun r legal => ?_⟩
  · rw [holds.mem_iff, sound.serves.booked.place]
    rfl
  · obtain ⟨σ', run, -, -, mv, q', does, obeys, left⟩ := serve_moves sound legal holds
    refine ⟨σ', mv, q', run, does, obeys, left, ?_, ?_⟩
    · rintro id gone rfl
      exact obeys.of_emptied
    · rintro rfl
      cases does with
      | gave target => cases target
      | shrank live count keeps others dealt lets =>
        cases obeys
        exact ⟨congrArg Move.shrank Sequences.spare_zero, Sequences.trim_zero, live, count, keeps⟩

/-- Two slabs were emptied, the fourth before the second. They leave in this order when the cache
shrinks, and the two that serve objects stay where they are. -/
theorem reachable_replaces_two : ∃ (σ σ' : Session (Heap NoGrowth)) (q q' : Sequences),
    σ.live = [4216, 4136] ∧ σ.cache.roster.Holds q ∧ q .empty = [3, 1] ∧
    σ.serve .shrink = .ok σ' ∧ σ.Does .shrink (.shrank [3, 1]) σ' ∧ σ'.cache.roster.Holds q' ∧
    q' .available = q .available ∧ q' .empty = [] ∧ σ'.live = [4216, 4136] ∧
    σ'.cache.slabCount = 2 := by
  obtain ⟨D, m₀, σ, reachable, live, ends, -, leave⟩ := exists_reachable_two
  obtain ⟨-, q, -, -, holds, -, -, next⟩ := reachable_replaces reachable
  obtain ⟨σ', mv, q', run, does, -, left, -, shrinks⟩ := next .shrink trivial
  obtain ⟨rfl, rfl, same, -⟩ := shrinks rfl
  have empty : q .empty = [3, 1] := by
    obtain ⟨head, last, length⟩ := Ends.mk.inj ((holds.ends .empty).symm.trans ends)
    obtain ⟨i, j, two⟩ := List.length_eq_two.mp length
    rw [two] at head last ⊢
    cases head
    cases last
    rfl
  rw [run] at leave
  rw [empty] at does
  exact ⟨σ, σ', q, _, live, holds, empty, run, does, left, Function.update_of_ne (by decide) ..,
    Function.update_self .., same.trans live, Option.some.inj leave⟩

end LayeredMemory.Cache
