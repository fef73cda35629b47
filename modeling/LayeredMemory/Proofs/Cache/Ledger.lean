import LayeredMemory.Proofs.Cache.Watched

/-!
# The ledger of a cache

A cache counts the blocks that it acquired, released and abandoned, and the objects that it handed
out and took back. The calls that a watched allocator noted are the account to compare with.

* `Session.Ledger`: the counters agree with the calls, and everything is accounted for.
* `Observed.ledger`: so it is after every run, from the record of the run.
* `Observed.close_spec`: closing a cache over an allocator that takes blocks back releases what the
  cache still holds, and nothing is outstanding then.
* `reachable_balanced`: all of this, for allocators that take blocks back and for those that do not.
-/

namespace LayeredMemory.Cache

variable {α : Type} [Allocator α] {K : AllocatorContract α} {n : Nat} {w : Session (Watched α)}

/-- The calls of the allocator and the counters of the cache agree, and what was acquired or handed
out is accounted for. The leases in `gone` were abandoned. -/
structure Session.Ledger (w : Session (Watched α)) (gone : Multiset Lease) : Prop where
  outstanding : Outstanding w.cache.allocator.calls (gone + w.cache.leases)
  layouts : ∀ call ∈ w.cache.allocator.calls, call.layout = w.cache.extentLayout
  acquired : w.cache.allocator.calls.countP Call.isAcquired = w.cache.counters.acquired
  released : w.cache.allocator.calls.countP Call.isRelease = w.cache.counters.released
  abandoned : gone.card = w.cache.counters.abandoned
  slabs : w.cache.counters.acquired =
    w.cache.counters.released + w.cache.counters.abandoned + w.cache.slabCount
  objects : w.cache.counters.allocs = w.cache.counters.frees + w.cache.live
  live : w.cache.live = w.live.length

/-- **The ledger of a run.** -/
theorem Observed.ledger (observed : Observed K n w) :
    w.Sound (Watched.contract K) ∧ (∃ gone, w.Ledger gone) ∧
      (K.TakesBack → w.cache.counters.abandoned = 0) ∧
      (K.TakesNothing → w.cache.counters.released = 0) := by
  obtain ⟨config, allocator, cache, memory, made, ready, leads⟩ := observed
  obtain ⟨serves, empties, counters⟩ := new_serves (K := Watched.contract K) made ⟨ready, .nil⟩
  obtain ⟨same, none⟩ := new_leases made
  obtain ⟨sound, -, es, dealt⟩ := leads.sound ⟨serves, empties ▸ Nat.zero_le _⟩
  have dealings := dealt.dealings
  have pos : 0 < cache.extentLayout.size := serves.booked.configured.layout_pos
  have start : (Watched.contract K).Ready cache.allocator memory (0 + cache.leases) := by
    rw [none, same]
    exact ⟨ready, .nil⟩
  have fresh : cache.allocator.calls = [] := by rw [same]
  obtain ⟨-, outstanding⟩ := dealings.ready pos start
  have layouts := dealings.calls_layout (by simp [fresh])
  have acquired := dealings.countP_calls (Dealing.isAcquired_call? _)
  have released := dealings.countP_calls (Dealing.isReleased_call? _)
  have tally : Tally {} es w.cache.counters := counters ▸ dealt.tally
  have booked := sound.serves.booked
  rw [add_zero] at outstanding
  refine ⟨sound, ⟨_, outstanding, dealt.layout.symm ▸ layouts, ?_, ?_, ?_, ?_, booked.allocs,
    sound.serves.objects.length.symm⟩, fun always => ?_, fun never => ?_⟩
  · rw [tally.acquired, acquired, fresh]
    rfl
  · rw [tally.released, released, fresh]
    rfl
  · rw [tally.abandoned, Dealing.card_sum_left, Nat.zero_add]
  · rw [booked.acquired, booked.slabCount_eq]
  · rw [tally.abandoned, Nat.zero_add]
    exact dealings.not_abandoned pos start fun _ _ _ ready => always _ _ _ ready.1
  · rw [tally.released, Nat.zero_add]
    exact dealings.not_released pos start fun _ _ _ ready => never _ _ _ ready.1

/-- **The end of a watched cache** whose allocator takes blocks back: it releases each lease that is
held. Nothing is outstanding then, and as many blocks were released as were ever acquired. -/
theorem Observed.close_spec (observed : Observed K n w) (always : K.TakesBack) :
    ∃ c m, ∃ ls : List Lease, close ⟨w.cache, w.memory⟩ = .ok () ⟨c, m⟩ ∧ ls = w.cache.leases ∧
      c.allocator.calls = (ls.map fun l => .release l.block.ptr l.layout).reverse ++
        w.cache.allocator.calls ∧
      Outstanding c.allocator.calls 0 ∧
      c.allocator.calls.countP Call.isRelease = w.cache.counters.acquired := by
  obtain ⟨sound, ⟨gone, ledger⟩, -⟩ := observed.ledger
  have always' : (Watched.contract K).TakesBack := fun _ _ _ ready => always _ _ _ ready.1
  have closing := Cache.close_spec sound.serves always'
  rcases closing.cases with ⟨_, ⟨_, m⟩, run, closed⟩ | ⟨_, _, -, no⟩
  · obtain ⟨x, ls, rfl, same, ⟨-, outstanding⟩, dealings⟩ := closed
    have calls : x.calls = (ls.map fun l => .release l.block.ptr l.layout).reverse ++
        w.cache.allocator.calls := by
      rw [dealings.calls_eq, List.filterMap_map]
      exact congrArg (·.reverse ++ w.cache.allocator.calls) (congrFun List.filterMap_eq_map ls)
    have none : (ls.map fun l => Call.release l.block.ptr l.layout).countP Call.isAcquired = 0 := by
      simp [List.countP_eq_zero, Call.isAcquired]
    have count := outstanding.count
    rw [Multiset.card_zero, Nat.add_zero] at count
    refine ⟨_, m, ls, run, same, calls, outstanding, ?_⟩
    rw [← ledger.acquired, ← count, calls, List.countP_append, List.countP_reverse, none,
      Nat.zero_add]
  · exact no.elim

/-- **The ledger of a cache balances.** Every run over an allocator that always takes blocks back,
or never, is the run over the allocator watched, whose calls tell what happened. After every run the
calls handed out and took back as many blocks as the cache counts, all of the cache's layout, and
every block that was released was out. Out are the leases that the cache holds and those that it
abandoned; what was acquired was released or abandoned, or there is a slab in it.

* An allocator that takes blocks back is never left with one, and when the cache is closed every
  block that was ever acquired has been released once.
* One that takes nothing back is never asked to, not when the cache is closed either.
* Whatever a request releases or abandons has none of the objects in it that are still out. -/
theorem reachable_balanced {can : Bool}
    (fixed : ∀ a m L, K.Ready a m L → Allocator.canRelease a = can) :
    (∀ n σ, Reachable K n σ → ∃ w, Observed K n w ∧ w.unwatched = σ ∧
        close ⟨σ.cache, σ.memory⟩ = Action.through unwatched (close ⟨w.cache, w.memory⟩)) ∧
      ∀ n w, Observed K n w →
        Reachable K n w.unwatched ∧
        (∃ gone, w.Ledger gone ∧ (can = true → gone = 0)) ∧
        (n < Word.bound →
          ∀ k ∈ [w.cache.counters.allocs, w.cache.counters.frees, w.cache.counters.acquired,
              w.cache.counters.released, w.cache.counters.abandoned], k < Word.bound) ∧
        (can = true → w.cache.counters.abandoned = 0 ∧
          ∃ c m, ∃ ls : List Lease, close ⟨w.cache, w.memory⟩ = .ok () ⟨c, m⟩ ∧
            ls = w.cache.leases ∧
            c.allocator.calls = (ls.map fun l => .release l.block.ptr l.layout).reverse ++
              w.cache.allocator.calls ∧
            Outstanding c.allocator.calls 0 ∧
            c.allocator.calls.countP Call.isRelease = w.cache.counters.acquired) ∧
        (can = false → w.cache.counters.released = 0 ∧
          (∀ call ∈ w.cache.allocator.calls, call.isRelease = false) ∧
          close ⟨w.cache, w.memory⟩ = .ok () ⟨w.cache, w.memory⟩) ∧
        ∀ r : Request, r.Legal w → ∃ w' es, w.serve r = .ok w' ∧
          Dealings w.cache.extentLayout (fun _ => False) w.holding es w'.holding ∧
          w'.cache.allocator.calls =
            (es.filterMap (Dealing.call? w.cache.extentLayout)).reverse ++
              w.cache.allocator.calls ∧
          ∀ x ∈ es, ∀ l, x.lets = some l → ∀ p ∈ w.live, p ∈ w'.live →
            (w.cache.room p).Apart l.extent := by
  refine ⟨fun n σ reachable => ?_, fun n w observed => ?_⟩
  · obtain ⟨w, observed, rfl⟩ := reachable.exists_observed
    exact ⟨w, observed, rfl, close_shadows w.cache w.memory⟩
  have reachable := observed.reachable
  obtain ⟨-, allocs, acquired⟩ := reachable.sound
  obtain ⟨sound, ⟨gone, ledger⟩, back, nothing⟩ := observed.ledger
  refine ⟨reachable, ⟨gone, ledger, fun takes => ?_⟩, fun few k hk => ?_, fun takes => ?_,
    fun never => ?_, fun r legal => ?_⟩
  · have always : K.TakesBack := fun a m L ready => (fixed a m L ready).trans takes
    exact Multiset.card_eq_zero.mp (ledger.abandoned.trans (back always))
  · have := ledger.slabs
    have := ledger.objects
    change w.cache.counters.allocs ≤ n at allocs
    change w.cache.counters.acquired ≤ n at acquired
    simp only [List.mem_cons, List.not_mem_nil, or_false] at hk
    omega
  · have always : K.TakesBack := fun a m L ready => (fixed a m L ready).trans takes
    exact ⟨back always, observed.close_spec always⟩
  · have none : K.TakesNothing := fun a m L ready => (fixed a m L ready).trans never
    obtain ⟨_, ready, -⟩ := sound.serves.ready
    refine ⟨nothing none, fun call mem => ?_, close_run (none _ _ _ ready.1)⟩
    have zero := ledger.released.trans (nothing none)
    exact Bool.eq_false_iff.mpr (List.countP_eq_zero.mp zero call mem)
  · obtain ⟨w', served, -, steps⟩ := Session.serve_spec sound legal
    obtain ⟨es, dealt⟩ := steps.dealt
    refine ⟨w', es, served, dealt.dealings.mono fun _ never => never.elim, dealt.dealings.calls_eq,
      fun x hx l lets p hp hp' => ?_⟩
    exact dealt.dealings.apart_of_lets hx lets (mem_rooms (Session.mem_staying.mpr ⟨hp, hp'⟩))

theorem reachable_balanced_one : ∃ w : Session (Watched (Heap NoGrowth)), w.live = [4152] ∧
    w.cache.counters.abandoned = 0 ∧ (∃ gone, w.Ledger gone) ∧
    ∃ c m, close ⟨w.cache, w.memory⟩ = .ok () ⟨c, m⟩ ∧ Outstanding c.allocator.calls 0 := by
  obtain ⟨D, m₀, σ, reachable, live⟩ := exists_reachable_one
  have fixed : ∀ h m L, (Heap.contract NoGrowth.contract D m₀).Ready h m L →
      Allocator.canRelease h = true := fun _ _ _ _ => rfl
  obtain ⟨every, facts⟩ := reachable_balanced fixed
  obtain ⟨w, observed, rfl, -⟩ := every 3 σ reachable
  obtain ⟨-, ⟨gone, ledger, -⟩, -, closed, -⟩ := facts 3 w observed
  obtain ⟨none, c, m, ls, run, -, -, outstanding, -⟩ := closed rfl
  exact ⟨w, live, none, ⟨gone, ledger⟩, c, m, run, outstanding⟩

end LayeredMemory.Cache
