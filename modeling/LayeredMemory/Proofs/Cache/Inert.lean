import LayeredMemory.Proofs.Cache.Twins
import LayeredMemory.Proofs.Cache.Session

/-!
# Parallel cache sessions — what patterns change

Two sessions in `Parallel` start with new caches that have the same parameters but for their
patterns, over watched allocators that answer alike, and over any two memories. They go through the
same requests, and write at the same addresses. From the first object on their memories differ: what
one cache fills, the other fills with other bytes, or not at all.

* `Session.Abreast`: the invariant, the caches are twins and the clients hold the same objects.
* `Session.Abreast.serve_alike`: what one request does to both.
* `Parallel.exists_leads`: no run of one is out of reach of the other.
* `patterns_inert`: whatever clients can learn from a cache, and whatever an allocator can learn
  from it, they learn from the other one, too. Patterns are no part of that.
-/

namespace LayeredMemory.Cache

open LayeredMemory.Action (Lockstep)

/-- What a client hears: a pointer, if it asked for one, or why there is none. -/
abbrev Reply : Type :=
  Except Fault (Option Nat)

namespace Session

variable {α : Type}

/-- What an operation answers. -/
def answer {ρ : Type} (σ : Session α) (x : Action (Cache α) ρ) (ptr : ρ → Option Nat) :
    Except Stop Reply :=
  x.conclude ⟨σ.cache, σ.memory⟩ (fun a _ => .ok (ptr a)) fun f _ => .error f

/-- What a client hears of a request, unless the cache stops. -/
def reply [Allocator α] (σ : Session α) : Request → Except Stop Reply
  | .alloc => σ.answer alloc some
  | .free ptr => σ.answer (free ptr) fun _ => none
  | .tryFree ptr => σ.answer (tryFree ptr) fun _ => none
  | .shrink => σ.answer shrink fun _ => none

end Session

/-! ### New caches -/

/-- **Patterns** do not matter to whether there can be a cache. -/
theorem new_twin {α β : Type} (config : CacheConfig) (fresh stale : Pattern) (x : α) (y : β) :
    Cache.new (config.filling fresh stale) y =
      (Cache.new config x).map (·.twin y fresh stale) := by
  have validate : (config.filling fresh stale).validate = config.validate := rfl
  have pageSize : (config.filling fresh stale).pageSize = config.pageSize := rfl
  have stride : (config.filling fresh stale).slotStride = config.slotStride := rfl
  have perSlab : (config.filling fresh stale).objectsPerSlab = config.objectsPerSlab := rfl
  unfold Cache.new
  rw [validate, pageSize, stride, perSlab]
  rcases config.validate with e | -
  · rfl
  cases Layout.of? config.pageSize Word.bytes with
  | none => rfl
  | some layout =>
    rcases config.slotStride with e | stride
    · rfl
    rcases config.objectsPerSlab with e | perSlab
    · rfl
    · rfl

section Pair

variable {α β : Type} [Allocator α] [Allocator β] (P : AllocatorPair α β)

/-- New caches with any patterns are twins. -/
theorem Twins.new {config : CacheConfig} {fresh stale : Pattern} {x : α} {y : β} {c : Cache α}
    {d : Cache β} {m n : Memory} (made : Cache.new config x = .ok c)
    (made' : Cache.new (config.filling fresh stale) y = .ok d) (ready : P.Ready ⟨x, m⟩ ⟨y, n⟩ 0) :
    Twins P ⟨c, m⟩ ⟨d, n⟩ [] := by
  have same := new_twin config fresh stale x y
  rw [made, made'] at same
  cases same
  obtain ⟨order, none⟩ := new_inOrder (m := m) made
  obtain ⟨order', none'⟩ := new_inOrder (m := n) made'
  have chains : (c.twin y fresh stale).chains n = c.chains m := by
    funext id
    unfold chains
    rw [none, none']
    rfl
  obtain ⟨rfl, leases⟩ := new_leases made
  refine ⟨⟨order, order', ⟨y, fresh, stale, rfl⟩, chains⟩, 0, ?_⟩
  dsimp only
  rw [leases]
  exact ready

/-- Sessions that went through the same requests and wrote at the same addresses, with the same
parameters but for the patterns, over any two memories. -/
inductive Parallel : Session (Watched α) → Session (Watched β) → Prop
  | start {config : CacheConfig} {fresh stale : Pattern} {x : α} {y : β} {c : Cache (Watched α)}
      {d : Cache (Watched β)} {m n : Memory} (made : Cache.new config ⟨x, []⟩ = .ok c)
      (made' : Cache.new (config.filling fresh stale) ⟨y, []⟩ = .ok d)
      (ready : P.Ready ⟨x, m⟩ ⟨y, n⟩ 0) : Parallel ⟨c, m, []⟩ ⟨d, n, []⟩
  | serve {σ σ' : Session (Watched α)} {τ τ' : Session (Watched β)} {r : Request}
      (before : Parallel σ τ) (legal : r.Legal σ) (served : σ.serve r = .ok σ')
      (served' : τ.serve r = .ok τ') : Parallel σ' τ'
  | write {σ : Session (Watched α)} {τ : Session (Watched β)} {a : Nat} {b b' : UInt8}
      (before : Parallel σ τ) (usable : σ.Usable a) : Parallel (σ.write a b) (τ.write a b')

/-- The caches are twins, and their clients hold the same objects. -/
structure Session.Abreast (σ : Session α) (τ : Session β) : Prop where
  twins : Twins P ⟨σ.cache, σ.memory⟩ ⟨τ.cache, τ.memory⟩ σ.live
  live : τ.live = σ.live

variable {P}

namespace Session

variable {σ : Session α} {τ : Session β} {r : Request}

/-- Operations in lockstep, after which the clients hold the same. -/
theorem alike_of_lockstep {ρ : Type} {x : Action (Cache α) ρ} {y : Action (Cache β) ρ}
    {held : ρ → List Nat} (ptr : ρ → Option Nat) (live : τ.live = σ.live)
    (alike : Lockstep x y ⟨σ.cache, σ.memory⟩ ⟨τ.cache, τ.memory⟩
      (fun a s t => Twins P s t (held a)) (fun s t => Twins P s t σ.live)) :
    ∃ σ' τ' reply, σ.run x held = .ok σ' ∧ τ.run y held = .ok τ' ∧
      σ.answer x ptr = .ok reply ∧ τ.answer y ptr = .ok reply ∧ Abreast P σ' τ' := by
  have served : ∃ σ' τ', σ.run x held = .ok σ' ∧ τ.run y held = .ok τ' ∧ Abreast P σ' τ' :=
    alike.conclude (fun _ _ _ w => ⟨w, rfl⟩) fun _ _ _ w => ⟨w, live⟩
  have heard : ∃ r r', σ.answer x ptr = .ok r ∧ τ.answer y ptr = .ok r' ∧ r = r' :=
    alike.conclude (fun _ _ _ _ => rfl) fun _ _ _ _ => rfl
  obtain ⟨σ', τ', run, run', abreast⟩ := served
  obtain ⟨reply, _, said, said', rfl⟩ := heard
  exact ⟨σ', τ', reply, run, run', said, said', abreast⟩

theorem Abreast.legal_iff (abreast : Abreast P σ τ) : r.Legal τ ↔ r.Legal σ := by
  cases r with
  | free ptr =>
    unfold Request.Legal
    rw [abreast.live]
  | alloc | tryFree | shrink => rfl

theorem Abreast.usable_iff (abreast : Abreast P σ τ) {a : Nat} : τ.Usable a ↔ σ.Usable a := by
  obtain ⟨y, fresh, stale, same⟩ := abreast.twins.same
  dsimp only at same
  unfold Usable
  rw [abreast.live, same]
  rfl

/-- **One request.** Both serve it or both refuse it, and they are abreast again. -/
theorem Abreast.serve_alike (abreast : Abreast P σ τ) (legal : r.Legal σ) :
    ∃ σ' τ' reply, σ.serve r = .ok σ' ∧ τ.serve r = .ok τ' ∧
      σ.reply r = .ok reply ∧ τ.reply r = .ok reply ∧ Abreast P σ' τ' := by
  obtain ⟨d, n, live⟩ := τ
  obtain ⟨twins, rfl⟩ := abreast
  cases r with
  | alloc => exact alike_of_lockstep _ rfl twins.alloc
  | free ptr => exact alike_of_lockstep _ rfl (twins.free legal)
  | tryFree ptr =>
    exact alike_of_lockstep _ rfl ((twins.tryFree ptr).mono (fun _ _ _ w => w.2) fun _ _ w => w)
  | shrink => exact alike_of_lockstep _ rfl twins.shrink

/-- What the clients write is their own matter, if only they write at the same place. -/
theorem Abreast.write (abreast : Abreast P σ τ) {a : Nat} {b b' : UInt8} (usable : σ.Usable a) :
    Abreast P (σ.write a b) (τ.write a b') := by
  obtain ⟨p, hp, inside⟩ := usable
  obtain ⟨lo, hi⟩ := Extent.mem_iff.mp inside
  exact ⟨abreast.twins.write hp ((σ.memory.changedWithin_write a b).mono lo hi)
    ((τ.memory.changedWithin_write a b').mono lo hi), abreast.live⟩

end Session

/-! ### Whole runs -/

variable {σ : Session (Watched α)} {τ : Session (Watched β)}

/-- **The invariant of parallel sessions.** -/
theorem Parallel.abreast (parallel : Parallel P σ τ) : σ.Abreast P.watched τ := by
  induction parallel with
  | start made made' ready => exact ⟨.new _ made made' ⟨ready, rfl⟩, rfl⟩
  | serve before legal served served' ih =>
    obtain ⟨σ', τ', reply, run, run', -, -, abreast⟩ := ih.serve_alike legal
    rw [served] at run
    rw [served'] at run'
    cases run
    cases run'
    exact abreast
  | write before usable ih => exact ih.write usable

/-- Whatever one of them goes through, the other goes through as well. -/
theorem Parallel.exists_leads {k : Nat} {σ' : Session (Watched α)} (parallel : Parallel P σ τ)
    (leads : Leads k σ σ') : ∃ τ', Leads k τ τ' ∧ Parallel P σ' τ' := by
  induction leads with
  | refl => exact ⟨τ, .refl τ, parallel⟩
  | serve _ legal served ih =>
    obtain ⟨τ₁, leads, parallel⟩ := ih parallel
    obtain ⟨_, τ₂, _, run, run', -⟩ := parallel.abreast.serve_alike legal
    exact ⟨τ₂, leads.serve (parallel.abreast.legal_iff.mpr legal) run',
      .serve parallel legal served run'⟩
  | @write _ _ _ _ b _ usable ih =>
    obtain ⟨τ₁, leads, parallel⟩ := ih parallel
    exact ⟨τ₁.write _ b, leads.write (parallel.abreast.usable_iff.mpr usable),
      parallel.write usable⟩

/-- **Patterns are inert.** Two caches with the same parameters but for their patterns, over
allocators that answer alike, go through the same requests, while clients write what they like at
the same addresses. Then each request that clients may make next is served by both or refused by
both, with the same reply, and so on. The clients hold the same objects and may write at the same
addresses, and the allocators got the same calls and gave the same answers. The caches have the same
slabs with the same free slots in the same order, on the same sequences, the same counts and the
same report, tell the same occupancy of every address, and both are found to be valid. -/
theorem patterns_inert (parallel : Parallel P σ τ) :
    (∀ r : Request, r.Legal σ → ∃ σ' τ' reply, σ.serve r = .ok σ' ∧ τ.serve r = .ok τ' ∧
        σ.reply r = .ok reply ∧ τ.reply r = .ok reply ∧ Parallel P σ' τ') ∧
      τ.live = σ.live ∧ (∀ a, τ.Usable a ↔ σ.Usable a) ∧
      τ.cache.allocator.calls = σ.cache.allocator.calls ∧ τ.cache.slabs = σ.cache.slabs ∧
      τ.cache.chains τ.memory = σ.cache.chains σ.memory ∧ τ.cache.roster = σ.cache.roster ∧
      τ.cache.live = σ.cache.live ∧ τ.cache.stats = σ.cache.stats ∧
      (∀ p, τ.cache.stateOf p = σ.cache.stateOf p) ∧
      σ.cache.validate σ.memory = .ok () ∧ τ.cache.validate τ.memory = .ok () := by
  have abreast := parallel.abreast
  have twins := abreast.twins
  obtain ⟨y, fresh, stale, same⟩ := twins.same
  obtain ⟨gone, -, calls⟩ := twins.ready
  dsimp only at same calls
  have order := twins.order
  have order' := twins.order'
  refine ⟨fun r legal => ?_, abreast.live, fun a => abreast.usable_iff, calls,
    congrArg Cache.slabs same, twins.chains, congrArg Cache.roster same, congrArg Cache.live same,
    congrArg Cache.stats same, fun p => congrArg (Cache.stateOf · p) same,
    validate_eq order.booked order.housed, validate_eq order'.booked order'.housed⟩
  obtain ⟨σ', τ', reply, run, run', heard, heard', -⟩ := abreast.serve_alike legal
  exact ⟨σ', τ', reply, run, run', heard, heard', .serve parallel legal run run'⟩

end Pair

/-- A cache that fills objects over a heap that fills payloads, and a cache and a heap that do not.
A slab goes back and comes again at the same address; the object that lies in it then is filled in
one of the memories and not in the other. -/
theorem patterns_inert_reused : ∃ σ τ : Session (Watched (Heap Scripted)),
    σ.cache.config.allocPattern = .fresh ∧ τ.cache.config.allocPattern = none ∧
      σ.memory.read 4128 ≠ τ.memory.read 4128 ∧ τ.live = [4120] ∧
      τ.cache.allocator.calls.countP Call.isAcquired = 2 ∧ τ.cache.stats = σ.cache.stats ∧
      σ.cache.validate σ.memory = .ok () ∧ τ.cache.validate τ.memory = .ok () := by
  let config : CacheConfig := { objectSize := 24, pageSize := 256 }
  let fresh (config : HeapConfig) : Heap Scripted :=
    { config, growth := ⟨[some ⟨4096, 1024⟩], []⟩ }
  have ready : (Heap.pair Scripted.pair 0 Memory.zero Memory.zero).Ready
      ⟨fresh .debug, Memory.zero⟩ ⟨fresh .production, Memory.zero⟩ 0 := by
    refine .new ⟨rfl, fun e he => ?_⟩
    rw [Option.some_inj.mp (List.mem_singleton.mp he)]
    exact ⟨by decide, by decide⟩
  have outcome : (do
      let c ← (Cache.new config (⟨fresh .debug, []⟩ : Watched (Heap Scripted))).toOption
      let σ ← (Session.serve ⟨c, Memory.zero, []⟩ .alloc).toOption
      let σ ← (σ.serve (.tryFree 4120)).toOption
      let σ ← (σ.serve .shrink).toOption
      let σ ← (σ.serve .alloc).toOption
      return (σ.live, σ.cache.config.allocPattern, σ.memory.read 4128,
        σ.cache.allocator.calls.countP Call.isAcquired)) = some ([4120], .fresh, 187, 2) := by
    decide +kernel
  have outcome' : (do
      let c ← (Cache.new (config.filling none none)
        (⟨fresh .production, []⟩ : Watched (Heap Scripted))).toOption
      let σ ← (Session.serve ⟨c, Memory.zero, []⟩ .alloc).toOption
      let σ ← (σ.serve (.tryFree 4120)).toOption
      let σ ← (σ.serve .shrink).toOption
      let σ ← (σ.serve .alloc).toOption
      return (σ.cache.config.allocPattern, σ.memory.read 4128)) = some (none, 0) := by
    decide +kernel
  obtain ⟨c, made, outcome⟩ := Action.exists_of_bind outcome
  obtain ⟨σ₁, run₁, outcome⟩ := Action.exists_of_bind outcome
  obtain ⟨σ₂, run₂, outcome⟩ := Action.exists_of_bind outcome
  obtain ⟨σ₃, run₃, outcome⟩ := Action.exists_of_bind outcome
  obtain ⟨σ₄, run₄, outcome⟩ := Action.exists_of_bind outcome
  obtain ⟨d, made', outcome'⟩ := Action.exists_of_bind outcome'
  obtain ⟨τ₁, run₁', outcome'⟩ := Action.exists_of_bind outcome'
  obtain ⟨τ₂, run₂', outcome'⟩ := Action.exists_of_bind outcome'
  obtain ⟨τ₃, run₃', outcome'⟩ := Action.exists_of_bind outcome'
  obtain ⟨τ₄, run₄', outcome'⟩ := Action.exists_of_bind outcome'
  simp only [pure, Option.some.injEq, Prod.mk.injEq] at outcome outcome'
  obtain ⟨live, pattern, byte, count⟩ := outcome
  obtain ⟨pattern', byte'⟩ := outcome'
  have emptied := ((Parallel.start made made' ready).serve (r := .alloc) trivial run₁ run₁').serve
    (r := .tryFree 4120) trivial run₂ run₂'
  have reused := (emptied.serve (r := .shrink) trivial run₃ run₃').serve (r := .alloc) trivial
    run₄ run₄'
  obtain ⟨-, live', -, calls, -, -, -, -, stats, -, valid, valid'⟩ := patterns_inert reused
  exact ⟨σ₄, τ₄, pattern, pattern', by rw [byte, byte']; decide, live'.trans live,
    by rw [calls, count], stats, valid, valid'⟩

end LayeredMemory.Cache
