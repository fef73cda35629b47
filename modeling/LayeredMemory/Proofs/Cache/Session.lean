import LayeredMemory.Proofs.Cache.Service
import LayeredMemory.Proofs.Layer.Hosted

/-!
# Cache sessions — whole runs of a cache and its clients

A session is a cache, its memory, and the objects that its clients hold. Clients make requests and
write into the objects that they hold, in any order and any number. `Reachable` are the sessions
that come about so, with the number of requests so far, from a new cache over any allocator that
honours its contract.

* `Session.Sound`: the invariant, the cache serves exactly what the clients hold, and keeps no more
  empty slabs than it may.
* `Session.serve_spec`: every legal request is served, or refused with a fault, and keeps the
  invariant and the bytes of all objects that are still held.
* `Reachable.sound`: so the invariant holds after every run, and no count outgrows the number of
  requests.
* `reachable_consistent`: no request stops; validation succeeds after every run, every slab is
  listed where it should be, and all limits hold.
-/

namespace LayeredMemory.Cache

/-- What a client can ask of a cache. -/
inductive Request where
  | alloc
  | free (ptr : Nat)
  | tryFree (ptr : Nat)
  | shrink
  deriving DecidableEq, Repr

/-- The object that a request is about. -/
def Request.target : Request → Option Nat
  | .free ptr | .tryFree ptr => some ptr
  | .alloc | .shrink => none

/-- A cache, its memory, and what its clients hold. -/
structure Session (α : Type) where
  cache : Cache α
  memory : Memory
  live : List Nat := []

/-- Requests that a client may make: what it frees without a check, it must hold. -/
def Request.Legal {α : Type} (σ : Session α) : Request → Prop
  | .free ptr => ptr ∈ σ.live
  | .alloc | .tryFree _ | .shrink => True

/-- The cache checks for itself what the request needs. -/
def Request.isChecked : Request → Bool
  | .free _ => false
  | .alloc | .tryFree _ | .shrink => true

theorem Request.legal_of_isChecked {α : Type} {σ : Session α} (r : Request)
    (checked : r.isChecked = true) : r.Legal σ := by
  cases r with
  | free => cases checked
  | alloc | tryFree | shrink => trivial

namespace Session

variable {α : Type} {σ σ' : Session α}

/-- Runs an operation of the cache; after an answer the clients hold `held`, after a fault what they
held before. -/
def run {β : Type} (σ : Session α) (x : Action (Cache α) β) (held : β → List Nat) :
    Except Stop (Session α) :=
  x.conclude ⟨σ.cache, σ.memory⟩ (fun a s => ⟨s.part, s.memory, held a⟩)
    fun _ s => ⟨s.part, s.memory, σ.live⟩

/-- Serves a request, unless the cache stops. -/
def serve [Allocator α] (σ : Session α) : Request → Except Stop (Session α)
  | .alloc => σ.run alloc fun p => p :: σ.live
  | .free ptr => σ.run (free ptr) fun _ => σ.live.erase ptr
  | .tryFree ptr => σ.run (tryFree ptr) fun _ => σ.live.erase ptr
  | .shrink => σ.run shrink fun _ => σ.live

/-- A client writes a byte. -/
def write (σ : Session α) (a : Nat) (b : UInt8) : Session α :=
  { σ with memory := σ.memory.write a b }

/-- The address is one of an object that a client holds. -/
def Usable (σ : Session α) (a : Nat) : Prop :=
  ∃ p ∈ σ.live, a ∈ σ.cache.room p

/-- What the cache holds of its allocator. -/
def holding (σ : Session α) : Holding α :=
  ⟨σ.cache.allocator, σ.memory, σ.cache.leases⟩

/-- The objects that are held in both. -/
def staying (σ σ' : Session α) : List Nat :=
  σ.live.filter (· ∈ σ'.live)

theorem mem_staying {p : Nat} : p ∈ σ.staying σ' ↔ p ∈ σ.live ∧ p ∈ σ'.live := by
  unfold staying
  rw [List.mem_filter, decide_eq_true_iff]

variable [Allocator α] {K : AllocatorContract α} {r : Request}

/-- The cache serves exactly what the clients hold, and keeps no more empty slabs than it may. -/
structure Sound (K : AllocatorContract α) (σ : Session α) : Prop where
  serves : σ.cache.Serves K σ.memory σ.live
  empties : σ.cache.roster.length .empty ≤ σ.cache.config.highWater

/-- What one request does at the most: hand out one object and register one slab. It takes none but
its target back; objects that are held before and after keep their bytes and owner headers, and are
in nothing that goes. -/
structure Steps (σ : Session α) (r : Request) (σ' : Session α) : Prop where
  keeps : σ.memory.Keeps σ'.memory (σ.cache.cells (σ.staying σ'))
  others : ∀ p ∈ σ.live, r.target ≠ some p → p ∈ σ'.live
  config : σ'.cache.config = σ.cache.config
  allocs : σ'.cache.counters.allocs ≤ σ.cache.counters.allocs + 1
  acquired : σ'.cache.counters.acquired ≤ σ.cache.counters.acquired + 1
  dealt : ∃ es, σ.cache.Dealt σ.memory (σ.staying σ') σ'.cache σ'.memory es

/-- After an operation that left what is held in `P` alone. -/
theorem Sound.after {c : Cache α} {m : Memory} {P objs : List Nat} {n k : Nat}
    (w : Served K n k σ.cache σ.memory P c m objs) (one : n ≤ 1) (one' : k ≤ 1)
    (kept : ∀ p ∈ σ.live, p ∈ objs → p ∈ P)
    (others : ∀ p ∈ σ.live, r.target ≠ some p → p ∈ objs)
    (few : c.roster.length .empty ≤ σ.cache.config.highWater) :
    Sound K ⟨c, m, objs⟩ ∧ σ.Steps r ⟨c, m, objs⟩ := by
  have allocs := w.allocs
  have acquired := w.acquired
  have stay : σ.staying ⟨c, m, objs⟩ ⊆ P := fun p hp =>
    kept p (mem_staying.mp hp).1 (mem_staying.mp hp).2
  refine ⟨⟨w.serves, ?_⟩, ⟨w.keeps.mono ?_, others, w.config, ?_, ?_, ?_⟩⟩
  · dsimp only
    rw [w.config]
    exact few
  · exact Multiset.coe_subset.mpr (List.map_subset _ stay)
  · dsimp only
    omega
  · dsimp only
    omega
  · obtain ⟨es, dealt⟩ := w.dealt
    exact ⟨es, dealt.mono stay⟩

/-- The object lies in the slab `id`. -/
def LiesIn (σ : Session α) (p id : Nat) : Prop :=
  ∃ e, σ.cache.lookup? id = some e ∧ e.slab.Taken σ.memory (p - header)

/-- How full the slab `id` is. -/
def occupancyOf (σ : Session α) (id : Nat) : Option Occupancy :=
  (σ.cache.lookup? id).map CacheEntry.occupancy

/-- What a move of the policy is about: the slab that an object comes from or goes back to, the
slabs that leave and in which order their leases are let go, and that all other slabs stay. -/
inductive Does (σ : Session α) : Request → Move → Session α → Prop
  | took {p id : Nat} {o : Occupancy} {σ' : Session α} (live : σ'.live = p :: σ.live)
      (lies : σ'.LiesIn p id) (listed : σ.cache.lookup? id ≠ none)
      (occupancy : σ'.occupancyOf id = some o)
      (others : ∀ j ≠ id, σ'.cache.lookup? j = σ.cache.lookup? j)
      (dealt : Dealt σ.cache σ.memory [] σ'.cache σ'.memory []) : Does σ .alloc (.took id o) σ'
  | grew {p id : Nat} {o : Occupancy} {e : CacheEntry} {σ' : Session α}
      (live : σ'.live = p :: σ.live) (lies : σ'.LiesIn p id) (vacant : σ.cache.lookup? id = none)
      (entry : σ'.cache.lookup? id = some e) (occupancy : e.occupancy = o)
      (others : ∀ j ≠ id, σ'.cache.lookup? j = σ.cache.lookup? j)
      (dealt : Dealt σ.cache σ.memory [] σ'.cache σ'.memory [.acquired (σ.cache.lease e)]) :
      Does σ .alloc (.grew id o) σ'
  | denied {es : List Dealing} {σ' : Session α} (live : σ'.live = σ.live)
      (others : ∀ j, σ'.cache.lookup? j = σ.cache.lookup? j)
      (dealt : Dealt σ.cache σ.memory [] σ'.cache σ'.memory es)
      (none : es.countP Dealing.isAcquired = 0) : Does σ .alloc .denied σ'
  | gave {r : Request} {p id : Nat} {o : Occupancy} {gone : List Nat} {es : List Dealing}
      {σ' : Session α} (target : r.target = some p) (held : p ∈ σ.live)
      (live : σ'.live = σ.live.erase p) (lies : σ.LiesIn p id)
      (occupancy : σ'.occupancyOf id = if id ∈ gone then .none else some o)
      (others : ∀ j ≠ id, σ'.cache.lookup? j = if j ∈ gone then .none else σ.cache.lookup? j)
      (dealt : Dealt σ.cache σ.memory [] σ'.cache σ'.memory es)
      (lets : es.map Dealing.lets = gone.map fun j => (σ.cache.lookup? j).map σ.cache.lease) :
      Does σ r (.gave id o gone) σ'
  | refused {p : Nat} (absent : p ∉ σ.live) : Does σ (.tryFree p) .refused σ
  | shrank {gone : List Nat} {es : List Dealing} {σ' : Session α} (live : σ'.live = σ.live)
      (count : σ'.cache.live = σ.cache.live)
      (keeps : σ.memory.Keeps σ'.memory (σ.cache.cells σ.live))
      (others : ∀ j, σ'.cache.lookup? j = if j ∈ gone then .none else σ.cache.lookup? j)
      (dealt : Dealt σ.cache σ.memory [] σ'.cache σ'.memory es)
      (lets : es.map Dealing.lets = gone.map fun j => (σ.cache.lookup? j).map σ.cache.lease) :
      Does σ .shrink (.shrank gone) σ'

/-- Handing an object out, as a move. -/
theorem Does.of_alloc {q q₁ : Sequences} {c₁ c' : Cache α} {m₁ m' : Memory} {id p : Nat}
    {o : Occupancy} {objs : List Nat}
    (sound : σ.Sound K) (holds : σ.cache.roster.Holds q)
    (chosen : Chosen σ.cache σ.memory objs q id c₁ m₁ q₁) (config : c₁.config = σ.cache.config)
    (exchanged : Exchanged c₁ m₁ objs id o c' m') (busy : o ≠ .empty)
    (lies : ∃ e, c'.lookup? id = some e ∧ e.slab.Taken m' (p - header)) :
    ∃ mv, σ.Does .alloc mv ⟨c', m', p :: σ.live⟩ ∧
      mv.Obeys σ.cache.config.highWater q (q₁.move id o) := by
  obtain ⟨e, s, before, after, same, occupancy⟩ := exchanged.entry
  cases chosen with
  | listed next =>
    refine ⟨.took id o, .took rfl lies ?_ ?_ exchanged.elsewhere
      (exchanged.dealt.mono (List.nil_subset _)), .took next busy⟩
    · rw [before]
      nofun
    · unfold occupancyOf
      rw [after, Option.map_some]
      exact congrArg some occupancy
  | grown next grown =>
    obtain ⟨e', entry, -, dealt⟩ := grown.dealt
    obtain rfl : e = e' := Option.some.inj (before.symm.trans entry)
    have lease : σ.cache.lease { e with slab := s } = σ.cache.lease e := by
      unfold Cache.lease
      rw [same]
    have all := (dealt.trans exchanged.dealt config).mono (List.nil_subset objs)
    rw [List.append_nil, ← lease] at all
    refine ⟨.grew id o, .grew rfl lies grown.vacant after occupancy (fun j ne => ?_) all,
      .grew next (fun x mem => ?_) busy⟩
    · exact (exchanged.elsewhere j ne).trans (grown.elsewhere j ne)
    · have place := holds.mem_iff.mp mem
      rw [sound.serves.booked.place, grown.vacant] at place
      cases place

/-- Taking an object back, as a move. -/
theorem Does.of_returned {q : Sequences} {c' : Cache α} {m' : Memory} {p : Nat} {objs : List Nat}
    (sound : σ.Sound K) (holds : σ.cache.roster.Holds q) (target : r.target = some p)
    (held : p ∈ σ.live) (returned : Returned σ.cache σ.memory objs p q c' m') :
    ∃ mv q', σ.Does r mv ⟨c', m', σ.live.erase p⟩ ∧ mv.Obeys σ.cache.config.highWater q q' ∧
      c'.roster.Holds q' := by
  obtain ⟨id, o, c₁, m₁, gone, q', lies, exchanged, trims, struck, left⟩ := returned
  obtain ⟨e, s, before, after, same, occupancy⟩ := exchanged.entry
  obtain ⟨es, dealt, lets⟩ := struck.dealt
  have listed : id ∈ q e.occupancy := by
    rw [holds.mem_iff, sound.serves.booked.place, before]
    rfl
  -- The object was still in the slab, so that was not an empty one.
  have occupied : id ∉ q .empty := by
    intro mem
    obtain ⟨e', he, taken⟩ := lies
    obtain rfl : e' = e := Option.some.inj (he.symm.trans before)
    have idle := Occupancy.classify_eq_empty_iff.mp (holds.eq_of_mem listed mem)
    exact (sound.serves.housed.sound before).not_taken_of_allocated_eq_zero idle taken
  have entry (j : Nat) : (c₁.lookup? j).map c₁.lease = (σ.cache.lookup? j).map σ.cache.lease := by
    have lease : c₁.lease = σ.cache.lease := by
      unfold Cache.lease
      rw [exchanged.dealt.layout]
    rw [lease]
    by_cases here : j = id
    · subst here
      rw [after, before, Option.map_some, Option.map_some]
      unfold Cache.lease
      rw [same]
    · rw [exchanged.elsewhere j here]
  refine ⟨.gave id o gone, q', .gave target held rfl lies ?_ (fun j ne => ?_)
    ((exchanged.dealt.trans dealt exchanged.config).mono (List.nil_subset objs)) ?_,
    .gave ⟨_, listed⟩ occupied trims, left⟩
  · unfold occupancyOf
    dsimp only
    rw [struck.lookup?, after]
    split
    · rfl
    · exact congrArg some occupancy
  · dsimp only
    rw [struck.lookup?, exchanged.elsewhere j ne]
  · rw [List.nil_append, lets]
    exact List.map_congr_left fun j _ => entry j

/-- After an operation that obeyed the policy. -/
theorem Sound.obeyed {q q' : Sequences} {mv : Move} {c : Cache α} {m : Memory}
    {P objs : List Nat} {n k : Nat} (sound : σ.Sound K) (holds : σ.cache.roster.Holds q)
    (w : Served K n k σ.cache σ.memory P c m objs) (one : n ≤ 1) (one' : k ≤ 1)
    (kept : ∀ p ∈ σ.live, p ∈ objs → p ∈ P)
    (others : ∀ p ∈ σ.live, r.target ≠ some p → p ∈ objs)
    (does : σ.Does r mv ⟨c, m, objs⟩) (obeys : mv.Obeys σ.cache.config.highWater q q')
    (left : c.roster.Holds q') :
    Sound K ⟨c, m, objs⟩ ∧ σ.Steps r ⟨c, m, objs⟩ ∧ ∃ mv q', σ.Does r mv ⟨c, m, objs⟩ ∧
      mv.Obeys σ.cache.config.highWater q q' ∧ c.roster.Holds q' := by
  have few : c.roster.length .empty ≤ σ.cache.config.highWater := by
    have before := sound.empties
    have after := obeys.length_empty_le
    rw [holds.length_eq] at before
    rw [left.length_eq]
    omega
  obtain ⟨after, steps⟩ := Sound.after w one one' kept others few
  exact ⟨after, steps, mv, q', does, obeys, left⟩

/-- **Every legal request** is served or refused with a fault. The cache serves what the clients
hold again, and the bytes of objects stay. What happens to the roster is a move of the policy. -/
theorem serve_moves {q : Sequences} (sound : σ.Sound K) (legal : r.Legal σ)
    (holds : σ.cache.roster.Holds q) :
    ∃ σ', σ.serve r = .ok σ' ∧ σ'.Sound K ∧ σ.Steps r σ' ∧ ∃ mv q', σ.Does r mv σ' ∧
      mv.Obeys σ.cache.config.highWater q q' ∧ σ'.cache.roster.Holds q' := by
  have erased {ptr : Nat} : ∀ p ∈ σ.live, p ∈ σ.live.erase ptr → p ∈ σ.live.erase ptr :=
    fun _ _ hp => hp
  have others {ptr : Nat} : ∀ p ∈ σ.live, some ptr ≠ some p → p ∈ σ.live.erase ptr :=
    fun p hp ne => (List.mem_erase_of_ne fun same => ne (congrArg some same.symm)).mpr hp
  cases r with
  | alloc =>
    refine (alloc_spec sound.serves holds).conclude (fun p s ⟨w, handed⟩ => ?_) ?_
    · obtain ⟨id, o, c₁, m₁, q₁, chosen, config, exchanged, busy, moved, lies⟩ := handed
      obtain ⟨mv, does, obeys⟩ := Does.of_alloc sound holds chosen config exchanged busy lies
      exact sound.obeyed holds w (Nat.le_refl 1) (Nat.le_refl 1) (fun p hp _ => hp)
        (fun p hp _ => List.mem_cons_of_mem _ hp) does obeys moved
    · rintro _ ⟨c, m⟩ ⟨w, next, denied⟩
      obtain ⟨x, rfl⟩ : ∃ x, c = { σ.cache with allocator := x } := denied.exists_part
      obtain ⟨es, dealt⟩ := w.dealt
      have none : es.countP Dealing.isAcquired = 0 := by
        have count := dealt.tally.acquired
        dsimp only at count
        omega
      exact sound.obeyed holds w (Nat.zero_le 1) (Nat.zero_le 1) (fun p hp _ => hp)
        (fun p hp _ => hp) (.denied rfl (fun _ => rfl) (dealt.mono (List.nil_subset _)) none)
        (.denied next) holds
  | free ptr =>
    refine (free_spec sound.serves holds legal).conclude (fun _ s ⟨w, returned⟩ => ?_)
      fun _ _ never => never.elim
    obtain ⟨mv, q', does, obeys, left⟩ :=
      Does.of_returned (r := .free ptr) sound holds rfl legal returned
    exact sound.obeyed holds w (Nat.zero_le 1) (Nat.zero_le 1) erased others does obeys left
  | tryFree ptr =>
    refine (tryFree_spec sound.serves holds ptr).conclude
      (fun _ s ⟨held, w, returned⟩ => ?_) ?_
    · obtain ⟨mv, q', does, obeys, left⟩ :=
        Does.of_returned (r := .tryFree ptr) sound holds rfl held returned
      exact sound.obeyed holds w (Nat.zero_le 1) (Nat.zero_le 1) erased others does obeys left
    · rintro _ _ ⟨absent, rfl⟩
      exact sound.obeyed holds (.refl (k := 0) sound.serves) (Nat.zero_le 1) (Nat.zero_le 1)
        (fun p hp _ => hp) (fun p hp _ => hp) (.refused absent) .refused holds
  | shrink =>
    refine (shrink_spec sound.serves holds).conclude (fun _ s ⟨w, struck, left⟩ => ?_)
      fun _ _ never => never.elim
    obtain ⟨es, dealt, lets⟩ := struck.dealt
    exact sound.obeyed holds w (Nat.zero_le 1) (Nat.zero_le 1) (fun p hp _ => hp)
      (fun p hp _ => hp) (.shrank rfl struck.live w.keeps struck.lookup?
      (dealt.mono (List.nil_subset _)) lets) .shrank left

/-- Every legal request is served or refused with a fault. -/
theorem serve_spec (sound : σ.Sound K) (legal : r.Legal σ) :
    ∃ σ', σ.serve r = .ok σ' ∧ σ'.Sound K ∧ σ.Steps r σ' := by
  obtain ⟨q, holds⟩ := sound.serves.booked.roster
  obtain ⟨σ', run, after, steps, -⟩ := serve_moves sound legal holds
  exact ⟨σ', run, after, steps⟩

/-- A write of a client, as the cache sees it. -/
theorem Sound.served_write (sound : σ.Sound K) {a : Nat} {b : UInt8} (usable : σ.Usable a) :
    ∃ P, Served K 0 0 σ.cache σ.memory P σ.cache (σ.write a b).memory σ.live := by
  obtain ⟨p, hp, inside⟩ := usable
  obtain ⟨lo, hi⟩ := Extent.mem_iff.mp inside
  exact ⟨_, sound.serves.write hp (σ.memory.changedWithin_write a b) lo hi⟩

/-- What a client writes into its objects is its own matter. -/
theorem Sound.write (sound : σ.Sound K) {a : Nat} {b : UInt8} (usable : σ.Usable a) :
    (σ.write a b).Sound K := by
  obtain ⟨P, w⟩ := sound.served_write usable
  exact ⟨w.serves, sound.empties⟩

end Session

/-! ### Whole runs -/

section Contract

variable {α : Type} [Allocator α] (K : AllocatorContract α)

/-- The sessions that come about: from a new cache, by so many requests and by writes in any
order. -/
inductive Reachable : Nat → Session α → Prop
  | start {config : CacheConfig} {allocator : α} {cache : Cache α} {memory : Memory}
      (made : Cache.new config allocator = .ok cache) (ready : K.Ready allocator memory 0) :
      Reachable 0 ⟨cache, memory, []⟩
  | serve {n : Nat} {σ σ' : Session α} {r : Request} (before : Reachable n σ) (legal : r.Legal σ)
      (served : σ.serve r = .ok σ') : Reachable (n + 1) σ'
  | write {n : Nat} {σ : Session α} {a : Nat} {b : UInt8} (before : Reachable n σ)
      (usable : σ.Usable a) : Reachable n (σ.write a b)

/-- The sessions that come about from another one: by so many requests and by writes in any
order. -/
inductive Leads : Nat → Session α → Session α → Prop
  | refl (σ : Session α) : Leads 0 σ σ
  | serve {n : Nat} {σ τ τ' : Session α} {r : Request} (before : Leads n σ τ) (legal : r.Legal τ)
      (served : τ.serve r = .ok τ') : Leads (n + 1) σ τ'
  | write {n : Nat} {σ τ : Session α} {a : Nat} {b : UInt8} (before : Leads n σ τ)
      (usable : τ.Usable a) : Leads n σ (τ.write a b)

variable {K} {σ : Session α} {n : Nat}

/-- A run starts with a new cache. -/
theorem Reachable.exists_start (reachable : Reachable K n σ) :
    ∃ (config : CacheConfig) (allocator : α) (cache : Cache α) (memory : Memory),
      Cache.new config allocator = .ok cache ∧ K.Ready allocator memory 0 ∧
        Leads n ⟨cache, memory, []⟩ σ := by
  induction reachable with
  | start made ready => exact ⟨_, _, _, _, made, ready, .refl _⟩
  | serve _ legal served ih =>
    obtain ⟨_, _, _, _, made, ready, leads⟩ := ih
    exact ⟨_, _, _, _, made, ready, leads.serve legal served⟩
  | write _ usable ih =>
    obtain ⟨_, _, _, _, made, ready, leads⟩ := ih
    exact ⟨_, _, _, _, made, ready, leads.write usable⟩

omit [Allocator α] in
/-- A new cache holds nothing of its allocator yet. -/
theorem new_leases {config : CacheConfig} {allocator : α} {c : Cache α}
    (made : Cache.new config allocator = .ok c) : c.allocator = allocator ∧ c.leases = 0 := by
  obtain ⟨-, slabs, -, -, same, -⟩ := new_spec made
  refine ⟨same, ?_⟩
  unfold leases registered
  rw [slabs]
  rfl

omit [Allocator α] in
/-- A new cache has no slabs, and nobody holds an object of it. -/
theorem new_inOrder {config : CacheConfig} {allocator : α} {c : Cache α} {m : Memory}
    (made : Cache.new config allocator = .ok c) : c.InOrder m [] ∧ ∀ id, c.lookup? id = none := by
  obtain ⟨booked, slabs, -⟩ := new_spec made
  have none {id : Nat} : c.lookup? id = .none := by
    unfold lookup?
    rw [slabs]
    rfl
  have absent {id : Nat} {e : CacheEntry} (he : c.lookup? id = some e) : False := by
    rw [none] at he
    cases he
  have registered : c.registered = 0 := by
    unfold registered
    rw [slabs]
    rfl
  have housed : c.Housed m :=
    ⟨fun he => (absent he).elim, fun he => (absent he).elim, fun he => (absent he).elim,
      fun he => (absent he).elim⟩
  refine ⟨⟨booked, housed, .nil, fun p => ?_, ?_⟩, fun _ => none⟩
  · constructor
    · nofun
    · rintro ⟨-, id, e, he, -⟩
      exact (absent he).elim
  · rw [booked.live, registered]
    rfl

/-- A new cache serves nothing yet. -/
theorem new_serves {config : CacheConfig} {allocator : α} {c : Cache α} {m : Memory}
    (made : Cache.new config allocator = .ok c) (ready : K.Ready allocator m 0) :
    c.Serves K m [] ∧ c.roster.length .empty = 0 ∧ c.counters = {} := by
  obtain ⟨-, -, counters, -, rfl, roster⟩ := new_spec made
  refine ⟨⟨(new_inOrder made).1, 0, ?_, fun _ => rfl⟩, ?_, counters⟩
  · rw [(new_leases made).2]
    exact ready
  · rw [roster]
    rfl

/-- **The invariant of every run.** -/
theorem Reachable.sound (reachable : Reachable K n σ) :
    σ.Sound K ∧ σ.cache.counters.allocs ≤ n ∧ σ.cache.counters.acquired ≤ n := by
  induction reachable with
  | start made ready =>
    obtain ⟨serves, empties, counters⟩ := new_serves made ready
    rw [counters]
    exact ⟨⟨serves, empties ▸ Nat.zero_le _⟩, Nat.le_refl 0, Nat.le_refl 0⟩
  | serve before legal served ih =>
    obtain ⟨sound, allocs, acquired⟩ := ih
    obtain ⟨σ', run, sound', steps⟩ := Session.serve_spec sound legal
    rw [served] at run
    cases run
    exact ⟨sound', steps.allocs.trans (Nat.succ_le_succ allocs),
      steps.acquired.trans (Nat.succ_le_succ acquired)⟩
  | write before usable ih => exact ⟨ih.1.write usable, ih.2⟩

/-- What comes about from a session whose cache is in order, and all the dealings on the way. -/
theorem Leads.sound {σ' : Session α} (leads : Leads n σ σ') (sound : σ.Sound K) :
    σ'.Sound K ∧ σ'.cache.config = σ.cache.config ∧
      ∃ es, σ.cache.Dealt σ.memory [] σ'.cache σ'.memory es := by
  induction leads with
  | refl σ => exact ⟨sound, rfl, [], .nil _, rfl, .refl _⟩
  | serve before legal served ih =>
    obtain ⟨sound, config, es, dealt⟩ := ih sound
    obtain ⟨σ', run, sound', steps⟩ := Session.serve_spec sound legal
    rw [served] at run
    cases run
    obtain ⟨es', dealt'⟩ := steps.dealt
    exact ⟨sound', steps.config.trans config, _,
      dealt.trans (dealt'.mono (List.nil_subset _)) config⟩
  | write before usable ih =>
    obtain ⟨sound, config, es, dealt⟩ := ih sound
    obtain ⟨P, w⟩ := sound.served_write usable
    obtain ⟨es', dealt'⟩ := w.dealt
    exact ⟨⟨w.serves, sound.empties⟩, config, _,
      dealt.trans (dealt'.mono (List.nil_subset _)) config⟩

/-- A run that goes on. -/
theorem Reachable.trans {k : Nat} {σ' : Session α} (reachable : Reachable K k σ)
    (leads : Leads n σ σ') : Reachable K (k + n) σ' := by
  induction leads with
  | refl => exact reachable
  | serve _ legal served ih => exact (ih reachable).serve legal served
  | write _ usable ih => exact (ih reachable).write usable

/-- A run that goes on with requests that are legal at any time. -/
theorem Reachable.serveAll {rs : List Request} {σ' : Session α} (reachable : Reachable K n σ)
    (checked : ∀ r ∈ rs, r.isChecked = true) (served : rs.foldlM Session.serve σ = .ok σ') :
    Reachable K (n + rs.length) σ' := by
  induction rs generalizing n σ with
  | nil =>
    cases served
    exact reachable
  | cons r rs ih =>
    obtain ⟨first, checked⟩ := List.forall_mem_cons.mp checked
    rw [List.foldlM_cons] at served
    cases run : σ.serve r with
    | error => rw [run] at served; cases served
    | ok τ =>
      rw [run] at served
      rw [List.length_cons, Nat.add_comm rs.length, ← Nat.add_assoc]
      exact ih (reachable.serve (r.legal_of_isChecked first) run) checked served

/-- A run of a cache over a heap of one extent, and what can be seen after it. -/
theorem exists_reachable_over_heap {β : Type} (config : CacheConfig) (rs : List Request)
    (see : Session (Heap NoGrowth) → β) {b : β} (checked : ∀ r ∈ rs, r.isChecked = true)
    (outcome : (do
      let τ ← (Heap.Session.serve ⟨{ growth := ({} : NoGrowth) }, Memory.zero, []⟩
        (.addPool ⟨4096, 1024⟩)).toOption
      let cache ← (Cache.new config τ.heap).toOption
      let σ ← (rs.foldlM Session.serve ⟨cache, τ.memory, []⟩).toOption
      return see σ) = some b) :
    ∃ (D : Multiset Extent) (m₀ : Memory) (σ : Session (Heap NoGrowth)),
      Reachable (Heap.contract NoGrowth.contract D m₀) rs.length σ ∧ see σ = b := by
  obtain ⟨τ, run, outcome⟩ := Action.exists_of_bind outcome
  obtain ⟨c, made, outcome⟩ := Action.exists_of_bind outcome
  obtain ⟨σ, served, outcome⟩ := Action.exists_of_bind outcome
  have legal : Heap.Request.Legal NoGrowth.contract ⟨{ growth := {} }, Memory.zero, []⟩
      (.addPool ⟨4096, 1024⟩) :=
    ⟨⟨by decide, by decide⟩, fun _ => trivial⟩
  have heap := ((Heap.Reachable.start trivial).serve legal run).sound
  have start : Reachable (Heap.contract NoGrowth.contract τ.rooms τ.memory) 0 ⟨c, τ.memory, []⟩ :=
    .start made heap.hosts
  rw [← Nat.zero_add rs.length]
  exact ⟨τ.rooms, τ.memory, σ, start.serveAll checked served, Option.some.inj outcome⟩

/-- A run over a heap: two objects handed out, and one taken back. -/
theorem exists_reachable_one : ∃ (D : Multiset Extent) (m₀ : Memory) (σ : Session (Heap NoGrowth)),
    Reachable (Heap.contract NoGrowth.contract D m₀) 3 σ ∧ σ.live = [4152] :=
  exists_reachable_over_heap { objectSize := 24, pageSize := 256 } [.alloc, .alloc, .tryFree 4120]
    Session.live (by decide) (by decide +kernel)

/-- A run over a heap: seven objects handed out of four slabs, and five taken back. The fourth and
the second slab are empty then, and leave when the cache shrinks. -/
theorem exists_reachable_two : ∃ (D : Multiset Extent) (m₀ : Memory) (σ : Session (Heap NoGrowth)),
    Reachable (Heap.contract NoGrowth.contract D m₀) 12 σ ∧ σ.live = [4216, 4136] ∧
      σ.cache.roster.ends .empty = ⟨some 3, some 1, 2⟩ ∧ σ.cache.slabCount = 4 ∧
      (σ.serve .shrink).toOption.map (fun σ' => σ'.cache.slabCount) = some 2 := by
  let see (σ : Session (Heap NoGrowth)) := (σ.live, σ.cache.roster.ends .empty, σ.cache.slabCount,
    (σ.serve .shrink).toOption.map fun σ' => σ'.cache.slabCount)
  obtain ⟨D, m₀, σ, reachable, seen⟩ := exists_reachable_over_heap
    { objectSize := 8, pageSize := 32, highWater := 2 }
    (.replicate 7 .alloc ++ [4264, 4168, 4184, 4120, 4232].map .tryFree) see
    (b := ([4216, 4136], ⟨some 3, some 1, 2⟩, 4, some 2)) (by decide) (by decide +kernel)
  simp only [see, Prod.mk.injEq] at seen
  exact ⟨D, m₀, σ, reachable, seen⟩

/-- **Runs are consistent.** After every run of so many requests, every legal request is served or
refused with a fault. Validation succeeds; the sequences of the roster hold every slab, where its
occupancy says, and report it for each of its objects; the counts add up, and the limits of the
configuration hold. As long as there were fewer requests than words, every counter is a word. -/
theorem reachable_consistent (reachable : Reachable K n σ) :
    (∀ r : Request, r.Legal σ → ∃ σ', σ.serve r = .ok σ') ∧
      σ.cache.validate σ.memory = .ok () ∧
      (∃ seqs, σ.cache.roster.Holds seqs ∧ ∀ o id, id ∈ seqs o ↔ ∃ e, σ.cache.lookup? id = some e ∧
        Occupancy.classify e.slab.allocated e.slab.capacity = o) ∧
      (∀ p ∈ σ.live, ∃ id e, σ.cache.lookup? id = some e ∧ e.slab.Taken σ.memory (p - header) ∧
        σ.cache.stateOf p = some (.classify e.slab.allocated e.slab.capacity)) ∧
      σ.cache.roster.length .available + σ.cache.roster.length .full +
          σ.cache.roster.length .empty = σ.cache.slabCount ∧
      σ.cache.live = σ.live.length ∧
      σ.cache.live = (σ.cache.registered.map fun e => e.slab.allocated).sum ∧
      σ.cache.roster.length .empty ≤ σ.cache.config.highWater ∧
      (σ.cache.config.maxSlabs ≠ 0 → σ.cache.slabCount ≤ σ.cache.config.maxSlabs) ∧
      (n < Word.bound →
        ∀ k ∈ [σ.cache.counters.allocs, σ.cache.counters.frees, σ.cache.counters.acquired,
            σ.cache.counters.released, σ.cache.counters.abandoned, σ.cache.live],
          k < Word.bound) := by
  obtain ⟨sound, allocs, acquired⟩ := reachable.sound
  have order := sound.serves.toInOrder
  have booked := order.booked
  refine ⟨fun r legal => ?_, validate_eq booked order.housed, ?_, fun p hp => order.stateOf_eq hp,
    booked.listed.trans booked.slabCount_eq.symm, order.objects.length.symm, booked.live,
    sound.empties, fun some => ?_, fun few k hk => ?_⟩
  · obtain ⟨σ', served, -⟩ := Session.serve_spec sound legal
    exact ⟨σ', served⟩
  · obtain ⟨seqs, holds⟩ := booked.roster
    refine ⟨seqs, holds, fun o id => ?_⟩
    rw [holds.mem_iff, booked.place, Option.map_eq_some_iff]
    rfl
  · rw [booked.slabCount_eq]
    exact booked.limit some
  · have := booked.allocs
    have := booked.acquired
    simp only [List.mem_cons, List.not_mem_nil, or_false] at hk
    omega

theorem reachable_consistent_one : ∃ σ : Session (Heap NoGrowth), σ.live = [4152] ∧
    σ.cache.validate σ.memory = .ok () ∧ (∃ o, σ.cache.stateOf 4152 = some o) ∧
    σ.cache.live = 1 := by
  obtain ⟨D, m₀, σ, reachable, live⟩ := exists_reachable_one
  obtain ⟨-, valid, -, states, -, count, -⟩ := reachable_consistent reachable
  rw [live] at states count
  obtain ⟨id, e, -, -, state⟩ := states 4152 (by decide)
  exact ⟨σ, live, valid, ⟨_, state⟩, count⟩

end Contract

end LayeredMemory.Cache
