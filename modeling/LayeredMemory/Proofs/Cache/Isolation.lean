import LayeredMemory.Proofs.Cache.Session

/-!
# Isolated objects — what a cache leaves alone

Objects that are out do not overlap, and each lies with its owner header in a lease of the cache
(`Seated`). A request leaves all of them alone but its target. Of the rest of memory the cache
writes into leases, while it holds them; everything else that changes, the allocator changes.

What the cache had to do with its allocator is on record, for every request and for whole runs
(`Dealings`). In the record of a run every lease is accounted for: what was released or abandoned is
apart from all that the cache still held then.

* `Session.Sound.seated`: where objects lie.
* `Session.Steps.spares`: what a request leaves alone.
* `Reachable.dealings`: the record of a whole run.
* `reachable_isolated`: all of this, after every run.
-/

namespace LayeredMemory.Cache

variable {α : Type}

/-- An object lies with its owner header in a slab, which is a lease of the cache, and the header
names the slab. -/
structure Session.Seated (σ : Session α) (p : Nat) : Prop where
  aligned : 8 ∣ p
  header_le : header ≤ p
  owner : ∃ id e, σ.cache.lookup? id = some e ∧ σ.memory.readWord (p - header) = id ∧
    σ.cache.lease e ∈ σ.cache.leases ∧ ∀ x ∈ σ.cache.cell p, x ∈ (σ.cache.lease e).extent

variable [Allocator α] {K : AllocatorContract α} {σ σ' : Session α} {r : Request} {n : Nat}

namespace Session

theorem Sound.seated (sound : σ.Sound K) {p : Nat} (hp : p ∈ σ.live) : σ.Seated p := by
  have order := sound.serves.toInOrder
  obtain ⟨large, id, e, he, taken⟩ := order.exists_slot hp
  refine ⟨order.dvd_object hp, large, id, e, he, order.housed.owner he taken,
    Multiset.mem_map_of_mem _ (mem_registered.mpr ⟨id, he⟩), fun x hx => ?_⟩
  rw [lease_extent order.housed he]
  exact order.housed.cell_subset order.booked.configured he taken.1 hx

/-- **A request spares** all objects but its target, and their owner headers. -/
theorem Steps.spares (steps : σ.Steps r σ') {p : Nat} (hp : p ∈ σ.live)
    (other : r.target ≠ some p) :
    p ∈ σ'.live ∧ ∀ x ∈ σ.cache.cell p, σ'.memory.read x = σ.memory.read x := by
  have hp' := steps.others p hp other
  exact ⟨hp', steps.keeps _ (mem_cells (mem_staying.mpr ⟨hp, hp'⟩))⟩

end Session

/-- **The record of a run**, from its start. -/
theorem Reachable.dealings (reachable : Reachable K n σ) :
    ∃ start es, start.leases = 0 ∧ K.Ready start.allocator start.memory 0 ∧
      0 < σ.cache.extentLayout.size ∧
      Dealings σ.cache.extentLayout (fun _ => False) start es σ.holding := by
  obtain ⟨config, allocator, cache, memory, made, ready, leads⟩ := reachable.exists_start
  obtain ⟨serves, empties, -⟩ := new_serves made ready
  obtain ⟨rfl, none⟩ := new_leases made
  obtain ⟨sound, -, es, dealt⟩ := leads.sound ⟨serves, empties ▸ Nat.zero_le _⟩
  refine ⟨Session.holding ⟨cache, memory, []⟩, es, none, ready,
    sound.serves.booked.configured.layout_pos, ?_⟩
  rw [dealt.layout]
  exact dealt.dealings.mono fun _ never => never.elim

/-- **Objects are isolated.** After every run, objects that are out do not overlap, start at words,
and lie with their owner headers in leases of the cache, which the headers name. Every legal request
is served or refused with a fault; all objects but its target are still out then, and they and their
owner headers are unchanged. The request has a record: all changes of memory are the allocator's, or
in leases that the cache held then. So does closing the cache, and so does the whole run; there,
whatever was released or abandoned overlaps nothing that the cache held from then on without
acquiring it again, and what was abandoned is unchanged since. -/
theorem reachable_isolated (reachable : Reachable K n σ) :
    (σ.live.Nodup ∧ ∀ p ∈ σ.live, ∀ q ∈ σ.live, p ≠ q →
        (σ.cache.room p).Apart (σ.cache.room q)) ∧
      (∀ p ∈ σ.live, σ.Seated p) ∧
      (∃ gone, K.Ready σ.cache.allocator σ.memory (gone + σ.cache.leases)) ∧
      (∀ r : Request, r.Legal σ → ∃ σ', σ.serve r = .ok σ' ∧
        (∀ p ∈ σ.live, r.target ≠ some p →
          p ∈ σ'.live ∧ ∀ x ∈ σ.cache.cell p, σ'.memory.read x = σ.memory.read x) ∧
        ∃ es, Dealings σ.cache.extentLayout (fun _ => False) σ.holding es σ'.holding) ∧
      (K.TakesBack ∨ K.TakesNothing → ∃ c m L es, close ⟨σ.cache, σ.memory⟩ = .ok () ⟨c, m⟩ ∧
        Dealings σ.cache.extentLayout (fun _ => False) σ.holding es ⟨c.allocator, m, L⟩) ∧
      ∃ start es, start.leases = 0 ∧ K.Ready start.allocator start.memory 0 ∧
        Dealings σ.cache.extentLayout (fun _ => False) start es σ.holding ∧
        ∀ before x after l, es = before ++ x :: after → x.lets = some l →
          ∃ t, Dealings σ.cache.extentLayout (fun _ => False) start (before ++ [x]) t ∧
            Dealings σ.cache.extentLayout (fun _ => False) t after σ.holding ∧
            (∀ k ∈ t.leases, k.extent.Apart l.extent) ∧
            (x = .abandoned l → t.memory.Keeps σ.memory {l.extent}) := by
  obtain ⟨sound, -⟩ := reachable.sound
  have order := sound.serves.toInOrder
  obtain ⟨start, es, none, ready, pos, dealings⟩ := reachable.dealings
  refine ⟨⟨order.objects.nodup, fun p hp q hq ne => order.room_apart hp hq ne⟩,
    fun p hp => sound.seated hp, ?ready, fun r legal => ?served, ?closed, start, es, none, ready,
    dealings, fun before x after l whole lets => ?past⟩
  case ready =>
    obtain ⟨gone, ready, -⟩ := sound.serves.ready
    exact ⟨gone, ready⟩
  case served =>
    obtain ⟨σ', served, -, steps⟩ := Session.serve_spec sound legal
    obtain ⟨es, dealt⟩ := steps.dealt
    exact ⟨σ', served, fun p hp other => steps.spares hp other, es,
      dealt.dealings.mono fun _ never => never.elim⟩
  case closed =>
    rintro (always | never)
    · rcases (close_spec sound.serves always).cases with ⟨_, ⟨c, m⟩, run, closed⟩ | ⟨_, _, -, never⟩
      · obtain ⟨x, ls, rfl, -, -, dealings⟩ := closed
        exact ⟨_, m, 0, _, run, dealings⟩
      · exact never.elim
    · obtain ⟨gone, ready, -⟩ := sound.serves.ready
      exact ⟨_, _, _, [], close_run (never _ _ _ ready), .nil _⟩
  case past =>
    subst whole
    exact dealings.let_go pos (.start ready none) lets

/-- Two objects in two slabs stay as they are while two other slabs, which are empty, leave. -/
theorem reachable_isolated_two : ∃ σ σ' : Session (Heap NoGrowth), σ.live = [4216, 4136] ∧
    σ.Seated 4216 ∧ σ.Seated 4136 ∧ (σ.cache.room 4216).Apart (σ.cache.room 4136) ∧
    σ.serve .shrink = .ok σ' ∧ σ.cache.slabCount = 4 ∧ σ'.cache.slabCount = 2 ∧
    (∀ p ∈ σ.live, p ∈ σ'.live ∧ ∀ x ∈ σ.cache.cell p, σ'.memory.read x = σ.memory.read x) ∧
    ∃ es, Dealings σ.cache.extentLayout (fun _ => False) σ.holding es σ'.holding := by
  obtain ⟨D, m₀, σ, reachable, live, -, four, leave⟩ := exists_reachable_two
  have first : 4216 ∈ σ.live := live ▸ List.mem_cons_self ..
  have second : 4136 ∈ σ.live := live ▸ List.mem_cons_of_mem _ (List.mem_cons_self ..)
  obtain ⟨⟨-, apart⟩, seated, -, served, -⟩ := reachable_isolated reachable
  obtain ⟨σ', run, spares, dealings⟩ := served .shrink trivial
  rw [run] at leave
  exact ⟨σ, σ', live, seated _ first, seated _ second, apart _ first _ second (by decide), run,
    four, Option.some.inj leave, fun p hp => spares p hp nofun, dealings⟩

end LayeredMemory.Cache
