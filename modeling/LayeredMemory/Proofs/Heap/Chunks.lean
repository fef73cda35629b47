import LayeredMemory.Proofs.Heap.Session
import LayeredMemory.Proofs.Layer.Hosted
import LayeredMemory.Proofs.Layer.Watched

/-!
# Chunks — heaps that grow from an allocator

A source of chunks asks its allocator for one block a request and hands it over whole. It honours
the contract of a growth source over any allocator that honours the contract of an allocator
(`Chunked.contract`): the chunks are leases, and the heap works in them. A heap may also be given
extents of other origin, as long as they are no business of the allocator (`Ignores`).

* `chunkLayout?_eq`: a request is rounded up to granules, and goes no further if it is too large.
* `Holds`: the chunks of a source are what its allocator handed out, and it asked for nothing else.
* `Holds.request_spec`: a request is answered with a block that is long enough, or with nothing.
* `Holds.close_spec`: in the end every chunk is given back, once and in order.
* `reachable_chunks`: so it is after every run of a heap.
-/

namespace LayeredMemory

/-- The lease that a call made, if it made one. -/
def Call.lease? : Call → Option Lease
  | .acquire layout (some b) => some ⟨b, layout⟩
  | _ => none

/-- The leases that some calls made, the latest call first; the first lease first. -/
def Call.leases (calls : List Call) : List Lease :=
  calls.reverse.filterMap Call.lease?

theorem Call.leases_cons (call : Call) (calls : List Call) :
    Call.leases (call :: calls) = Call.leases calls ++ call.lease?.toList := by
  unfold Call.leases
  rw [List.reverse_cons, List.filterMap_append, List.filterMap_cons]
  cases call.lease? <;> rfl

theorem Call.length_leases (calls : List Call) :
    (Call.leases calls).length = calls.countP Call.isAcquired := by
  induction calls with
  | nil => rfl
  | cons call calls ih =>
    rw [Call.leases_cons, List.length_append, ih, List.countP_cons]
    rcases call with ⟨layout, _ | b⟩ | _ | _ <;> rfl

/-- The chunk that a lease is. -/
def Lease.chunk (l : Lease) : Chunk :=
  ⟨l.block.ptr, l.layout⟩

/-- The call that gives a lease back. -/
def Lease.returned (l : Lease) : Call :=
  .release l.block.ptr l.layout

variable {α : Type} [Allocator α]

/-- Some extents are no business of the allocator, whatever it is asked for and whatever is written
there. -/
structure AllocatorContract.Ignores (K : AllocatorContract α) (F : Multiset Extent) : Prop where
  frame : ∀ {a m m' L}, K.Ready a m L → m.ChangedIn m' (leased L + F) → K.Ready a m' L
  acquire : ∀ {a m L} (layout : Layout), K.Ready a m L → 0 < layout.size →
    Action.Meets (Allocator.acquire layout) ⟨a, m⟩ (fun _ s => m.Keeps s.memory F)
      (fun _ s => m.Keeps s.memory F)

/-- No extents at all are no business of any allocator. -/
theorem AllocatorContract.ignores_zero (K : AllocatorContract α) : K.Ignores 0 where
  frame ready changed := K.frame ready (add_zero (leased _) ▸ changed)
  acquire layout ready pos :=
    (K.acquire layout ready pos).mono (fun _ _ _ => nofun) fun _ _ _ => nofun

namespace Chunked

/-- The layout asks for whole granules, and for no more of them than so many bytes take. -/
structure Rounds (layout : Layout) (least : Nat) : Prop where
  size : layout.size = (least + 15) / 16 * 16
  align : layout.align = 16

/-- **Rounding**: the layout of a chunk is the one that rounds what was asked for, unless objects
cannot be so large. -/
theorem chunkLayout?_eq {α : Type} (g : Chunked α) (n : Nat) :
    2 ^ 63 - 16 < max n g.chunk ∧ g.chunkLayout? n = none ∨
      ∃ layout, g.chunkLayout? n = some layout ∧ Rounds layout (max n g.chunk) := by
  have powerOfTwo : Align.isPowerOfTwo 16 = true := rfl
  have bound : Word.bound = 2 ^ 64 := rfl
  have most : Word.signedMax = 2 ^ 63 - 1 := rfl
  unfold chunkLayout?
  rw [granule_eq]
  by_cases word : max n g.chunk + (16 - 1) < Word.bound
  · rw [Align.ceil?_eq powerOfTwo word, Option.bind_eq_bind, Option.bind_some]
    cases layout : Layout.of? ((max n g.chunk + (16 - 1)) / 16 * 16) 16 with
    | some l =>
      obtain ⟨size, align⟩ := Layout.of?_eq_some_iff.mp layout
      exact .inr ⟨l, rfl, size, align⟩
    | none =>
      refine .inl ⟨?_, rfl⟩
      by_contra small
      have fits : (max n g.chunk + (16 - 1)) / 16 * 16 ≤ Word.signedMax - (16 - 1) := by omega
      have made := Layout.of?_eq_some_iff (l := ⟨_, 16, powerOfTwo, fits⟩).mpr ⟨rfl, rfl⟩
      rw [layout] at made
      cases made
  · rw [Align.ceil?_eq_none (Nat.le_of_not_lt word)]
    exact .inl ⟨by omega, rfl⟩

variable {K : AllocatorContract α} {F : Multiset Extent} {chunk : Nat} {g : Chunked (Watched α)}
  {m m' : Memory} {ls : List Lease} {held : List Extent}

/-- What comes of a request for `least` bytes. One that is too large is not passed on. Any other is
one call of the allocator; the block that it answers with, if any, is the answer as a whole. -/
inductive Answers (g : Chunked (Watched α)) (least : Nat) :
    Option Extent → Chunked (Watched α) → Prop
  | unasked (large : 2 ^ 63 - 16 < least) : Answers g least none g
  | refused {a : α} {layout : Layout} (rounds : Rounds layout least) :
      Answers g least none { g with allocator := ⟨a, .acquire layout none :: g.allocator.calls⟩ }
  | served {a : α} {layout : Layout} {b : Block} (rounds : Rounds layout least)
      (aligned : 16 ∣ b.ptr) (room : least ≤ b.len) :
      Answers g least (some b.extent)
        { g with
          allocator := ⟨a, .acquire layout (some b) :: g.allocator.calls⟩
          acquired := g.acquired ++ [⟨b.ptr, layout⟩] }

/-- The chunks are leases of the allocator, all that it handed out, and it was asked for nothing
else. -/
structure Holds (K : AllocatorContract α) (chunk : Nat) (g : Chunked (Watched α)) (m : Memory)
    (ls : List Lease) : Prop where
  ready : (Watched.contract K).Ready g.allocator m ls
  least : g.chunk = max chunk granule
  acquired : g.acquired = ls.map Lease.chunk
  leases : Call.leases g.allocator.calls = ls
  asked : ∀ call ∈ g.allocator.calls, ∃ layout block, call = .acquire layout block

/-- A source of chunks before its first request. -/
theorem Holds.new {a : α} (ready : K.Ready a m 0) :
    (Chunked.new (⟨a, []⟩ : Watched α) chunk).Holds K chunk m [] :=
  ⟨⟨ready, .nil⟩, rfl, rfl, rfl, nofun⟩

/-- **A request** is answered with a block of the allocator, which is then one more chunk, or with
nothing. -/
theorem Holds.request_spec (holds : g.Holds K chunk m ls) (off : K.Ignores F) (n : Nat) :
    ∃ (made : Option Lease) (g' : Chunked (Watched α)) (m' : Memory),
      GrowthSource.request n ⟨g, m⟩ = .ok (made.map Lease.extent) ⟨g', m'⟩ ∧
      Answers g (max n (max chunk 16)) (made.map Lease.extent) g' ∧
      m.Keeps m' (leased ls + F) ∧ g'.Holds K chunk m' (ls ++ made.toList) ∧
      ∀ l ∈ made, l.extent.Valid := by
  obtain ⟨⟨ready, out⟩, least, acquired, leases, asked⟩ := holds
  have least' : g.chunk = max chunk 16 := least
  show ∃ made g' m', (Action.part >>= fun g : Chunked (Watched α) => _) _ = _ ∧ _
  rw [Action.part_bind]
  rcases g.chunkLayout?_eq n with ⟨large, unfit⟩ | ⟨layout, fit, rounds⟩
  · refine ⟨none, g, m, ?_, .unasked (least' ▸ large), .refl _ _, ?_, nofun⟩
    · rw [unfit]
      rfl
    · rw [Option.toList_none, List.append_nil]
      exact ⟨⟨ready, out⟩, least, acquired, leases, asked⟩
  rw [fit]
  rw [least'] at rounds
  have size := rounds.size
  have pos : 0 < layout.size := by omega
  rcases ((K.acquire layout ready pos).and (off.acquire layout ready pos)).cases with
    ⟨b, ⟨a, m'⟩, run, ⟨fits, kept, ready'⟩, kept'⟩ | ⟨f, ⟨a, m'⟩, run, ⟨kept, ready'⟩, kept'⟩
  · have run : below (Allocator.acquire layout) ⟨g, m⟩ = .ok b _ :=
      Action.within_of_ok (Watched.noting_of_ok run)
    have long : layout.size ≤ b.len := fits.size_le
    have room : max n (max chunk 16) ≤ b.len := by omega
    have added : ((ls ++ [⟨b, layout⟩] : List Lease) : Multiset Lease) = ⟨b, layout⟩ ::ₘ ls :=
      Multiset.coe_eq_coe.mpr (List.perm_append_singleton _ ls)
    refine ⟨some ⟨b, layout⟩, _, m', Action.bind_of_ok (Action.attempt_of_ok run),
      .served (a := a) rounds (rounds.align ▸ fits.aligned) room, kept.add kept',
      ⟨?_, least, ?_, ?_, List.forall_mem_cons.mpr ⟨⟨layout, _, rfl⟩, asked⟩⟩, ?_⟩
    · exact added ▸ ⟨ready', .acquire out⟩
    · rw [List.map_append, ← acquired]
      rfl
    · rw [Call.leases_cons, leases]
      rfl
    · rintro _ ⟨⟩
      exact fits.valid
  · have run : below (Allocator.acquire layout) ⟨g, m⟩ = .error (.fault f) _ :=
      Action.within_of_error (Watched.noting_of_fault run)
    refine ⟨none, _, m', Action.bind_of_ok (Action.attempt_of_fault run),
      .refused (a := a) rounds, kept.add kept', ?_, nofun⟩
    rw [Option.toList_none, List.append_nil]
    refine ⟨⟨ready', .refuse out⟩, least, acquired, ?_,
      List.forall_mem_cons.mpr ⟨⟨layout, _, rfl⟩, asked⟩⟩
    rw [Call.leases_cons, leases]
    exact List.append_nil ls

/-! ### A growth source -/

/-- Every byte that the heap holds is one of a chunk, or one of `F`. -/
def Covers (F : Multiset Extent) (ls : List Lease) (held : List Extent) : Prop :=
  ∀ e ∈ held, ∀ x ∈ e, ∃ f ∈ leased ls + F, x ∈ f

theorem Covers.append (covers : Covers F ls held) (made : List Lease) :
    Covers F (ls ++ made) held := by
  intro e he x hx
  obtain ⟨f, hf, inside⟩ := covers e he x hx
  refine ⟨f, Multiset.mem_add.mpr ((Multiset.mem_add.mp hf).imp_left fun lease => ?_), inside⟩
  exact Multiset.map_subset_map (Multiset.coe_subset.mpr (List.subset_append_left ls made)) lease

/-- One more chunk. -/
theorem Covers.concat (covers : Covers F ls held) (l : Lease) :
    Covers F (ls ++ [l]) (held ++ [l.extent]) := by
  intro e he
  rcases List.mem_append.mp he with old | new
  · exact covers.append [l] e old
  · rw [List.mem_singleton.mp new]
    have here : l ∈ ((ls ++ [l] : List Lease) : Multiset Lease) := Multiset.mem_coe.mpr (by simp)
    exact fun x hx => ⟨_, Multiset.mem_add.mpr (.inl (Multiset.mem_map_of_mem _ here)), hx⟩

/-- **A source of chunks honours the contract** of a growth source, if its allocator honours that of
an allocator. -/
def contract (K : AllocatorContract α) (off : K.Ignores F) (chunk : Nat) :
    GrowthContract (Chunked (Watched α)) where
  Ready g m held := ∃ ls, g.Holds K chunk m ls ∧ Covers F ls held
  frame := by
    rintro g m m' held ⟨ls, holds, covers⟩ changed
    have changed : m.ChangedIn m' (leased ls + F) := fun x outside => changed x fun e he hx => by
      obtain ⟨f, hf, inside⟩ := covers e he x hx
      exact outside f hf inside
    exact ⟨ls, { holds with ready := ⟨off.frame holds.ready.1 changed, holds.ready.2⟩ }, covers⟩
  request := by
    rintro g m held n ⟨ls, holds, covers⟩
    obtain ⟨made, g', m', run, -, keeps, holds', valid⟩ := holds.request_spec off n
    refine ⟨_, g', m', run, fun e he x hx => ?_, ⟨_, holds', covers.append _⟩, fun e some => ?_⟩
    · obtain ⟨f, hf, inside⟩ := covers e he x hx
      exact keeps f hf x inside
    · obtain ⟨l, rfl, rfl⟩ := Option.map_eq_some_iff.mp some
      exact ⟨valid l rfl, _, holds', covers.concat l⟩

/-! ### The end -/

/-- Chunks that are leases of an allocator that takes blocks back are given back. -/
theorem releaseAll_run (back : K.TakesBack) {ls : List Lease} :
    ∀ {g : Chunked (Watched α)} {m : Memory}, (Watched.contract K).Ready g.allocator m ls →
      ∃ g' m', releaseAll (ls.map Lease.chunk) ⟨g, m⟩ = .ok () ⟨g', m'⟩ ∧
        g'.allocator.calls = (ls.map Lease.returned).reverse ++ g.allocator.calls ∧
        (Watched.contract K).Ready g'.allocator m' 0 := by
  induction ls with
  | nil => exact fun {g m} ready => ⟨g, m, rfl, rfl, ready⟩
  | cons l ls ih =>
    intro g m ready
    have ready : K.Ready g.allocator.inner m (l ::ₘ ls) ∧ Outstanding _ _ := ready
    rcases (K.release l ready.1 (back _ _ _ ready.1)).cases with
      ⟨_, ⟨a, m₁⟩, run, -, after⟩ | ⟨_, _, _, never⟩
    · have run : below (Allocator.release l.block.ptr l.layout) ⟨g, m⟩ = .ok () _ :=
        Action.within_of_ok (Watched.noting_of_ok run)
      obtain ⟨g', m', rest, calls, ready'⟩ :=
        ih (g := { g with allocator := ⟨a, l.returned :: g.allocator.calls⟩ })
          ⟨after, .release ready.2⟩
      refine ⟨g', m', (Action.bind_of_ok run).trans rest, ?_, ready'⟩
      rw [calls, List.map_cons, List.reverse_cons, List.append_assoc]
      rfl
    · exact never.elim

/-- **In the end** every chunk is given back, if the allocator takes any. -/
theorem Holds.close_spec (holds : g.Holds K chunk m ls) (back : K.TakesBack) :
    ∃ g' m', close ⟨g, m⟩ = .ok () ⟨g', m'⟩ ∧
      g'.allocator.calls = (ls.map Lease.returned).reverse ++ g.allocator.calls ∧
      (Watched.contract K).Ready g'.allocator m' 0 := by
  have can : Allocator.canRelease g.allocator = true := back _ _ _ holds.ready.1
  unfold close
  rw [Action.part_bind, if_pos can, holds.acquired]
  exact releaseAll_run back holds.ready

theorem close_of_not_canRelease (kept : Allocator.canRelease g.allocator = false) :
    close ⟨g, m⟩ = .ok () ⟨g, m⟩ := by
  unfold close
  rw [Action.part_bind, if_neg (by rw [kept]; exact nofun)]
  rfl

end Chunked

namespace Heap

/-- The calls of the allocator from which a heap grows, the latest first. -/
abbrev Session.calls (σ : Session (Chunked (Watched α))) : List Call :=
  σ.heap.growth.allocator.calls

/-- A run of a heap that grew twice, each time from a chunk that another heap handed out. -/
theorem exists_reachable_grown : ∃ (D : Multiset Extent) (m₀ : Memory)
    (σ : Session (Chunked (Watched (Heap NoGrowth)))),
    Reachable (Chunked.contract (Heap.contract NoGrowth.contract D m₀)
        (AllocatorContract.ignores_zero _) 64) σ ∧
      σ.live = [⟨4208, 60⟩, ⟨4128, 24⟩] ∧ σ.heap.growth.chunks = 2 := by
  let fresh : Session NoGrowth := ⟨{ growth := {} }, Memory.zero, []⟩
  have outcome : (do
      let τ ← (fresh.serve (.addPool ⟨4096, 1024⟩)).toOption
      let growth : Chunked (Watched (Heap NoGrowth)) := .new ⟨τ.heap, []⟩ 64
      let σ ← (Session.serve ⟨{ growth }, τ.memory, []⟩ (.malloc 24)).toOption
      let σ ← (σ.serve (.malloc 60)).toOption
      return (σ.live, σ.heap.growth.chunks)) = some ([⟨4208, 60⟩, ⟨4128, 24⟩], 2) := by
    decide +kernel
  obtain ⟨τ, run, outcome⟩ := Action.exists_of_bind outcome
  obtain ⟨σ₁, run₁, outcome⟩ := Action.exists_of_bind outcome
  obtain ⟨σ₂, run₂, outcome⟩ := Action.exists_of_bind outcome
  obtain ⟨live, chunks⟩ := Prod.mk.inj (Option.some.inj outcome)
  have legal : Request.Legal NoGrowth.contract fresh (.addPool ⟨4096, 1024⟩) :=
    ⟨⟨by decide, by decide⟩, fun _ => trivial⟩
  have hosts := ((Reachable.start trivial).serve legal run).sound.hosts
  let K := Heap.contract NoGrowth.contract τ.rooms τ.memory
  have before : Reachable (Chunked.contract K K.ignores_zero 64)
      ⟨{ growth := .new ⟨τ.heap, []⟩ 64 }, τ.memory, []⟩ := .start ⟨[], .new hosts, nofun⟩
  have before₁ := before.serve (r := .malloc 24) trivial run₁
  exact ⟨τ.rooms, τ.memory, σ₂, before₁.serve (r := .malloc 60) trivial run₂, live, chunks⟩

/-- **Growing leaks nothing** and gives nothing back twice. After every run of a heap that grows
from an allocator, a request for room is answered with nothing or with a whole block, aligned and
long enough; and if a request of a client made the heap ask for room, that was one such request.
The chunks are the blocks that the allocator handed out, it was asked for nothing else, and in the
end it gets all of them back, once and the first one first, if it takes any. -/
theorem reachable_chunks {K : AllocatorContract α} {F : Multiset Extent} {off : K.Ignores F}
    {chunk : Nat} {σ : Session (Chunked (Watched α))}
    (reachable : Reachable (Chunked.contract K off chunk) σ) :
    (∀ n, ∃ answer s', GrowthSource.request n ⟨σ.heap.growth, σ.memory⟩ = .ok answer s' ∧
        Chunked.Answers σ.heap.growth (max n (max chunk 16)) answer s'.part) ∧
      (∀ (r : Request) (σ' : Session _), r.Legal (Chunked.contract K off chunk) σ →
        σ.serve r = .ok σ' → σ'.heap.growth = σ.heap.growth ∨ ∃ n answer,
          Chunked.Answers σ.heap.growth (max n (max chunk 16)) answer σ'.heap.growth) ∧
      σ.heap.growth.chunks = σ.calls.countP Call.isAcquired ∧
      (∀ call ∈ σ.calls, ∃ layout block, call = .acquire layout block) ∧
      (Allocator.canRelease σ.heap.growth.allocator = false →
        ∃ s', onGrowth Chunked.close ⟨σ.heap, σ.memory⟩ = .ok () s' ∧
          s'.part.growth.allocator.calls = σ.calls) ∧
      (K.TakesBack → ∃ s', onGrowth Chunked.close ⟨σ.heap, σ.memory⟩ = .ok () s' ∧
        s'.part.growth.allocator.calls =
          ((Call.leases σ.calls).map Lease.returned).reverse ++ σ.calls ∧
        Outstanding s'.part.growth.allocator.calls 0 ∧
        K.Ready s'.part.growth.allocator.inner s'.memory 0) := by
  obtain ⟨ls, holds, -⟩ := reachable.sound.alone.ready
  have answered (n : Nat) : ∃ answer s',
      GrowthSource.request n ⟨σ.heap.growth, σ.memory⟩ = .ok answer s' ∧
        Chunked.Answers σ.heap.growth (max n (max chunk 16)) answer s'.part := by
    obtain ⟨made, g, m, run, answers, -⟩ := holds.request_spec off n
    exact ⟨_, _, run, answers⟩
  refine ⟨answered, fun r σ' legal served => ?asked, ?chunks, holds.asked, fun takes => ?kept,
    fun back => ?closed⟩
  case asked =>
    obtain ⟨τ, run, steps⟩ := Session.serve_spec reachable.sound legal
    rw [served] at run
    cases run
    obtain ⟨_, ⟨-, same⟩ | ⟨k, -, need, answer, -, run⟩, -⟩ := steps.spares.outside
    · exact .inl same
    · obtain ⟨answer', s', run', answers⟩ := answered (need + (granule + Word.bytes))
      rw [run] at run'
      cases run'
      exact .inr ⟨_, answer, answers⟩
  case chunks =>
    have chunks : σ.heap.growth.acquired.length = (Call.leases σ.calls).length := by
      rw [holds.acquired, List.length_map, holds.leases]
    exact chunks.trans (Call.length_leases _)
  case kept => exact ⟨_, onGrowth_of_ok (Chunked.close_of_not_canRelease takes), rfl⟩
  case closed =>
    obtain ⟨g', m', run, calls, ready⟩ := holds.close_spec back
    exact ⟨_, onGrowth_of_ok run, by rw [holds.leases]; exact calls, ready.2, ready.1⟩

theorem reachable_chunks_two : ∃ (σ : Session (Chunked (Watched (Heap NoGrowth)))),
    σ.live = [⟨4208, 60⟩, ⟨4128, 24⟩] ∧ σ.calls.countP Call.isAcquired = 2 ∧
      ∃ s', onGrowth Chunked.close ⟨σ.heap, σ.memory⟩ = .ok () s' ∧
        Outstanding s'.part.growth.allocator.calls 0 := by
  obtain ⟨D, m₀, σ, reachable, live, two⟩ := exists_reachable_grown
  obtain ⟨-, -, chunks, -, -, closed⟩ := reachable_chunks reachable
  obtain ⟨s', run, -, none, -⟩ := closed fun _ _ _ _ => rfl
  exact ⟨σ, live, chunks.symm.trans two, s', run, none⟩

end Heap

end LayeredMemory
