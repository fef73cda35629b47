import LayeredMemory.Proofs.Heap.Service

/-!
# Heap sessions — whole runs of a heap and its clients

A session is a heap, its memory, and the blocks that its clients hold. Clients make requests and
write into the payloads that they hold, in any order and any number; what they may ask for depends
on what they hold (`Request.Legal`). `Reachable` are the sessions that come about so, from a heap
without segments and over any growth source that honours its contract.

* `Session.Sound`: the invariant, the heap lends exactly what the clients hold.
* `Session.serve_spec`: every legal request is served, or refused with a fault, and keeps the
  invariant; `Spares` is what it leaves alone.
* `Reachable.sound`: so the invariant holds after every run.
* `reachable_valid`: no request stops, and validation succeeds after every run with the expected
  sums.
* `reachable_apart`: what clients hold never overlaps, and nobody else's bytes change.
-/

namespace LayeredMemory.Heap

/-- A block that a client holds: where it starts, and how many bytes it was last asked for. -/
structure Held where
  ptr : Nat
  size : Nat
  deriving DecidableEq, Repr

/-- The payload of a held block. -/
def Held.room (b : Held) : Extent :=
  ⟨b.ptr, (blockSizeFor b.size).getD 0 - 8⟩

theorem Held.room_eq {p n size : Nat} (h : blockSizeFor n = some size) :
    (⟨p, n⟩ : Held).room = ⟨p, size - 8⟩ := by
  unfold room
  rw [h, Option.getD_some]

/-- What a client can ask of a heap. -/
inductive Request where
  | addPool (e : Extent)
  | malloc (n : Nat)
  | mallocZeroed (n : Nat)
  | free (ptr : Nat)
  | tryFree (ptr : Nat)
  | realloc (ptr n : Nat)
  deriving DecidableEq, Repr

/-- The block that a request frees or resizes. -/
def Request.target : Request → Option Nat
  | .free ptr | .tryFree ptr | .realloc ptr _ => some ptr
  | .addPool _ | .malloc _ | .mallocZeroed _ => none

/-- The bytes for which a request may need room. -/
def Request.wanted : Request → Option Nat
  | .malloc n | .mallocZeroed n | .realloc _ n => some n
  | .addPool _ | .free _ | .tryFree _ => none

/-- A heap, its memory, and what its clients hold. -/
structure Session (γ : Type) where
  heap : Heap γ
  memory : Memory
  live : List Held := []

namespace Session

variable {γ : Type} {σ σ' : Session γ}

/-- Runs an operation of the heap; after an answer the clients hold `held`, after a fault what they
held before. -/
def run {β : Type} (σ : Session γ) (x : Action (Heap γ) β) (held : β → List Held) :
    Except Stop (Session γ) :=
  x.conclude ⟨σ.heap, σ.memory⟩ (fun a s => ⟨s.part, s.memory, held a⟩)
    fun _ s => ⟨s.part, s.memory, σ.live⟩

/-- What the clients hold without the block at `ptr`. -/
def without (σ : Session γ) (ptr : Nat) : List Held :=
  σ.live.eraseP (·.ptr == ptr)

/-- Serves a request, unless the heap stops. -/
def serve [GrowthSource γ] (σ : Session γ) : Request → Except Stop (Session γ)
  | .addPool e => σ.run (addPool e) fun _ => σ.live
  | .malloc n => σ.run (malloc n) fun p => ⟨p, n⟩ :: σ.live
  | .mallocZeroed n => σ.run (mallocZeroed n) fun p => ⟨p, n⟩ :: σ.live
  | .free ptr => σ.run (free ptr) fun _ => σ.without ptr
  | .tryFree ptr => σ.run (tryFree ptr) fun _ => σ.without ptr
  | .realloc ptr n => σ.run (realloc ptr n) fun p => ⟨p, n⟩ :: σ.without ptr

/-- A client writes a byte. -/
def write (σ : Session γ) (a : Nat) (b : UInt8) : Session γ :=
  { σ with memory := σ.memory.write a b }

/-- The address is a usable byte of a block that a client holds. -/
def Usable (σ : Session γ) (a : Nat) : Prop :=
  ∃ b ∈ σ.live, ∃ n, usableSize σ.memory b.ptr = .ok n ∧ b.ptr ≤ a ∧ a < b.ptr + n

/-- The payloads that the clients hold. -/
def rooms (σ : Session γ) : Multiset Extent :=
  (σ.live.map Held.room : List Extent)

theorem mem_rooms {b : Held} (hb : b ∈ σ.live) : b.room ∈ σ.rooms :=
  Multiset.mem_coe.mpr (List.mem_map_of_mem hb)

/-- A held block among the others, next to what other clients hold. -/
theorem exists_held {ptr : Nat} (held : ∃ b ∈ σ.live, b.ptr = ptr) (B : Multiset Extent) :
    ∃ d ∈ σ.live, d.ptr = ptr ∧ (∀ b ∈ σ.live, b.ptr ≠ ptr → b ∈ σ.without ptr) ∧
      σ.rooms + B = d.room ::ₘ (((σ.without ptr).map Held.room : List Extent) + B) := by
  obtain ⟨b, hb, here⟩ := held
  obtain ⟨d, front, back, -, at_ptr, split, erased⟩ :=
    List.exists_of_eraseP (p := (·.ptr == ptr)) hb (beq_iff_eq.mpr here)
  have erased : σ.without ptr = front ++ back := erased
  have rooms : σ.rooms = d.room ::ₘ ((σ.without ptr).map Held.room : List Extent) := by
    unfold Session.rooms
    rw [split, erased, Multiset.cons_coe, Multiset.coe_eq_coe, ← List.map_cons]
    exact List.perm_middle.map _
  refine ⟨d, ?_, beq_iff_eq.mp at_ptr, fun b hb ne => ?_, ?_⟩
  · rw [split]
    exact List.mem_append_right _ List.mem_cons_self
  · exact (List.mem_eraseP_of_neg (by simpa using ne)).mpr hb
  · rw [rooms, Multiset.cons_add]

/-- A usable byte is one of a held block's payload. -/
theorem Usable.exists_room {a : Nat} {B : Multiset Extent} (usable : σ.Usable a)
    (lends : σ.heap.Lends σ.memory (σ.rooms + B)) :
    ∃ e L, σ.rooms + B = e ::ₘ (L + B) ∧ e.start ≤ a ∧ a + 1 ≤ e.start + e.len := by
  obtain ⟨d, hd, n, room, lo, hi⟩ := usable
  -- The block at `d`'s address among the others; that it is `d` itself is not needed.
  obtain ⟨e, -, start, -, same⟩ := exists_held ⟨d, hd, rfl⟩ B
  have start : e.room.start = d.ptr := start
  rw [same] at lends
  rw [← start, lends.usableSize_eq (Multiset.mem_cons_self _ _)] at room
  cases room
  exact ⟨e.room, _, same, by omega, by omega⟩

end Session

section Contract

variable {γ : Type} [GrowthSource γ] (C : GrowthContract γ)

/-- Requests that a client may make. An extent must be valid and, if it is apart from the segments,
no business of the growth source any more; a pointer must be that of a block that the client
holds. -/
def Request.Legal (σ : Session γ) : Request → Prop
  | .addPool e => e.Valid ∧ ((∀ f ∈ σ.heap.extents, f.Apart e) →
      C.Ready σ.heap.growth σ.memory (σ.heap.extents ++ [e]))
  | .malloc _ | .mallocZeroed _ => True
  | .free ptr | .tryFree ptr | .realloc ptr _ => ∃ b ∈ σ.live, b.ptr = ptr

/-- The sessions that come about: from a heap without segments, by requests and writes in any
order. -/
inductive Reachable : Session γ → Prop
  | start {config : HeapConfig} {growth : γ} {memory : Memory} (ready : C.Ready growth memory []) :
      Reachable ⟨{ config, growth }, memory, []⟩
  | serve {σ σ' : Session γ} {r : Request} (before : Reachable σ) (legal : r.Legal C σ)
      (served : σ.serve r = .ok σ') : Reachable σ'
  | write {σ : Session γ} {a : Nat} {b : UInt8} (before : Reachable σ) (usable : σ.Usable a) :
      Reachable (σ.write a b)

/-- The heap lends exactly what the clients hold, and `B` to others. -/
structure Session.Sound (B : Multiset Extent) (σ : Session γ) : Prop where
  serves : σ.heap.Serves C σ.memory (σ.rooms + B)
  sized : ∀ b ∈ σ.live, ∃ size, blockSizeFor b.size = some size

/-- What a request leaves alone: the payload of every held block but its target's, and all bytes
outside the segments but those that the growth source writes. A block that is resized keeps what it
holds, as far as there is room, and is as it was if it cannot be resized. -/
structure Session.Spares (σ : Session γ) (r : Request) (σ' : Session γ) : Prop where
  payloads : ∀ b ∈ σ.live, r.target ≠ some b.ptr → ∀ x ∈ b.room, σ'.memory.read x = σ.memory.read x
  outside : ∃ m₁, Asked r.wanted σ.heap σ.memory σ'.heap m₁ ∧ m₁.ChangedIn σ'.memory σ'.heap.extents
  resized : ∀ ptr n, r = .realloc ptr n → ∃ b ∈ σ.live, b.ptr = ptr ∧
    ((∃ q, σ'.live = ⟨q, n⟩ :: σ.without ptr ∧
        ∀ i < min b.room.len n, σ'.memory.read (q + i) = σ.memory.read (ptr + i)) ∨
      σ'.live = σ.live ∧ ∀ x ∈ b.room, σ'.memory.read x = σ.memory.read x)

variable {C} {σ σ' : Session γ} {r : Request} {B : Multiset Extent}

namespace Session

/-! ### One request -/

theorem Sound.size_le (sound : σ.Sound C B) {b : Held} (hb : b ∈ σ.live) : b.size ≤ b.room.len := by
  obtain ⟨size, fit⟩ := sound.sized b hb
  obtain ⟨-, room, -⟩ := blockSizeFor_spec fit
  unfold Held.room
  rw [fit]
  dsimp only [Option.getD_some]
  omega

/-- Where nobody else holds anything. -/
theorem Sound.alone (sound : σ.Sound C 0) : σ.heap.Serves C σ.memory σ.rooms :=
  add_zero σ.rooms ▸ sound.serves

/-- What happens to a session in one request. -/
structure Steps (C : GrowthContract γ) (B : Multiset Extent) (σ : Session γ) (r : Request)
    (σ' : Session γ) : Prop where
  sound : σ'.Sound C B
  spares : σ.Spares r σ'
  others : σ.memory.Keeps σ'.memory B

/-- After an operation that handed out nothing, or failed. -/
theorem Sound.kept (sound : σ.Sound C B)
    (held : ∀ ptr n, r = .realloc ptr n → ∃ b ∈ σ.live, b.ptr = ptr)
    {h : Heap γ} {m : Memory}
    (w : Served C r.wanted σ.heap σ.memory (σ.rooms + B) h m (σ.rooms + B)) :
    Steps C B σ r ⟨h, m, σ.live⟩ := by
  have stays {b : Held} (hb : b ∈ σ.live) : ∀ x ∈ b.room, m.read x = σ.memory.read x :=
    w.keeps _ (Multiset.mem_add.mpr (.inl (mem_rooms hb)))
  refine ⟨⟨w.serves, sound.sized⟩, ⟨fun b hb _ => stays hb, w.changed, fun ptr n same => ?_⟩,
    w.keeps.mono (Multiset.subset_of_le (Multiset.le_add_left ..))⟩
  obtain ⟨b, hb, here⟩ := held ptr n same
  exact ⟨b, hb, here, .inr ⟨rfl, stays hb⟩⟩

/-- After an operation that handed out a block. -/
theorem Sound.added (sound : σ.Sound C B) (fresh : r.target = none) {h : Heap γ} {m : Memory}
    {p n size : Nat} (fit : blockSizeFor n = some size)
    (w : Served C r.wanted σ.heap σ.memory (σ.rooms + B) h m (⟨p, size - 8⟩ ::ₘ (σ.rooms + B))) :
    Steps C B σ r ⟨h, m, ⟨p, n⟩ :: σ.live⟩ := by
  refine ⟨⟨?_, ?_⟩,
    ⟨fun b hb _ => w.keeps _ (Multiset.mem_add.mpr (.inl (mem_rooms hb))), w.changed, ?_⟩,
    w.keeps.mono (Multiset.subset_of_le (Multiset.le_add_left ..))⟩
  · have := w.serves
    rw [← Held.room_eq fit, ← Multiset.cons_add] at this
    exact this
  · exact List.forall_mem_cons.mpr ⟨⟨size, fit⟩, sound.sized⟩
  · rintro ptr n rfl
    cases fresh

/-- After an operation that took the block at `ptr` back, and may have handed out others. -/
theorem Sound.taken (sound : σ.Sound C B) {h : Heap γ} {m : Memory} {ptr : Nat} {held : List Held}
    (target : r.target = some ptr) (others : ∀ b ∈ σ.live, b.ptr ≠ ptr → b ∈ σ.without ptr)
    (sized : ∀ b ∈ held, b ∉ σ.without ptr → ∃ size, blockSizeFor b.size = some size)
    (w : Served C r.wanted σ.heap σ.memory (((σ.without ptr).map Held.room : List Extent) + B) h m
      ((held.map Held.room : List Extent) + B))
    (resized : ∀ ptr' n, r = .realloc ptr' n → ∃ b ∈ σ.live, b.ptr = ptr' ∧ ∃ q,
      held = ⟨q, n⟩ :: σ.without ptr' ∧
        ∀ i < min b.room.len n, m.read (q + i) = σ.memory.read (ptr' + i)) :
    Steps C B σ r ⟨h, m, held⟩ := by
  refine ⟨⟨w.serves, fun b hb => ?_⟩, ⟨fun b hb ne x hx => w.keeps b.room ?_ x hx, w.changed, ?_⟩,
    w.keeps.mono (Multiset.subset_of_le (Multiset.le_add_left ..))⟩
  · by_cases old : b ∈ σ.without ptr
    · exact sound.sized b (List.mem_of_mem_eraseP old)
    · exact sized b hb old
  · rw [target] at ne
    refine Multiset.mem_add.mpr (.inl (Multiset.mem_coe.mpr (List.mem_map_of_mem (others b hb ?_))))
    exact fun e => ne (congrArg some e.symm)
  · intro ptr' n same
    obtain ⟨b, hb, here, q, live, kept⟩ := resized ptr' n same
    exact ⟨b, hb, here, .inl ⟨q, live, kept⟩⟩

/-- **Every legal request** is served or refused with a fault. The heap lends what the clients hold
again, and nothing changes that the request is not about. -/
theorem serve_spec (sound : σ.Sound C B) (legal : r.Legal C σ) :
    ∃ σ', σ.serve r = .ok σ' ∧ Steps C B σ r σ' := by
  cases r with
  | addPool e =>
    exact (addPool_served sound.serves legal.1 legal.2).conclude
      (fun _ _ w => sound.kept (r := .addPool e) nofun w)
      fun _ _ w => sound.kept (r := .addPool e) nofun w
  | malloc n =>
    exact (malloc_spec sound.serves n).conclude
      (fun _ _ ⟨_, fit, w⟩ => sound.added (r := .malloc n) rfl fit w)
      fun _ _ w => sound.kept (r := .malloc n) nofun w.served
  | mallocZeroed n =>
    exact (mallocZeroed_spec sound.serves n).conclude
      (fun _ _ ⟨_, fit, w, _⟩ => sound.added (r := .mallocZeroed n) rfl fit w)
      fun _ _ w => sound.kept (r := .mallocZeroed n) nofun w.served
  | free ptr =>
    obtain ⟨d, -, rfl, others, same⟩ := exists_held legal B
    exact (free_spec (same ▸ sound.serves)).conclude
      (fun _ _ w => sound.taken (r := .free d.ptr) rfl others
        (fun b hb old => absurd hb old) w nofun)
      fun _ _ never => never.elim
  | tryFree ptr =>
    obtain ⟨d, -, rfl, others, same⟩ := exists_held legal B
    exact (tryFree_spec (same ▸ sound.serves)).conclude
      (fun _ _ w => sound.taken (r := .tryFree d.ptr) rfl others
        (fun b hb old => absurd hb old) w nofun)
      fun _ _ never => never.elim
  | realloc ptr n =>
    obtain ⟨d, hd, rfl, others, same⟩ := exists_held legal B
    refine (realloc_spec (same ▸ sound.serves) n).conclude (fun q s ⟨size, fit, w, moved⟩ => ?_)
      fun _ _ w => sound.kept (r := .realloc d.ptr n) ?_ (same ▸ w.served)
    · rintro _ _ ⟨⟩
      exact ⟨d, hd, rfl⟩
    · rw [← Held.room_eq fit, ← Multiset.cons_add] at w
      refine sound.taken (r := .realloc d.ptr n) rfl others (fun b hb old => ?_) w ?_
      · rcases List.mem_cons.mp hb with rfl | hb
        · exact ⟨size, fit⟩
        · exact absurd hb old
      · rintro _ _ ⟨⟩
        exact ⟨d, hd, rfl, q, rfl, moved⟩

/-- What a client writes into its payloads is its own matter. -/
theorem Sound.write (sound : σ.Sound C B) {a : Nat} {b : UInt8} (usable : σ.Usable a) :
    (σ.write a b).Sound C B ∧ σ.memory.Keeps (σ.memory.write a b) B := by
  obtain ⟨e, L, same, lo, hi⟩ := usable.exists_room sound.serves.lends
  have serves := same ▸ sound.serves
  have w := serves.lends.write (σ.memory.changedWithin_write a b) lo hi
  exact ⟨⟨same ▸ w.serves serves, sound.sized⟩,
    w.keeps.mono (Multiset.subset_of_le (Multiset.le_add_left ..))⟩

end Session

/-! ### Whole runs -/

/-- **The invariant of every run.** -/
theorem Reachable.sound (reachable : Reachable C σ) : σ.Sound C 0 := by
  induction reachable with
  | start ready =>
    exact ⟨⟨.new, ready, Nat.le_refl 0⟩, nofun⟩
  | serve before legal served ih =>
    obtain ⟨σ', run, steps⟩ := Session.serve_spec ih legal
    rw [served] at run
    cases run
    exact steps.sound
  | write before usable ih => exact (ih.write usable).1

/-- A run without growth: one segment, and two blocks handed out. -/
theorem exists_reachable_two : ∃ σ : Session NoGrowth, Reachable NoGrowth.contract σ ∧
    σ.live = [⟨4144, 8⟩, ⟨4112, 24⟩] ∧ σ.heap.segments.length = 1 := by
  let fresh : Session NoGrowth := ⟨{ growth := {} }, Memory.zero, []⟩
  have before : Reachable NoGrowth.contract fresh := .start trivial
  have outcome : (do
      let σ ← (fresh.serve (.addPool ⟨4096, 128⟩)).toOption
      let σ ← (σ.serve (.malloc 24)).toOption
      let σ ← (σ.serve (.mallocZeroed 8)).toOption
      return (σ.live, σ.heap.segments.length)) = some ([⟨4144, 8⟩, ⟨4112, 24⟩], 1) := by
    decide +kernel
  obtain ⟨σ₁, run₁, outcome⟩ := Action.exists_of_bind outcome
  obtain ⟨σ₂, run₂, outcome⟩ := Action.exists_of_bind outcome
  obtain ⟨σ₃, run₃, outcome⟩ := Action.exists_of_bind outcome
  obtain ⟨live, segments⟩ := Prod.mk.inj (Option.some.inj outcome)
  have legal : Request.Legal NoGrowth.contract fresh (.addPool ⟨4096, 128⟩) :=
    ⟨⟨by decide, by decide⟩, fun _ => trivial⟩
  have before₂ := (before.serve legal run₁).serve (r := .malloc 24) trivial run₂
  exact ⟨σ₃, before₂.serve (r := .mallocZeroed 8) trivial run₃, live, segments⟩

/-- **Runs are consistent.** After every run, every legal request is served or refused with a fault;
the segments are tiled by blocks with all their tags in order, those allocated are what the clients
hold, no two free ones are adjacent, and the cursor is at a boundary; validation succeeds, its
report adds up, and no count outgrows a word. -/
theorem reachable_valid (reachable : Reachable C σ) :
    (∀ r : Request, r.Legal C σ → ∃ σ', σ.serve r = .ok σ') ∧
      (∃ parts, σ.heap.InOrder σ.memory parts ∧ σ.heap.blocks σ.memory = .ok (blocksIn parts) ∧
        lent (blocksIn parts) = σ.rooms ∧
        ∀ t ∈ parts, t.2.IsChain fun b d => b.allocated = true ∨ d.allocated = true) ∧
      ∃ report, σ.heap.validate σ.memory = .ok report ∧
        report.segments = σ.heap.segments.length ∧ report.allocatedBlocks = σ.live.length ∧
        report.allocatedBytes + report.freeBytes = report.totalBytes ∧
        report.totalBytes = Segment.total σ.heap.segments ∧
        ∀ k ∈ [report.segments, report.totalBytes, report.allocatedBytes, report.freeBytes,
            report.allocatedBlocks, report.freeBlocks, σ.heap.growths],
          k < Word.bound := by
  have sound := reachable.sound
  refine ⟨fun r legal => ?_, sound.alone.lends.tiled, ?_⟩
  · obtain ⟨σ', served, -⟩ := Session.serve_spec sound legal
    exact ⟨σ', served⟩
  · obtain ⟨report, run, segments, total, bytes, fewer, blocks⟩ := sound.alone.lends.validate_eq
    rw [Session.rooms, Multiset.coe_card, List.length_map] at blocks
    refine ⟨report, run, segments, blocks, bytes, total, fun k hk => ?_⟩
    have := sound.alone.lends.total_lt
    have := sound.alone.counted
    simp only [List.mem_cons, List.not_mem_nil, or_false] at hk
    omega

theorem reachable_valid_two : ∃ σ : Session NoGrowth, σ.live = [⟨4144, 8⟩, ⟨4112, 24⟩] ∧
    ∃ report, σ.heap.validate σ.memory = .ok report ∧ report.segments = 1 ∧
      report.allocatedBlocks = 2 := by
  obtain ⟨σ, reachable, live, segments⟩ := exists_reachable_two
  obtain ⟨-, -, report, run, pools, blocks, -⟩ := reachable_valid reachable
  rw [segments] at pools
  rw [live] at blocks
  exact ⟨σ, live, report, run, pools, blocks⟩

/-- **Runs are safe.** After every run the payloads of held blocks are apart from each other,
aligned, inside one segment each, and as long as they were last asked to be. Every legal request
leaves alone what it is not about, and a block of zeros is one. -/
theorem reachable_apart (reachable : Reachable C σ) :
    (σ.live.map Held.room).Pairwise Extent.Apart ∧
      (∀ b ∈ σ.live, usableSize σ.memory b.ptr = .ok b.room.len ∧ b.size ≤ b.room.len ∧
        granule ∣ b.ptr ∧ σ.heap.owns b.ptr = true ∧
        ∃ s ∈ σ.heap.segments, s.first ≤ b.ptr ∧ b.ptr + b.room.len ≤ s.stop) ∧
      (∀ (r : Request) (σ' : Session γ), r.Legal C σ → σ.serve r = .ok σ' → σ.Spares r σ') ∧
      ∀ n p s', mallocZeroed n ⟨σ.heap, σ.memory⟩ = .ok p s' →
        ∀ i < n, s'.memory.read (p + i) = 0 := by
  have sound := reachable.sound
  have lends := sound.alone.lends
  refine ⟨lends.pairwise le_rfl, fun b hb => ?_, fun r σ' legal served => ?_,
    fun n p s' run i hi => ?_⟩
  · have mem := Session.mem_rooms hb
    obtain ⟨aligned, -, -, s, hs, -, lo, hi⟩ := lends.bounds mem
    have usable := lends.usableSize_eq mem
    have owns := lends.owns_eq mem
    have start : b.room.start = b.ptr := rfl
    rw [start] at aligned lo hi usable owns
    rw [granule_eq]
    exact ⟨usable, sound.size_le hb, aligned, owns, s, hs, by omega, hi⟩
  · obtain ⟨τ, run, steps⟩ := Session.serve_spec sound legal
    rw [served] at run
    cases run
    exact steps.spares
  · rcases (mallocZeroed_spec sound.serves n).cases with ⟨p', t, run', -, -, -, zero⟩ |
      ⟨f, t, run', -⟩
    · rw [run] at run'
      cases run'
      exact zero i hi
    · rw [run] at run'
      cases run'

theorem reachable_apart_two : ∃ σ : Session NoGrowth, σ.live = [⟨4144, 8⟩, ⟨4112, 24⟩] ∧
    usableSize σ.memory 4144 = .ok 8 ∧ usableSize σ.memory 4112 = .ok 24 ∧
    Extent.Apart ⟨4144, 8⟩ ⟨4112, 24⟩ := by
  obtain ⟨σ, reachable, live, -⟩ := exists_reachable_two
  obtain ⟨apart, rooms, -, -⟩ := reachable_apart reachable
  rw [live] at apart rooms
  have first := (rooms ⟨4144, 8⟩ (by decide)).1
  have second := (rooms ⟨4112, 24⟩ (by decide)).1
  exact ⟨σ, live, first, second, (List.pairwise_pair.mp apart)⟩

end Contract

end LayeredMemory.Heap
