import LayeredMemory.Proofs.Heap.Session
import LayeredMemory.Proofs.Heap.Twins

/-!
# Parallel sessions — what a configuration changes

Two sessions in `Parallel` start with heaps that are configured in any two ways, over any two
memories and growth sources that answer alike, and go through the same requests and the same writes.
Their memories differ from the first block on: each heap fills payloads with its own patterns, or
not at all.

* `Session.Abreast`: the invariant, the heaps are twins and the clients hold the same blocks.
* `Session.Abreast.serve_alike`: what one request does to both.
* `parallel_alike`: whatever a client can learn from a heap it learns from the other one, too. What
  a heap is configured for is no part of that, as long as the clients keep to what they hold.
-/

namespace LayeredMemory.Heap

/-- What a client hears: a pointer, if it asked for one, or why there is none. -/
abbrev Reply : Type :=
  Except Fault (Option Nat)

namespace Session

variable {γ : Type}

/-- What an operation answers. -/
def answer {β : Type} (σ : Session γ) (x : Action (Heap γ) β) (ptr : β → Option Nat) :
    Except Stop Reply :=
  x.conclude ⟨σ.heap, σ.memory⟩ (fun a _ => .ok (ptr a)) fun f _ => .error f

/-- What a client hears of a request, unless the heap stops. -/
def reply [GrowthSource γ] (σ : Session γ) : Request → Except Stop Reply
  | .addPool e => σ.answer (addPool e) fun _ => none
  | .malloc n => σ.answer (malloc n) some
  | .mallocZeroed n => σ.answer (mallocZeroed n) some
  | .free ptr => σ.answer (free ptr) fun _ => none
  | .tryFree ptr => σ.answer (tryFree ptr) fun _ => none
  | .realloc ptr n => σ.answer (realloc ptr n) some

end Session

section Pair

variable {γ δ : Type} [GrowthSource γ] [GrowthSource δ] (P : GrowthPair γ δ)

/-- Requests that the clients of both may make. An extent must be valid and, if it is apart from the
segments, no business of the growth sources any more; a pointer must be that of a block that the
clients hold, unless it is only tried. -/
def Request.LegalIn (σ : Session γ) (τ : Session δ) : Request → Prop
  | .addPool e => e.Valid ∧ ((∀ f ∈ σ.heap.extents, f.Apart e) →
      P.Ready ⟨σ.heap.growth, σ.memory⟩ ⟨τ.heap.growth, τ.memory⟩ (σ.heap.extents ++ [e]))
  | .malloc _ | .mallocZeroed _ | .tryFree _ => True
  | .free ptr | .realloc ptr _ => ∃ b ∈ σ.live, b.ptr = ptr

/-- Sessions that went through the same requests and the same writes, with any two configurations
and over any two memories. -/
inductive Parallel : Session γ → Session δ → Prop
  | start {config config' : HeapConfig} {growth : γ} {growth' : δ} {memory memory' : Memory}
      (ready : P.Ready ⟨growth, memory⟩ ⟨growth', memory'⟩ []) :
      Parallel ⟨{ config, growth }, memory, []⟩
        ⟨{ config := config', growth := growth' }, memory', []⟩
  | serve {σ σ' : Session γ} {τ τ' : Session δ} {r : Request} (before : Parallel σ τ)
      (legal : r.LegalIn P σ τ) (served : σ.serve r = .ok σ') (served' : τ.serve r = .ok τ') :
      Parallel σ' τ'
  | write {σ : Session γ} {τ : Session δ} {a : Nat} {b : UInt8} (before : Parallel σ τ)
      (usable : σ.Usable a) : Parallel (σ.write a b) (τ.write a b)

/-- The heaps are twins, and lend what the clients of either hold. -/
structure Session.Abreast (σ : Session γ) (τ : Session δ) : Prop where
  twins : Twins P ⟨σ.heap, σ.memory⟩ ⟨τ.heap, τ.memory⟩ σ.rooms
  live : τ.live = σ.live

variable {P} {σ : Session γ} {τ : Session δ} {r : Request}

namespace Session

open LayeredMemory.Action (Lockstep)

/-- Operations in lockstep, after which the clients hold the same. -/
theorem alike_of_lockstep {α : Type} {x : Action (Heap γ) α} {y : Action (Heap δ) α}
    {held : α → List Held} (ptr : α → Option Nat) (live : τ.live = σ.live)
    (alike : Lockstep x y ⟨σ.heap, σ.memory⟩ ⟨τ.heap, τ.memory⟩
      (fun a s t => Twins P s t ((held a).map Held.room : List Extent))
      (fun s t => Twins P s t σ.rooms)) :
    ∃ σ' τ' reply, σ.run x held = .ok σ' ∧ τ.run y held = .ok τ' ∧
      σ.answer x ptr = .ok reply ∧ τ.answer y ptr = .ok reply ∧ Abreast P σ' τ' := by
  have served : ∃ σ' τ', σ.run x held = .ok σ' ∧ τ.run y held = .ok τ' ∧ Abreast P σ' τ' :=
    alike.conclude (fun _ _ _ w => ⟨w, rfl⟩) fun _ _ _ w => ⟨w, live⟩
  have heard : ∃ r r', σ.answer x ptr = .ok r ∧ τ.answer y ptr = .ok r' ∧ r = r' :=
    alike.conclude (fun _ _ _ _ => rfl) fun _ _ _ _ => rfl
  obtain ⟨σ', τ', run, run', abreast⟩ := served
  obtain ⟨reply, _, said, said', rfl⟩ := heard
  exact ⟨σ', τ', reply, run, run', said, said', abreast⟩

theorem rooms_cons {p n size : Nat} (fit : blockSizeFor n = some size) (live : List Held) :
    (((⟨p, n⟩ : Held) :: live).map Held.room : Multiset Extent) =
      ⟨p, size - 8⟩ ::ₘ (live.map Held.room : List Extent) := by
  rw [List.map_cons, Held.room_eq fit, Multiset.cons_coe]

/-- **One request.** Both serve it or both refuse it, and they are abreast again. -/
theorem Abreast.serve_alike (abreast : Abreast P σ τ) (legal : r.LegalIn P σ τ) :
    ∃ σ' τ' reply, σ.serve r = .ok σ' ∧ τ.serve r = .ok τ' ∧
      σ.reply r = .ok reply ∧ τ.reply r = .ok reply ∧ Abreast P σ' τ' := by
  obtain ⟨k, n, live⟩ := τ
  obtain ⟨twins, rfl⟩ := abreast
  cases r with
  | addPool e =>
    exact alike_of_lockstep _ rfl
      ((twins.addPool legal.1 legal.2).mono (fun _ _ _ w => w.1) fun _ _ w => w)
  | malloc bytes =>
    exact alike_of_lockstep _ rfl ((twins.malloc bytes).mono
      (fun _ _ _ ⟨_, fit, w⟩ => rooms_cons fit _ ▸ w) fun _ _ w => w)
  | mallocZeroed bytes =>
    exact alike_of_lockstep _ rfl ((twins.mallocZeroed bytes).mono
      (fun _ _ _ ⟨_, fit, w⟩ => rooms_cons fit _ ▸ w) fun _ _ w => w)
  | free ptr =>
    obtain ⟨d, -, rfl, -, same⟩ := exists_held legal 0
    rw [add_zero, add_zero] at same
    exact alike_of_lockstep _ rfl (same ▸ twins).free
  | tryFree ptr =>
    by_cases held : ∃ b ∈ σ.live, b.ptr = ptr
    · obtain ⟨d, -, rfl, -, same⟩ := exists_held held 0
      rw [add_zero, add_zero] at same
      exact alike_of_lockstep _ rfl (same ▸ twins).tryFree
    · refine alike_of_lockstep _ rfl (twins.tryFree_refused fun e he start => held ?_)
      obtain ⟨b, hb, rfl⟩ := List.mem_map.mp (Multiset.mem_coe.mp he)
      exact ⟨b, hb, start⟩
  | realloc ptr bytes =>
    obtain ⟨d, -, rfl, -, same⟩ := exists_held legal 0
    rw [add_zero, add_zero] at same
    exact alike_of_lockstep _ rfl (((same ▸ twins).realloc bytes).mono
      (fun _ _ _ ⟨_, fit, w⟩ => rooms_cons fit _ ▸ w) fun _ _ w => same ▸ w)

/-- What the clients write is their own matter, if only they write at the same place. -/
theorem Abreast.write (abreast : Abreast P σ τ) {a : Nat} {b : UInt8} (usable : σ.Usable a) :
    Abreast P (σ.write a b) (τ.write a b) := by
  have twins := abreast.twins
  obtain ⟨e, L, same, lo, hi⟩ := usable.exists_room (B := 0) ((add_zero σ.rooms).symm ▸ twins.lends)
  rw [add_zero, add_zero] at same
  have w := (same ▸ twins).write (σ.memory.changedWithin_write a b)
    (τ.memory.changedWithin_write a b) lo hi
  exact ⟨same ▸ w, abreast.live⟩

end Session

/-! ### Whole runs -/

/-- **The invariant of parallel sessions.** -/
theorem Parallel.abreast (parallel : Parallel P σ τ) : σ.Abreast P τ := by
  induction parallel with
  | start ready => exact ⟨⟨.new, .new, rfl, rfl, rfl, ready⟩, rfl⟩
  | serve before legal served served' ih =>
    obtain ⟨σ', τ', reply, run, run', -, -, abreast⟩ := ih.serve_alike legal
    rw [served] at run
    rw [served'] at run'
    cases run
    cases run'
    exact abreast
  | write before usable ih => exact ih.write usable

/-- **A configuration is inert.** Two heaps with any two configurations, over any two memories, go
through the same requests and writes, and their growth sources answer alike. Then each request that
the clients may make next is served by both or refused by both, with the same reply, and so on. The
clients hold the same blocks and may write at the same addresses, the growth sources were asked the
same, and the heaps have the same segments, the same blocks of the same usable sizes, and the same
report. -/
theorem parallel_alike (parallel : Parallel P σ τ) :
    (∀ r : Request, r.LegalIn P σ τ → ∃ σ' τ' reply, σ.serve r = .ok σ' ∧ τ.serve r = .ok τ' ∧
        σ.reply r = .ok reply ∧ τ.reply r = .ok reply ∧ Parallel P σ' τ') ∧
      τ.live = σ.live ∧ (∀ a, τ.Usable a ↔ σ.Usable a) ∧
      P.asked' τ.heap.growth = P.asked σ.heap.growth ∧ τ.heap.growths = σ.heap.growths ∧
      τ.heap.segments = σ.heap.segments ∧
      (∀ b ∈ σ.live, ∃ n, usableSize σ.memory b.ptr = .ok n ∧ usableSize τ.memory b.ptr = .ok n) ∧
      (∃ bs, σ.heap.blocks σ.memory = .ok bs ∧ τ.heap.blocks τ.memory = .ok bs) ∧
      ∃ report, σ.heap.validate σ.memory = .ok report ∧
        τ.heap.validate τ.memory = .ok report := by
  have abreast := parallel.abreast
  have twins := abreast.twins
  have lends : σ.heap.Lends σ.memory σ.rooms := twins.lends
  have lends' : τ.heap.Lends τ.memory σ.rooms := twins.lends'
  have sizes (b : Held) (hb : b ∈ σ.live) :
      usableSize σ.memory b.ptr = .ok b.room.len ∧ usableSize τ.memory b.ptr = .ok b.room.len := by
    have mem := Session.mem_rooms hb
    have start : b.ptr = b.room.start := rfl
    rw [start]
    exact ⟨lends.usableSize_eq mem, lends'.usableSize_eq mem⟩
  obtain ⟨parts, -, walked, -⟩ := lends.tiled
  obtain ⟨report, validated, -⟩ := lends.validate_eq
  refine ⟨fun r legal => ?_, abreast.live, fun a => ?_, P.same twins.ready, twins.growths,
    twins.segments, fun b hb => ⟨_, sizes b hb⟩, ⟨_, walked, twins.blocks_eq.trans walked⟩,
    report, validated, twins.validate_eq.trans validated⟩
  · obtain ⟨σ', τ', reply, run, run', heard, heard', -⟩ := abreast.serve_alike legal
    exact ⟨σ', τ', reply, run, run', heard, heard', .serve parallel legal run run'⟩
  · unfold Session.Usable
    rw [abreast.live]
    refine exists_congr fun b => and_congr_right fun hb => ?_
    rw [(sizes b hb).1, (sizes b hb).2]

end Pair

/-- A heap that checks and marks, and one that does neither. Both grow once and move a block that is
resized; where it was, one of the memories is marked and the other is not. -/
theorem parallel_alike_moved : ∃ σ τ : Session Scripted,
    σ.heap.config = .debug ∧ τ.heap.config = .production ∧
      σ.memory.read 4112 ≠ τ.memory.read 4112 ∧ τ.live = [⟨4160, 40⟩, ⟨4144, 8⟩] ∧
      τ.heap.growth.asked = [56] ∧
      ∃ report, σ.heap.validate σ.memory = .ok report ∧ τ.heap.validate τ.memory = .ok report := by
  let fresh (config : HeapConfig) : Session Scripted :=
    ⟨{ config, growth := ⟨[some ⟨4096, 128⟩], []⟩ }, Memory.zero, []⟩
  have before : Parallel Scripted.pair (fresh .debug) (fresh .production) := by
    refine .start ⟨rfl, fun e he => ?_⟩
    rw [Option.some_inj.mp (List.mem_singleton.mp he)]
    exact ⟨by decide, by decide⟩
  have outcome : (do
      let σ ← ((fresh .debug).serve (.malloc 24)).toOption
      let σ ← (σ.serve (.mallocZeroed 8)).toOption
      let σ' ← (σ.serve (.realloc 4112 40)).toOption
      return (σ.live, σ'.live, σ'.heap.config, σ'.heap.growth.asked, σ'.memory.read 4112)) =
      some ([⟨4144, 8⟩, ⟨4112, 24⟩], [⟨4160, 40⟩, ⟨4144, 8⟩], .debug, [56], 221) := by
    decide +kernel
  have outcome' : (do
      let σ ← ((fresh .production).serve (.malloc 24)).toOption
      let σ ← (σ.serve (.mallocZeroed 8)).toOption
      let σ ← (σ.serve (.realloc 4112 40)).toOption
      return (σ.heap.config, σ.memory.read 4112)) = some (.production, 0) := by
    decide +kernel
  obtain ⟨σ₁, run₁, outcome⟩ := Action.exists_of_bind outcome
  obtain ⟨σ₂, run₂, outcome⟩ := Action.exists_of_bind outcome
  obtain ⟨σ₃, run₃, outcome⟩ := Action.exists_of_bind outcome
  obtain ⟨τ₁, run₁', outcome'⟩ := Action.exists_of_bind outcome'
  obtain ⟨τ₂, run₂', outcome'⟩ := Action.exists_of_bind outcome'
  obtain ⟨τ₃, run₃', outcome'⟩ := Action.exists_of_bind outcome'
  simp only [pure, Option.some.injEq, Prod.mk.injEq] at outcome outcome'
  obtain ⟨held, live, config, asked, byte⟩ := outcome
  obtain ⟨config', byte'⟩ := outcome'
  have handed := (before.serve (r := .malloc 24) trivial run₁ run₁').serve
    (r := .mallocZeroed 8) trivial run₂ run₂'
  have holds : ∃ b ∈ σ₂.live, b.ptr = 4112 := ⟨⟨4112, 24⟩, by rw [held]; decide, rfl⟩
  have moved := handed.serve (r := .realloc 4112 40) holds run₃ run₃'
  obtain ⟨-, live', -, asked', -, -, -, -, report⟩ := parallel_alike moved
  exact ⟨σ₃, τ₃, config, config', by rw [byte, byte']; decide, live'.trans live,
    asked'.trans asked, report⟩

end LayeredMemory.Heap
