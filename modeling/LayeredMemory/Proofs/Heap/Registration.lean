import LayeredMemory.Proofs.Heap.Session
import LayeredMemory.Proofs.Heap.Verdict
import Mathlib.Order.Bounds.Basic

/-!
# Registration — which extents a heap takes, and what it makes of them

A heap takes every extent that shares no address with those it holds and has room for one block.
Neither depends on what memory holds.

* `Segment.firstFor_isLeast`, `Segment.usable_isGreatest`: the segment of an extent starts as early
  as payloads allow, and ends as late as the epilogue and the size of a granule allow.
* `addPool_exact`: an extent is taken exactly if it `Suits` the heap, and then only its own bytes
  change; otherwise nothing does.
* `reachable_registers`: so it is after every run, and the blocks of the new segment are one free
  block behind all others.
-/

namespace LayeredMemory

namespace Segment

variable {e : Extent}

/-- The first header is as low as it can be. -/
theorem firstFor_isLeast (e : Extent) : IsLeast {a | e.start ≤ a ∧ a % 16 = 8} (firstFor e) := by
  unfold firstFor
  refine ⟨⟨?_, ?_⟩, fun a ⟨le, aligned⟩ => ?_⟩ <;> omega

/-- The blocks of a segment reach as far as they can. -/
theorem usable_isGreatest {first stop : Nat} (room : first + 8 ≤ stop) :
    IsGreatest {n | 16 ∣ n ∧ first + n + 8 ≤ stop} ((stop - (first + 8)) / 16 * 16) := by
  refine ⟨⟨Nat.dvd_mul_left .., ?_⟩, fun n ⟨aligned, fits⟩ => ?_⟩ <;> omega

end Segment

/-- Extents that share no address are apart, unless one of them is empty. -/
theorem Extent.apart_of_disjoint {e f : Extent} (he : 0 < e.len) (hf : 0 < f.len)
    (disjoint : ∀ x ∈ f, x ∉ e) : f.Apart e := by
  have off := disjoint (max e.start f.start)
  rw [Extent.mem_iff, Extent.mem_iff] at off
  unfold Extent.Apart
  omega

namespace Heap

variable {γ : Type} {h : Heap γ} {m : Memory} {e : Extent}

/-- The extent shares no address with those of the heap, and has room for a block and the epilogue
behind it. -/
structure Suits (h : Heap γ) (e : Extent) : Prop where
  clear : ∀ f ∈ h.extents, ∀ x ∈ f, x ∉ e
  room : Segment.firstFor e + 24 ≤ e.start + e.len

/-- Before and after an extent is registered as the segment `s`: it is one free block with an
epilogue behind it, and no byte outside the extent and no block of another segment is new. -/
structure Registers (h : Heap γ) (m : Memory) (s : Segment) (s' : Store (Heap γ)) : Prop where
  part : s'.part =
    { h with segments := h.segments ++ [s], cursor := h.cursor <|> some s.first }
  tiled : Tiled s'.memory s.stop true s.first [⟨s.first, s.usable, false⟩]
  inside : m.ChangedIn s'.memory [s.extent]
  others : ∀ t ∈ h.segments, segmentBlocks s'.memory t = segmentBlocks m t

/-- What suits a heap is apart from its segments. -/
theorem Suits.apart {s : Segment} (suits : h.Suits e) (laid : h.LaidOut) (hs : s ∈ h.segments) :
    s.extent.Apart e := by
  have legal := laid.legal s hs
  have := legal.start_le
  have := legal.stop_le
  have := suits.room
  have := (Segment.firstFor_isLeast e).1.1
  have stop : s.stop = s.first + s.usable := rfl
  exact Extent.apart_of_disjoint (by omega) (by omega)
    (suits.clear s.extent (List.mem_map_of_mem hs))

/-- Laying out a segment apart from all others. -/
theorem register_exact {s : Segment} (laid : h.LaidOut) (legal : s.Legal)
    (apart : ∀ t ∈ h.segments, t.extent.Apart s.extent) :
    ∃ s', register s ⟨h, m⟩ = .ok () s' ∧ Registers h m s s' := by
  obtain ⟨m', run, tiled, changed⟩ := register_laid h m legal
  refine ⟨_, run, rfl, tiled, changed, fun t ht => ?_⟩
  refine segmentBlocks_congr (laid.legal t ht) fun x lo hi => changed x fun f hf hx => ?_
  rw [List.mem_singleton.mp hf] at hx
  exact (apart t ht).not_mem ((laid.legal t ht).mem_extent lo hi) hx

/-- **Registering is exact**: what suits the heap becomes a segment, and what does not is refused
and changes nothing, whatever memory holds. -/
theorem addPool_exact (laid : h.LaidOut) (valid : e.Valid) (m : Memory) :
    Action.Meets (addPool e) ⟨h, m⟩
      (fun _ s' => h.Suits e ∧ ∃ s, Segment.of? e = some s ∧ Registers h m s s')
      (fun f s' => ¬h.Suits e ∧ (∃ reason, f = .invalidArgument reason) ∧ s' = ⟨h, m⟩) := by
  obtain ⟨r, judged, run⟩ := addPool_eq laid.legal valid
  cases judged with
  | overlapping reason overlaps =>
    refine .of_fault (run h m rfl) ⟨fun suits => overlaps fun t ht => ?_, ⟨reason, rfl⟩, rfl⟩
    exact suits.apart laid ht
  | narrow reason none =>
    refine .of_fault (run h m rfl) ⟨fun suits => ?_, ⟨reason, rfl⟩, rfl⟩
    exact nomatch none.symm.trans ((Segment.of?_eq_some_iff valid).mpr ⟨suits.room, rfl⟩)
  | @fits s off segment =>
    obtain ⟨legal, rfl⟩ := Segment.legal_of_of? valid segment
    obtain ⟨s', registered, registers⟩ := register_exact (m := m) laid legal off
    refine .of_ok ((run h m rfl).trans registered)
      ⟨⟨fun f hf x hx => ?_, ?_⟩, s, segment, registers⟩
    · obtain ⟨t, ht, rfl⟩ := List.mem_map.mp hf
      exact (off t ht).not_mem hx
    · exact ((Segment.of?_eq_some_iff valid).mp segment).1

/-- An extent is registered exactly if it suits the heap. -/
theorem addPool_ok_iff (laid : h.LaidOut) (valid : e.Valid) :
    (∃ s', addPool e ⟨h, m⟩ = .ok () s') ↔ h.Suits e := by
  have exact := addPool_exact laid valid m
  refine ⟨fun ⟨s', run⟩ => (exact.answer run).1, fun suits => ?_⟩
  rcases exact.cases with ⟨_, s', run, -⟩ | ⟨_, _, -, unsuited, -⟩
  · exact ⟨s', run⟩
  · exact absurd suits unsuited

/-- The new segment is the last one, behind all that were there. -/
theorem Registers.order {s : Segment} {s' : Store (Heap γ)} {parts : List Part}
    (w : Registers h m s s') (o : InOrder h m parts) (suits : h.Suits s.extent)
    (legal : s.Legal) :
    InOrder s'.part s'.memory (parts ++ [(s, [⟨s.first, s.usable, false⟩])]) := by
  rw [w.part]
  exact o.push legal (fun t ht => suits.apart o.laidOut ht) w.inside w.tiled

variable [GrowthSource γ]

/-- **Extents are used as well as they can be.** After every run an extent is registered exactly if
it shares no address with those registered before, where touching is not sharing, and has room for
one block behind the first possible header and for an epilogue. Its segment has as many bytes for
blocks as there can be, all in one free block; only bytes of the extent change, and other segments
and a cursor that was somewhere stay. Otherwise it is refused and nothing changes. -/
theorem reachable_registers {C : GrowthContract γ} {σ : Session γ} (reachable : Reachable C σ)
    (valid : e.Valid) {first : Nat} (least : IsLeast {a | e.start ≤ a ∧ a % 16 = 8} first) :
    ((∃ s', addPool e ⟨σ.heap, σ.memory⟩ = .ok () s') ↔
        (∀ f ∈ σ.heap.extents, ∀ x ∈ f, x ∉ e) ∧ first + 16 + 8 ≤ e.start + e.len) ∧
      (∀ s', addPool e ⟨σ.heap, σ.memory⟩ = .ok () s' → ∃ usable,
        IsGreatest {n | 16 ∣ n ∧ first + n + 8 ≤ e.start + e.len} usable ∧
        Registers σ.heap σ.memory ⟨e, first, usable⟩ s' ∧
        ∃ bs, σ.heap.blocks σ.memory = .ok bs ∧
          s'.part.blocks s'.memory = .ok (bs ++ [⟨first, usable, false⟩])) ∧
      ((¬∃ s', addPool e ⟨σ.heap, σ.memory⟩ = .ok () s') → ∃ reason,
        addPool e ⟨σ.heap, σ.memory⟩ =
          .error (.fault (.invalidArgument reason)) ⟨σ.heap, σ.memory⟩) ∧
      ((∀ f ∈ σ.heap.extents, f.start + f.len ≤ e.start ∨ e.start + e.len ≤ f.start) →
        first + 16 + 8 ≤ e.start + e.len →
          ∃ s', addPool e ⟨σ.heap, σ.memory⟩ = .ok () s') := by
  obtain ⟨parts, o, -⟩ := reachable.sound.alone.lends
  obtain rfl : first = Segment.firstFor e := least.unique (Segment.firstFor_isLeast e)
  have exact := addPool_exact o.laidOut valid σ.memory
  rw [addPool_ok_iff o.laidOut valid]
  refine ⟨⟨fun suits => ⟨suits.clear, suits.room⟩, fun ⟨clear, room⟩ => ⟨clear, room⟩⟩,
    fun s' run => ?_, fun unsuited => ?_, fun apart room => ⟨fun f hf x hx => ?_, room⟩⟩
  · obtain ⟨suits, s, segment, registers⟩ := exact.answer run
    obtain ⟨legal, -⟩ := Segment.legal_of_of? valid segment
    obtain ⟨room, rfl⟩ := (Segment.of?_eq_some_iff valid).mp segment
    refine ⟨_, Segment.usable_isGreatest (by omega), registers, _, o.blocks_eq, ?_⟩
    rw [(registers.order o suits legal).blocks_eq, blocksIn_append]
    rfl
  · rcases exact.cases with ⟨_, s', -, suits, -⟩ | ⟨f, s', run, -, ⟨reason, rfl⟩, rfl⟩
    · exact absurd suits unsuited
    · exact ⟨reason, run⟩
  · exact Extent.Apart.not_mem (apart f hf) hx

theorem reachable_registers_touching : ∃ σ : Session NoGrowth,
    σ.heap.extents = [⟨4096, 128⟩] ∧ IsLeast {a | 4224 ≤ a ∧ a % 16 = 8} 4232 ∧
      ∃ s', addPool ⟨4224, 100⟩ ⟨σ.heap, σ.memory⟩ = .ok () s' ∧
        Registers σ.heap σ.memory ⟨⟨4224, 100⟩, 4232, 80⟩ s' := by
  let fresh : Session NoGrowth := ⟨{ growth := {} }, Memory.zero, []⟩
  have legal : Request.Legal NoGrowth.contract fresh (.addPool ⟨4096, 128⟩) :=
    ⟨⟨by decide, by decide⟩, fun _ => trivial⟩
  have outcome : (do
      let σ ← (fresh.serve (.addPool ⟨4096, 128⟩)).toOption
      return σ.heap.extents) = some [⟨4096, 128⟩] := by
    decide +kernel
  obtain ⟨σ, run, outcome⟩ := Action.exists_of_bind outcome
  have extents : σ.heap.extents = [⟨4096, 128⟩] := Option.some.inj outcome
  have least : IsLeast {a | 4224 ≤ a ∧ a % 16 = 8} 4232 :=
    ⟨⟨by decide, by decide⟩, fun a ⟨le, aligned⟩ => by omega⟩
  obtain ⟨-, used, -, taken⟩ := reachable_registers (e := ⟨4224, 100⟩)
    ((Reachable.start (C := NoGrowth.contract) trivial).serve legal run)
    ⟨by decide, by decide⟩ least
  obtain ⟨s', made⟩ := taken (by rw [extents]; decide) (by decide)
  obtain ⟨usable, most, registers, -⟩ := used s' made
  have room : IsGreatest {n | 16 ∣ n ∧ 4232 + n + 8 ≤ 4224 + 100} 80 :=
    ⟨⟨by decide, by decide⟩, fun n ⟨aligned, fits⟩ => by omega⟩
  obtain rfl : usable = 80 := most.unique room
  exact ⟨σ, extents, least, s', made, registers⟩

end Heap

end LayeredMemory
