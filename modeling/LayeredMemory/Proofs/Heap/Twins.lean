import LayeredMemory.Proofs.Heap.Agreement
import LayeredMemory.Proofs.Heap.Canonical
import LayeredMemory.Proofs.Lockstep

/-!
# Twins — heaps that differ in what nobody reads

Two heaps with the same segments and the same payloads lent have the same blocks, so all their tags
are the same words. Their memories may still differ in every payload, in the stale words inside free
blocks and outside the segments, and they may be configured in any two ways. Nothing of that tells
`Twins` apart:

* `Twins.findFit_eq`, `Twins.checkLive_eq`, `Twins.blocks_eq`, `Twins.validate_eq`: what is read off
  one of them is read off the other.
* `Twins.malloc`, `Twins.free` and their neighbours: every operation runs in lockstep on both, with
  the same answer or the same fault, and leaves twins.
-/

namespace LayeredMemory.Heap

variable {γ δ : Type} [GrowthSource γ] [GrowthSource δ] {P : GrowthPair γ δ} {h h' : Heap γ}
  {k k' : Heap δ} {m m' n n' : Memory} {K K' L L' : Multiset Extent} {e : Extent} {need x : Nat}

/-- Two heaps that lend the same from the same segments, with the cursor at the same place, and
whose growth sources will answer alike. What they are configured for does not matter, nor what else
is in their memories. -/
structure Twins (P : GrowthPair γ δ) (s : Store (Heap γ)) (t : Store (Heap δ))
    (L : Multiset Extent) : Prop where
  lends : s.part.Lends s.memory L
  lends' : t.part.Lends t.memory L
  segments : t.part.segments = s.part.segments
  cursor : t.part.cursor = s.part.cursor
  growths : t.part.growths = s.part.growths
  ready : P.Ready ⟨s.part.growth, s.memory⟩ ⟨t.part.growth, t.memory⟩ s.part.extents

namespace Twins

/-- **Twins have the same blocks.** -/
theorem exists_parts (w : Twins P ⟨h, m⟩ ⟨k, n⟩ L) :
    ∃ parts, InOrder h m parts ∧ InOrder k n parts ∧ lent (blocksIn parts) = L := by
  obtain ⟨parts, o, same⟩ := w.lends
  obtain ⟨parts', o', same'⟩ := w.lends'
  obtain ⟨live, rfl⟩ : ∃ live : List Extent, (live : Multiset Extent) = L := Quot.exists_rep L
  have one : parts = h.segments.map fun s => (s, s.arrange live) :=
    o.eq_arrange fun e => by rw [same, Multiset.mem_coe]
  have other : parts' = k.segments.map fun s => (s, s.arrange live) :=
    o'.eq_arrange fun e => by rw [same', Multiset.mem_coe]
  have equal : parts' = parts := by rw [other, one, w.segments]
  exact ⟨parts, o, equal ▸ o', same⟩

theorem extents_eq (w : Twins P ⟨h, m⟩ ⟨k, n⟩ L) : k.extents = h.extents :=
  congrArg (List.map Segment.extent) w.segments

/-! ### What is read off them -/

theorem findFit_eq (w : Twins P ⟨h, m⟩ ⟨k, n⟩ L) (need : Nat) :
    k.findFit n need = h.findFit m need := by
  obtain ⟨parts, o, o', -⟩ := w.exists_parts
  exact o.findFit_agree o' w.cursor

theorem checkLive_eq (w : Twins P ⟨h, m⟩ ⟨k, n⟩ L) (ptr : Nat) :
    k.checkLive n ptr = h.checkLive m ptr := by
  obtain ⟨parts, o, o', -⟩ := w.exists_parts
  exact o.checkLive_agree o' ptr

theorem blocks_eq (w : Twins P ⟨h, m⟩ ⟨k, n⟩ L) : k.blocks n = h.blocks m := by
  obtain ⟨parts, o, o', -⟩ := w.exists_parts
  exact o'.blocks_eq.trans o.blocks_eq.symm

theorem validate_eq (w : Twins P ⟨h, m⟩ ⟨k, n⟩ L) : k.validate n = h.validate m := by
  have segments : k.segments = h.segments := w.segments
  have cursor : k.cursor = h.cursor := w.cursor
  unfold validate cursorFound
  rw [w.blocks_eq, segments, cursor]

/-- The header behind a payload that is lent. -/
theorem next_eq (w : Twins P ⟨h, m⟩ ⟨k, n⟩ L) (he : e ∈ L) :
    n.readWord (e.start + e.len) = m.readWord (e.start + e.len) := by
  obtain ⟨parts, o, o', rfl⟩ := w.exists_parts
  obtain ⟨t, ht, b, hb, -, rfl⟩ := exists_block he
  have := o.mem_bounds ht hb
  have stop : b.room.start + b.room.len = b.addr + b.size := by dsimp only [BlockInfo.room]; omega
  rw [stop]
  exact o.behind_agree o' ht hb

theorem joinStart_eq (w : Twins P ⟨h, m⟩ ⟨k, n⟩ L) (he : e ∈ L) :
    joinStart n (ofPayload e.start) = joinStart m (ofPayload e.start) := by
  obtain ⟨parts, o, o', rfl⟩ := w.exists_parts
  obtain ⟨t, ht, b, hb, -, rfl⟩ := exists_block he
  exact o.joinStart_agree o' ht hb

/-! ### What they do -/

/-- Work on both that leaves the segments as they are. -/
theorem became (w : Twins P ⟨h, m⟩ ⟨k, n⟩ L) (step : Became h m K h' m' L')
    (step' : Became k n K' k' n' L') (cursor : k'.cursor = h'.cursor) :
    Twins P ⟨h', m'⟩ ⟨k', n'⟩ L' := by
  have segments : k.segments = h.segments := w.segments
  have growths : k.growths = h.growths := w.growths
  refine ⟨step.lends, step'.lends, ?_, cursor, ?_, ?_⟩
  · dsimp only
    rw [step'.same, step.same]
    exact segments
  · dsimp only
    rw [step'.same, step.same]
    exact growths
  · dsimp only
    rw [step.growth_eq, step'.growth_eq, step.extents_eq]
    exact P.frame w.ready step.changed (w.extents_eq ▸ step'.changed)

/-- Both clients write into the same payload, each what it likes. -/
theorem write {lo hi : Nat} (w : Twins P ⟨h, m⟩ ⟨k, n⟩ (e ::ₘ L))
    (changed : m.ChangedWithin m' lo hi) (changed' : n.ChangedWithin n' lo hi)
    (le : e.start ≤ lo) (le' : hi ≤ e.start + e.len) :
    Twins P ⟨h, m'⟩ ⟨k, n'⟩ (e ::ₘ L) :=
  w.became (w.lends.write changed le le') (w.lends'.write changed' le le') w.cursor

open LayeredMemory.Action (Lockstep)

variable {R : Store (Heap γ) → Store (Heap δ) → Prop}

theorem place (w : Twins P ⟨h, m⟩ ⟨k, n⟩ L) (found : h.findFit m need = some x)
    (aligned : 16 ∣ need) (pos : 16 ≤ need) :
    Lockstep (place x need) (place x need) ⟨h, m⟩ ⟨k, n⟩
      (fun p s t => Twins P s t (⟨p, need - 8⟩ ::ₘ L)) R := by
  have found' : k.findFit n need = some x := (w.findFit_eq need).trans found
  obtain ⟨h', m', run, step, cursor⟩ := findFit_place w.lends found aligned pos
  obtain ⟨k', n', run', step', cursor'⟩ := findFit_place w.lends' found' aligned pos
  refine .of_ok run run' (w.became step step' ?_)
  rw [cursor', cursor]

theorem release (w : Twins P ⟨h, m⟩ ⟨k, n⟩ (e ::ₘ L)) :
    Lockstep (release e.start) (release e.start) ⟨h, m⟩ ⟨k, n⟩ (fun _ s t => Twins P s t L) R := by
  obtain ⟨h', m', run, step, cursor⟩ := release_run w.lends
  obtain ⟨k', n', run', step', cursor'⟩ := release_run w.lends'
  refine .of_ok run run' (w.became step step' ?_)
  rw [cursor', cursor, w.joinStart_eq (Multiset.mem_cons_self e L)]

/-- **Taking a block back.** -/
theorem free (w : Twins P ⟨h, m⟩ ⟨k, n⟩ (e ::ₘ L)) :
    Lockstep (free e.start) (free e.start) ⟨h, m⟩ ⟨k, n⟩ (fun _ s t => Twins P s t L) R := by
  have mem := Multiset.mem_cons_self e L
  unfold Lockstep
  rw [w.lends.free_eq mem, w.lends'.free_eq mem]
  exact w.release

theorem tryFree (w : Twins P ⟨h, m⟩ ⟨k, n⟩ (e ::ₘ L)) :
    Lockstep (tryFree e.start) (tryFree e.start) ⟨h, m⟩ ⟨k, n⟩ (fun _ s t => Twins P s t L) R := by
  have mem := Multiset.mem_cons_self e L
  unfold Lockstep
  rw [w.lends.tryFree_eq mem, w.lends'.tryFree_eq mem]
  exact w.release

/-- **Refusing to take back** what is not lent. -/
theorem tryFree_refused {ptr : Nat} {Q : Unit → Store (Heap γ) → Store (Heap δ) → Prop}
    (w : Twins P ⟨h, m⟩ ⟨k, n⟩ L) (off : ∀ e ∈ L, e.start ≠ ptr) :
    Lockstep (Heap.tryFree ptr) (Heap.tryFree ptr) ⟨h, m⟩ ⟨k, n⟩ Q (fun s t => Twins P s t L) := by
  refine .part (.memory ?_)
  rw [w.checkLive_eq ptr]
  cases live : h.checkLive m ptr with
  | error f => exact .fault w
  | ok =>
    obtain ⟨parts, o, rfl⟩ := w.lends
    obtain ⟨e, he, start⟩ := o.exists_of_checkLive live
    exact absurd start (off e he)

/-- **Registering an extent**: both do, or both refuse. -/
theorem addPool (w : Twins P ⟨h, m⟩ ⟨k, n⟩ L) (valid : e.Valid)
    (ready : (∀ f ∈ h.extents, f.Apart e) →
      P.Ready ⟨h.growth, m⟩ ⟨k.growth, n⟩ (h.extents ++ [e])) :
    Lockstep (addPool e) (addPool e) ⟨h, m⟩ ⟨k, n⟩
      (fun _ s t => Twins P s t L ∧ ∃ x, s.part.segments.getLast? = some x)
      (fun s t => Twins P s t L) := by
  have segments : k.segments = h.segments := w.segments
  have cursor : k.cursor = h.cursor := w.cursor
  obtain ⟨r, judged, decided⟩ := addPool_eq (fun s hs => w.lends.legal hs) valid
  cases r with
  | error f => exact .of_fault (decided h m rfl) (decided k n segments) w
  | ok x =>
    obtain ⟨legal, rfl, apart⟩ := judged.segment valid
    obtain ⟨m', run, one⟩ := register_run w.lends legal apart
    obtain ⟨n', run', other⟩ := register_run w.lends' legal (segments ▸ apart)
    have same : (k.push x).extents = (h.push x).extents := by
      rw [extents_push, extents_push, w.extents_eq]
    refine .of_ok ((decided h m rfl).trans run) ((decided k n segments).trans run')
      ⟨⟨one.lends, other.lends, ?_, ?_, w.growths, ?_⟩, x, getLast?_push⟩
    · exact congrArg (· ++ [x]) segments
    · exact cursor_push.trans (cursor ▸ cursor_push.symm)
    · exact P.frame (extents_push ▸ ready one.apart) one.changed (same ▸ other.changed)

/-- **Growing.** -/
theorem grow (w : Twins P ⟨h, m⟩ ⟨k, n⟩ L) (bytes need : Nat) :
    Lockstep (grow bytes need) (grow bytes need) ⟨h, m⟩ ⟨k, n⟩ (fun _ s t => Twins P s t L)
      (fun s t => Twins P s t L) := by
  unfold Heap.grow
  cases sum : Word.add? need (granule + Word.bytes) with
  | none => exact .fault w
  | some minLen =>
    obtain ⟨answer, ⟨g, m₁⟩, ⟨d, n₁⟩, run, run', -, keeps, keeps', ready, valid⟩ :=
      P.request minLen w.ready
    have asked : Twins P ⟨{ h with growth := g }, m₁⟩ ⟨{ k with growth := d }, n₁⟩ L := by
      refine ⟨?_, ?_, w.segments, w.cursor, w.growths, ready⟩
      · exact (w.lends.frame fun f hf x hx _ => keeps f hf x hx).with_growth g
      · exact (w.lends'.frame fun f hf x hx _ => keeps' f (w.extents_eq ▸ hf) x hx).with_growth d
    refine .step (onGrowth_of_ok run) (onGrowth_of_ok run') ?_
    cases answer with
    | none => exact .fault asked
    | some e =>
      obtain ⟨valid, ready⟩ := valid e rfl
      refine .bind (asked.addPool valid fun _ => ready).attempt fun r s t outcome => ?_
      cases r with
      | error f => exact .fault outcome
      | ok u =>
        obtain ⟨w, x, last⟩ := outcome
        refine .of_ok rfl rfl ⟨w.lends.with_last last _, ?_, w.segments, ?_, ?_, w.ready⟩
        · exact w.lends'.with_last (w.segments ▸ last) _
        · exact congrArg (·.getLast?.map Segment.first) w.segments
        · exact congrArg (· + 1) w.growths

/-! ### Handing blocks out -/

/-- **Handing out a block**: the same one. -/
theorem malloc (w : Twins P ⟨h, m⟩ ⟨k, n⟩ L) (bytes : Nat) :
    Lockstep (malloc bytes) (malloc bytes) ⟨h, m⟩ ⟨k, n⟩
      (fun p s t => ∃ size, blockSizeFor bytes = some size ∧ Twins P s t (⟨p, size - 8⟩ ::ₘ L))
      (fun s t => Twins P s t L) := by
  unfold Heap.malloc
  by_cases zero : bytes = 0
  · rw [if_pos zero, if_pos zero]
    exact .fault w
  rw [if_neg zero, if_neg zero]
  cases size : blockSizeFor bytes with
  | none => exact .fault w
  | some need =>
    obtain ⟨aligned, -, pos, -⟩ := blockSizeFor_spec size
    refine .step (w.lends.seek_eq need) (w.lends'.seek_eq need) ?_
    rw [w.findFit_eq need]
    cases found : h.findFit m need with
    | some block =>
      exact (w.place found aligned pos).mono (fun _ _ _ w' => ⟨need, rfl, w'⟩) fun _ _ w' => w'
    | none =>
      refine .bind (w.grow bytes need) fun _ ⟨h₁, m₁⟩ ⟨k₁, n₁⟩ w₁ => ?_
      refine .step (w₁.lends.seek_eq need) (w₁.lends'.seek_eq need) ?_
      rw [w₁.findFit_eq need]
      cases found : h₁.findFit m₁ need with
      | some block =>
        exact (w₁.place found aligned pos).mono (fun _ _ _ w' => ⟨need, rfl, w'⟩) fun _ _ w' => w'
      | none => exact .fault w₁

theorem mallocZeroed (w : Twins P ⟨h, m⟩ ⟨k, n⟩ L) (bytes : Nat) :
    Lockstep (mallocZeroed bytes) (mallocZeroed bytes) ⟨h, m⟩ ⟨k, n⟩
      (fun p s t => ∃ size, blockSizeFor bytes = some size ∧ Twins P s t (⟨p, size - 8⟩ ::ₘ L))
      (fun s t => Twins P s t L) := by
  refine .bind (w.malloc bytes) fun p ⟨h₁, m₁⟩ ⟨k₁, n₁⟩ ⟨size, fit, w₁⟩ => ?_
  obtain ⟨-, room, -⟩ := blockSizeFor_spec fit
  refine .of_ok rfl rfl ⟨size, fit, ?_⟩
  exact w₁.write (m₁.changedWithin_fill p bytes 0) (n₁.changedWithin_fill p bytes 0)
    (Nat.le_refl _) (by dsimp only; omega)

/-! ### Resizing -/

theorem shrinkTo {a : Nat} (w : Twins P ⟨h, m⟩ ⟨k, n⟩ (e ::ₘ L)) (ha : e.start = a + 8)
    (fit : need ≤ e.len + 8) (aligned : 16 ∣ need) (pos : 16 ≤ need) :
    Lockstep (shrinkTo a (e.len + 8) need) (shrinkTo a (e.len + 8) need) ⟨h, m⟩ ⟨k, n⟩
      (fun _ s t => Twins P s t (⟨e.start, need - 8⟩ ::ₘ L)) R := by
  have same : k.cursor = h.cursor := w.cursor
  obtain ⟨h', m', run, step, cursor⟩ := shrinkTo_spec w.lends ha fit aligned pos
  obtain ⟨k', n', run', step', cursor'⟩ := shrinkTo_spec w.lends' ha fit aligned pos
  refine .of_ok run run' (w.became step step' ?_)
  rw [cursor', cursor, same]

theorem extendTo {a total : Nat} (w : Twins P ⟨h, m⟩ ⟨k, n⟩ (e ::ₘ L)) (ha : e.start = a + 8)
    (free : Tag.isAllocated (m.readWord (e.start + e.len)) = false)
    (ht : total = e.len + 8 + Tag.size (m.readWord (e.start + e.len)))
    (grows : e.len + 8 ≤ need) (fit : need ≤ total) (aligned : 16 ∣ need) :
    Lockstep (extendTo a total need) (extendTo a total need) ⟨h, m⟩ ⟨k, n⟩
      (fun _ s t => Twins P s t (⟨e.start, need - 8⟩ ::ₘ L)) R := by
  have same : k.cursor = h.cursor := w.cursor
  obtain ⟨h', m', run, step, cursor⟩ := extendTo_spec w.lends ha free ht grows fit aligned
  rw [← w.next_eq (Multiset.mem_cons_self e L)] at free ht
  obtain ⟨k', n', run', step', cursor'⟩ := extendTo_spec w.lends' ha free ht grows fit aligned
  refine .of_ok run run' (w.became step step' ?_)
  rw [cursor', cursor, same]

/-- **Moving a block.** Each memory keeps what it held. -/
theorem moveTo (w : Twins P ⟨h, m⟩ ⟨k, n⟩ (e ::ₘ L)) (bytes : Nat) :
    Lockstep (moveTo e.start (e.len + 8) bytes) (moveTo e.start (e.len + 8) bytes) ⟨h, m⟩ ⟨k, n⟩
      (fun q s t => ∃ size, blockSizeFor bytes = some size ∧ Twins P s t (⟨q, size - 8⟩ ::ₘ L))
      (fun s t => Twins P s t (e ::ₘ L)) := by
  refine .bind (w.malloc bytes) fun q ⟨h₁, m₁⟩ ⟨k₁, n₁⟩ ⟨size, fit, w₁⟩ => ?_
  obtain ⟨-, room, -⟩ := blockSizeFor_spec fit
  have len : Word.sub (e.len + 8) Word.bytes = .ok e.len :=
    Word.sub_eq_ok_iff.mpr ⟨Nat.le_add_left 8 e.len, rfl⟩
  refine .lift len (.step rfl rfl ?_)
  have copied := w₁.write (m₁.changedWithin_copy e.start q (min e.len bytes))
    (n₁.changedWithin_copy e.start q (min e.len bytes)) (Nat.le_refl _) (by dsimp only; omega)
  rw [Multiset.cons_swap] at copied
  exact .bind copied.release fun _ s t w' => .pure ⟨size, fit, w'⟩

/-- **Resizing a block**, in place on both or by moving it to the same one. -/
theorem realloc (w : Twins P ⟨h, m⟩ ⟨k, n⟩ (e ::ₘ L)) (bytes : Nat) :
    Lockstep (realloc e.start bytes) (realloc e.start bytes) ⟨h, m⟩ ⟨k, n⟩
      (fun q s t => ∃ size, blockSizeFor bytes = some size ∧ Twins P s t (⟨q, size - 8⟩ ::ₘ L))
      (fun s t => Twins P s t (e ::ₘ L)) := by
  have mem := Multiset.mem_cons_self e L
  have lends : h.Lends m (e ::ₘ L) := w.lends
  unfold Heap.realloc
  by_cases zero : bytes = 0
  · rw [if_pos zero, if_pos zero]
    exact .fault w
  rw [if_neg zero, if_neg zero]
  refine .part (.memory ?_)
  rw [lends.verified mem, w.lends'.verified mem]
  cases size : blockSizeFor bytes with
  | none => exact .fault w
  | some need =>
    obtain ⟨aligned, room, pos, -⟩ := blockSizeFor_spec size
    dsimp only
    obtain ⟨header, next, fits⟩ := lends.headers
    obtain ⟨header', -, -⟩ := w.lends'.headers
    have start := lends.payload_eq mem
    rw [header, header', next, w.next_eq mem]
    by_cases shrinks : need ≤ e.len + 8
    · rw [if_pos shrinks, if_pos shrinks]
      exact .bind (w.shrinkTo start shrinks aligned pos) fun _ s t w' => .pure ⟨need, rfl, w'⟩
    rw [if_neg shrinks, if_neg shrinks]
    cases free : Tag.isAllocated (m.readWord (e.start + e.len)) with
    | true =>
      rw [if_pos rfl, if_pos rfl]
      exact size ▸ w.moveTo bytes
    | false =>
      have := (lends.valid mem).start_pos
      have := (lends.bounds mem).1
      rw [if_neg nofun, if_neg nofun]
      refine .lift (Word.add_eq_ok_iff.mpr ⟨by omega, rfl⟩) ?_
      by_cases grows : need ≤ e.len + 8 + Tag.size (m.readWord (e.start + e.len))
      · rw [if_pos grows, if_pos grows]
        exact .bind (w.extendTo start free rfl (by omega) grows aligned)
          fun _ s t w' => .pure ⟨need, rfl, w'⟩
      · rw [if_neg grows, if_neg grows]
        exact size ▸ w.moveTo bytes

end Twins

end LayeredMemory.Heap
