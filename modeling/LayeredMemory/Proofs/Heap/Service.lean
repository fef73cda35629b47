import LayeredMemory.Proofs.Heap.Growth
import LayeredMemory.Proofs.Heap.Recut

/-!
# Service — what each operation of a heap does

A heap that `Serves` lends some payloads and has a growth source in order. Every operation, called
as its clients may call it, ends with an answer or a fault, never with a stop, and leaves a heap
that serves again. `Served` says what else stays: the bytes of all payloads that the operation is
not about, and all bytes outside the segments, except those that the growth source itself wrote.

One theorem for each operation: `addPool_spec`, `malloc_spec`, `mallocZeroed_spec`, `free_spec`,
`tryFree_spec`, `realloc_spec`. Whether an extent is registered does not depend on memory at all
(`addPool_eq`), and a block that comes without growth changes no segment (`malloc_ungrown`).
-/

namespace LayeredMemory.Heap

variable {γ : Type} {h h' h'' : Heap γ} {m m' m'' : Memory} {K K' L L' : Multiset Extent}
  {e : Extent} {n : Nat} {k : Option Nat}

/-! ### Registering an extent -/

/-- Whether a heap is in order depends on its segments and its cursor alone. -/
theorem InOrder.of_same {δ : Type} {d : Heap δ} {parts : List Part} (o : InOrder h m parts)
    (segments : d.segments = h.segments) (cursor : d.cursor = h.cursor) : InOrder d m parts :=
  ⟨o.segments.trans segments.symm, segments ▸ o.legal, segments ▸ o.apart, o.tiled,
    cursor ▸ o.cursor, cursor ▸ o.idle⟩

theorem InOrder.with_cursor {parts : List Part} {t : Part} (o : InOrder h m parts) (ht : t ∈ parts)
    (k : Nat) : InOrder { h with cursor := some t.1.first, growths := k } m parts := by
  refine ⟨o.segments, o.legal, o.apart, o.tiled, fun c hc => ?_, nofun⟩
  cases hc
  exact ⟨t, ht, o.first_atBoundary ht⟩

theorem Lends.of_same {δ : Type} {d : Heap δ} (lends : h.Lends m L)
    (segments : d.segments = h.segments) (cursor : d.cursor = h.cursor) : d.Lends m L := by
  obtain ⟨parts, o, same⟩ := lends
  exact ⟨parts, o.of_same segments cursor, same⟩

theorem Lends.with_growth (lends : h.Lends m L) (g : γ) : { h with growth := g }.Lends m L :=
  lends.of_same rfl rfl

theorem Lends.with_cursor {s : Segment} (lends : h.Lends m L) (hs : s ∈ h.segments) (k : Nat) :
    { h with cursor := some s.first, growths := k }.Lends m L := by
  obtain ⟨parts, o, same⟩ := lends
  obtain ⟨t, ht, rfl⟩ := List.mem_map.mp (o.segments ▸ hs : s ∈ parts.map Prod.fst)
  exact ⟨parts, o.with_cursor ht k, same⟩

/-- The cursor goes to the segment that was registered last. -/
theorem Lends.with_last {s : Segment} (lends : h.Lends m L) (last : h.segments.getLast? = some s)
    (k : Nat) :
    { h with cursor := h.segments.getLast?.map Segment.first, growths := k }.Lends m L := by
  rw [last]
  exact lends.with_cursor (List.mem_of_getLast? last) k

/-- One more segment; the first one ever gets the cursor. -/
def push (h : Heap γ) (s : Segment) : Heap γ :=
  { h with segments := h.segments ++ [s], cursor := h.cursor <|> some s.first }

theorem cursor_push {s : Segment} : (h.push s).cursor = (h.cursor <|> some s.first) := rfl

theorem extents_push {s : Segment} : (h.push s).extents = h.extents ++ [s.extent] :=
  List.map_append

theorem getLast?_push {s : Segment} : (h.push s).segments.getLast? = some s :=
  List.getLast?_concat

/-- One more segment, which is a single free block. -/
theorem InOrder.push {s : Segment} {parts : List Part} (o : InOrder h m parts) (legal : s.Legal)
    (apart : ∀ t ∈ h.segments, t.extent.Apart s.extent) (changed : m.ChangedIn m' [s.extent])
    (tiled : Tiled m' s.stop true s.first [⟨s.first, s.usable, false⟩]) :
    InOrder (h.push s) m' (parts ++ [(s, [⟨s.first, s.usable, false⟩])]) := by
  have o : InOrder h m' parts := by
    refine o.frame fun t ht x hx _ => changed x fun g hg hxg => ?_
    rw [List.mem_singleton.mp hg] at hxg
    exact (apart t ht).not_mem hx hxg
  refine ⟨?_, ?_, ?_, ?_, ?_, ?_⟩
  · rw [List.map_append, o.segments]
    rfl
  · intro t ht
    rcases List.mem_append.mp ht with ht | ht
    · exact o.legal t ht
    · rwa [List.mem_singleton.mp ht]
  · refine List.pairwise_append.mpr ⟨o.apart, List.pairwise_singleton _ _, fun t ht u hu => ?_⟩
    rw [List.mem_singleton.mp hu]
    exact apart t ht
  · intro t ht
    rcases List.mem_append.mp ht with ht | ht
    · exact o.tiled t ht
    · rwa [List.mem_singleton.mp ht]
  · intro c hc
    cases cursor : h.cursor with
    | none =>
      rw [cursor_push, cursor] at hc
      cases hc
      exact ⟨_, List.mem_append_right _ List.mem_cons_self, .inr ⟨_, List.mem_cons_self, rfl⟩⟩
    | some c' =>
      rw [cursor_push, cursor] at hc
      cases hc
      obtain ⟨t, ht, boundary⟩ := o.cursor c cursor
      exact ⟨t, List.mem_append_left _ ht, boundary⟩
  · intro none
    cases cursor : h.cursor <;> rw [cursor_push, cursor] at none <;> cases none

theorem Lends.push {s : Segment} (lends : h.Lends m L) (legal : s.Legal)
    (apart : ∀ t ∈ h.segments, t.extent.Apart s.extent) (changed : m.ChangedIn m' [s.extent])
    (tiled : Tiled m' s.stop true s.first [⟨s.first, s.usable, false⟩]) :
    (h.push s).Lends m' L := by
  obtain ⟨parts, o, rfl⟩ := lends
  exact ⟨_, o.push legal apart changed tiled, by simp [blocksIn, lent_cons_of_free]⟩

/-- Makes a segment of an extent that nothing speaks against. -/
def register (s : Segment) : Action (Heap γ) Unit := do
  Tag.writeFree s.first s.usable true
  Action.writeWord s.stop (Tag.make 0 true false)
  Action.modifyPart fun h => h.push s

/-- A new segment is one free block with the epilogue behind it. -/
theorem register_laid {s : Segment} (h : Heap γ) (m : Memory) (legal : s.Legal) :
    ∃ m', register s ⟨h, m⟩ = .ok () ⟨h.push s, m'⟩ ∧
      Tiled m' s.stop true s.first [⟨s.first, s.usable, false⟩] ∧ m.ChangedIn m' [s.extent] := by
  have := legal.stop_lt
  have := legal.start_le
  have := legal.stop_le
  have aligned := legal.usable_dvd
  have pos := legal.usable_pos
  have stop : s.stop = s.first + s.usable := rfl
  obtain ⟨m₁, run, header, footer, first⟩ :=
    Tag.writeFree_run h m s.first s.usable true aligned pos (by omega)
  have second := m₁.changedWithin_writeWord s.stop (Tag.make 0 true false)
  have changed :
      m.ChangedWithin (m₁.writeWord s.stop (Tag.make 0 true false)) s.first (s.stop + 8) :=
    (first.mono (Nat.le_refl _) (by omega)).trans (second.mono (by omega) (Nat.le_refl _))
  rw [← second.readWord (.inl (by omega))] at header footer
  refine ⟨_, (Action.bind_of_ok run).trans (Action.writeWord_bind ..),
    ⟨false, Row.single (.of_free header footer aligned pos), ?_⟩, ?_⟩
  · exact Memory.readWord_writeWord (Tag.make_lt ⟨0, rfl⟩ (by decide))
  · exact changed.changedIn (List.mem_singleton.mpr rfl) (by omega) (by omega)

/-- The heap has registered `e` as the segment `s`. -/
structure Registered (h : Heap γ) (m : Memory) (L : Multiset Extent) (e : Extent) (s : Segment)
    (m' : Memory) : Prop where
  lends : (h.push s).Lends m' L
  extent : s.extent = e
  apart : ∀ f ∈ h.extents, f.Apart e
  keeps : m.Keeps m' (h.extents : Multiset Extent)
  changed : m.ChangedIn m' (h.push s).extents

/-- What registering comes to: a refusal, or a new segment. -/
def settle : Except Fault Segment → Action (Heap γ) Unit
  | .error f => Action.fault f
  | .ok s => register s

/-- What segments make of an extent: it overlaps one of them, it is too small, or it is a segment
apart from them. -/
inductive Judged (segments : List Segment) (e : Extent) : Except Fault Segment → Prop where
  | overlapping (reason : String) (overlaps : ¬∀ t ∈ segments, t.extent.Apart e) :
      Judged segments e (.error (.invalidArgument reason))
  | narrow (reason : String) (none : Segment.of? e = none) :
      Judged segments e (.error (.invalidArgument reason))
  | fits {s : Segment} (apart : ∀ t ∈ segments, t.extent.Apart e)
      (segment : Segment.of? e = some s) : Judged segments e (.ok s)

theorem Judged.segment {segments : List Segment} {s : Segment} (j : Judged segments e (.ok s))
    (valid : e.Valid) : s.Legal ∧ s.extent = e ∧ ∀ t ∈ segments, t.extent.Apart s.extent := by
  cases j with
  | fits apart segment =>
    obtain ⟨legal, rfl⟩ := Segment.legal_of_of? valid segment
    exact ⟨legal, rfl, apart⟩

/-- **Registering decides** by the segments alone: an extent is refused, and nothing changes, or it
makes a segment apart from all others. -/
theorem addPool_eq {segments : List Segment} (legal : ∀ s ∈ segments, s.Legal) (valid : e.Valid) :
    ∃ r, Judged segments e r ∧
      ∀ {γ : Type} (h : Heap γ) (m : Memory), h.segments = segments →
        addPool e ⟨h, m⟩ = settle r ⟨h, m⟩ := by
  obtain ⟨answer, overlap, apart⟩ := overlapsAny_eq valid fun s hs => (legal s hs).valid
  cases answer with
  | true =>
    refine ⟨_, .overlapping "extent overlaps a registered pool" fun off => ?_, fun h m same => ?_⟩
    · cases apart.mpr off
    · unfold addPool
      rw [Action.part_bind, same, Action.lift_ok_bind overlap]
      rfl
  | false =>
    cases segment : Segment.of? e with
    | none =>
      refine ⟨_, .narrow s!"extent of {e.len} bytes cannot hold a {minBlock}-byte block" segment,
        fun h m same => ?_⟩
      unfold addPool
      rw [Action.part_bind, same, Action.lift_ok_bind overlap, segment]
      rfl
    | some s =>
      refine ⟨_, .fits (apart.mp rfl) segment, fun h m same => ?_⟩
      unfold addPool
      rw [Action.part_bind, same, Action.lift_ok_bind overlap, segment]
      rfl

/-- A segment apart from all others is registered. -/
theorem register_run {s : Segment} (lends : h.Lends m L) (legal : s.Legal)
    (apart : ∀ t ∈ h.segments, t.extent.Apart s.extent) :
    ∃ m', register s ⟨h, m⟩ = .ok () ⟨h.push s, m'⟩ ∧ Registered h m L s.extent s m' := by
  obtain ⟨m', run, tiled, changed⟩ := register_laid h m legal
  have off : ∀ f ∈ h.extents, f.Apart s.extent := by
    intro f hf
    obtain ⟨t, ht, rfl⟩ := List.mem_map.mp hf
    exact apart t ht
  refine ⟨m', run, lends.push legal apart changed tiled, rfl, off,
    fun f hf x hx => changed x fun g hg hxg => ?_, ?_⟩
  · rw [List.mem_singleton.mp hg] at hxg
    exact (off f hf).not_mem hx hxg
  · exact extents_push ▸ changed.mono (List.subset_append_right _ _)

theorem Lends.legal {s : Segment} (lends : h.Lends m L) (hs : s ∈ h.segments) : s.Legal := by
  obtain ⟨parts, o, -⟩ := lends
  exact o.legal s hs

/-- **Registering an extent** adds one segment, or is refused and changes nothing. -/
theorem addPool_spec (lends : h.Lends m L) (valid : e.Valid) :
    Action.Meets (addPool e) ⟨h, m⟩
      (fun _ s' => ∃ s m', s' = ⟨h.push s, m'⟩ ∧ Registered h m L e s m')
      (fun _ s' => s' = ⟨h, m⟩) := by
  obtain ⟨r, judged, run⟩ := addPool_eq (fun s hs => lends.legal hs) valid
  cases r with
  | error f => exact .of_fault (run h m rfl) rfl
  | ok s =>
    obtain ⟨legal, rfl, apart⟩ := judged.segment valid
    obtain ⟨m', laid, w⟩ := register_run lends legal apart
    exact .of_ok ((run h m rfl).trans laid) ⟨s, m', rfl, w⟩

/-! ### A heap and its growth source -/

theorem onGrowth_of_ok {α : Type} {x : Action γ α} {a : α} {g : γ}
    (run : x ⟨h.growth, m⟩ = .ok a ⟨g, m'⟩) :
    onGrowth x ⟨h, m⟩ = .ok a ⟨{ h with growth := g }, m'⟩ := by
  unfold onGrowth
  exact Action.within_of_ok run

variable [GrowthSource γ] {C : GrowthContract γ}

/-- The heap lends `L`, its growth source is in order, and it grew no more often than it has
segments. -/
structure Serves (C : GrowthContract γ) (h : Heap γ) (m : Memory) (L : Multiset Extent) : Prop where
  lends : h.Lends m L
  ready : C.Ready h.growth m h.extents
  counted : h.growths ≤ h.segments.length

/-- The memory `m₁` between what the growth source did and what the heap `h'` did itself. A heap
that is to serve `n` bytes may have asked for room, and for no more than the block takes. -/
def Asked (n : Option Nat) (h : Heap γ) (m : Memory) (h' : Heap γ) (m₁ : Memory) : Prop :=
  (m₁ = m ∧ h'.growth = h.growth) ∨ ∃ k ∈ n, ∃ need answer, blockSizeFor k = some need ∧
    GrowthSource.request (need + (granule + Word.bytes)) ⟨h.growth, m⟩ = .ok answer ⟨h'.growth, m₁⟩

/-- Before and after an operation of a heap, which may have needed room for `n` bytes: the heap
serves again and lends `L`, the bytes of the extents in `K` stayed, and so did all bytes outside the
segments but for what the growth source wrote. -/
structure Served (C : GrowthContract γ) (n : Option Nat) (h : Heap γ) (m : Memory)
    (K : Multiset Extent) (h' : Heap γ) (m' : Memory) (L : Multiset Extent) : Prop where
  serves : h'.Serves C m' L
  keeps : m.Keeps m' K
  changed : ∃ m₁, Asked n h m h' m₁ ∧ m₁.ChangedIn m' h'.extents
  config : h'.config = h.config
  segments : h.segments <+: h'.segments

theorem Became.serves (w : Became h m K h' m' L) (s : h.Serves C m L') : h'.Serves C m' L := by
  refine ⟨w.lends, ?_, ?_⟩
  · rw [w.growth_eq, w.extents_eq]
    exact C.frame s.ready w.changed
  · rw [w.same]
    exact s.counted

theorem Became.served (w : Became h m K h' m' L) (s : h.Serves C m L') :
    Served C k h m K h' m' L := by
  have config : h'.config = h.config := by rw [w.same]
  have segments : h'.segments = h.segments := by rw [w.same]
  exact ⟨w.serves s, w.keeps, ⟨m, .inl ⟨rfl, w.growth_eq⟩, w.extents_eq ▸ w.changed⟩, config,
    segments ▸ List.prefix_refl _⟩

theorem Served.refl (s : h.Serves C m L) : Served C k h m K h m L :=
  Became.served (.refl s.lends) s

theorem Served.mono (w : Served C k h m K h' m' L) (sub : K' ⊆ K) : Served C k h m K' h' m' L :=
  { w with keeps := w.keeps.mono sub }

/-- An operation followed by one that does not grow. -/
theorem Served.trans (w : Served C k h m K h' m' L') (w' : Became h' m' K h'' m'' L) :
    Served C k h m K h'' m'' L := by
  obtain ⟨m₁, asked, changed⟩ := w.changed
  have next : Served C k h' m' K h'' m'' L := w'.served w.serves
  refine ⟨next.serves, w.keeps.trans w'.keeps, ⟨m₁, ?_, w'.extents_eq ▸ changed.trans w'.changed⟩,
    next.config.trans w.config, w.segments.trans next.segments⟩
  unfold Asked
  rw [w'.growth_eq]
  exact asked

/-- How a request for `n` bytes is refused. -/
def refusal (n : Nat) : Fault :=
  if n = 0 then .zeroSize else .outOfMemory n granule

/-- A request for `n` bytes is refused. The heap may have grown, but no byte of the segments that it
had is another. -/
structure Refused (C : GrowthContract γ) (n : Nat) (h : Heap γ) (m : Memory) (L : Multiset Extent)
    (f : Fault) (s' : Store (Heap γ)) : Prop where
  fault : f = refusal n
  keeps : m.Keeps s'.memory (h.extents : Multiset Extent)
  served : Served C (some n) h m L s'.part s'.memory L

theorem Refused.refl (s : h.Serves C m L) : Refused C n h m L (refusal n) ⟨h, m⟩ :=
  ⟨rfl, .refl m _, .refl s⟩

/-- **Growing** adds room to a heap, or none. -/
theorem grow_spec {need : Nat} (s : h.Serves C m L) (pos : 0 < n)
    (fit : blockSizeFor n = some need) :
    Action.Meets (grow n need) ⟨h, m⟩
      (fun _ s' => m.Keeps s'.memory (h.extents : Multiset Extent) ∧
        Served C (some n) h m L s'.part s'.memory L ∧ s'.part.growths = h.growths + 1)
      (Refused C n h m L) := by
  have fault : Fault.outOfMemory n granule = refusal n :=
    (if_neg (Nat.pos_iff_ne_zero.mp pos)).symm
  unfold grow
  cases sum : Word.add? need (granule + Word.bytes) with
  | none => exact .fault (fault ▸ .refl s)
  | some minLen =>
    obtain ⟨-, rfl⟩ := Word.add?_eq_some_iff.mp sum
    obtain ⟨answer, g, m₁, run, keeps, ready, valid⟩ :=
      C.request (need + (granule + Word.bytes)) s.ready
    -- The source keeps to itself, so payloads and tags are as they were.
    have lends : { h with growth := g }.Lends m₁ L :=
      (s.lends.frame fun f hf x hx _ => keeps f hf x hx).with_growth g
    have asked {h' : Heap γ} (same : h'.growth = g) : Asked (some n) h m h' m₁ :=
      .inr ⟨n, rfl, need, answer, fit, same ▸ run⟩
    have refused : Refused C n h m L (.outOfMemory n granule) ⟨{ h with growth := g }, m₁⟩ :=
      ⟨fault, keeps, ⟨lends, ready, s.counted⟩, s.lends.keeps keeps, ⟨m₁, asked rfl, .refl _ _⟩,
        rfl, List.prefix_refl _⟩
    refine .step (onGrowth_of_ok run) ?_
    cases answer with
    | none => exact .fault refused
    | some e =>
      obtain ⟨valid, ready⟩ := valid e rfl
      refine .bind (addPool_spec lends valid).attempt fun r s' outcome => ?_
      cases r with
      | error f =>
        cases outcome
        exact .fault refused
      | ok u =>
        obtain ⟨t, m₂, rfl, w⟩ := outcome
        refine .finish ?_
        have ready : C.Ready g m₂ ({ h with growth := g }.push t).extents :=
          C.frame (extents_push ▸ w.extent ▸ ready) w.changed
        have grown : h.growths + 1 ≤ (h.segments ++ [t]).length := by
          rw [List.length_append]
          exact Nat.succ_le_succ s.counted
        have serves := w.lends.with_last getLast?_push (h.growths + 1)
        have kept : m.Keeps m₂ (h.extents : Multiset Extent) := keeps.trans w.keeps
        exact ⟨kept, ⟨⟨serves, ready, grown⟩, s.lends.keeps kept, ⟨m₁, asked rfl, w.changed⟩, rfl,
          List.prefix_append _ _⟩, rfl⟩

theorem addPool_served (s : h.Serves C m L) (valid : e.Valid)
    (ready : (∀ f ∈ h.extents, f.Apart e) → C.Ready h.growth m (h.extents ++ [e])) :
    Action.Meets (addPool e) ⟨h, m⟩ (fun _ s' => Served C none h m L s'.part s'.memory L)
      (fun _ s' => Served C none h m L s'.part s'.memory L) := by
  refine (addPool_spec s.lends valid).mono ?_ ?_
  · rintro _ _ ⟨t, m', rfl, w⟩
    have ready : C.Ready h.growth m (h.push t).extents :=
      extents_push ▸ w.extent ▸ ready w.apart
    have grown : h.growths ≤ (h.segments ++ [t]).length := by
      rw [List.length_append]
      exact s.counted.trans (Nat.le_add_right ..)
    exact ⟨⟨w.lends, C.frame ready w.changed, grown⟩, s.lends.keeps w.keeps,
      ⟨m, .inl ⟨rfl, rfl⟩, w.changed⟩, rfl, List.prefix_append _ _⟩
  · rintro _ _ rfl
    exact .refl s

/-! ### Handing blocks out -/

/-- Handing out a block, from what the heap has, which changes no segment, or from what its growth
source adds, which the heap counts. -/
theorem malloc_outcome (s : h.Serves C m L) (n : Nat) :
    Action.Meets (malloc n) ⟨h, m⟩
      (fun p s' => ∃ size, blockSizeFor n = some size ∧
        ((∃ x, h.findFit m size = some x) ∧
            Became h m L s'.part s'.memory (⟨p, size - 8⟩ ::ₘ L) ∨
          h.findFit m size = none ∧
            Served C (some n) h m L s'.part s'.memory (⟨p, size - 8⟩ ::ₘ L) ∧
            s'.part.growths = h.growths + 1))
      (Refused C n h m L) := by
  unfold malloc
  by_cases zero : n = 0
  · have fault : Fault.zeroSize = refusal n := (if_pos zero).symm
    rw [if_pos zero]
    exact .fault (fault ▸ .refl s)
  have fault : Fault.outOfMemory n granule = refusal n := (if_neg zero).symm
  rw [if_neg zero]
  cases size : blockSizeFor n with
  | none => exact .fault (fault ▸ .refl s)
  | some need =>
    obtain ⟨aligned, -, pos, -⟩ := blockSizeFor_spec size
    refine .step (s.lends.seek_eq need) ?_
    cases found : h.findFit m need with
    | some block =>
      obtain ⟨h', m', run, w, -⟩ := findFit_place s.lends found aligned pos
      exact .of_ok run ⟨need, rfl, .inl ⟨⟨block, found⟩, w⟩⟩
    | none =>
      refine .bind (grow_spec s (Nat.pos_of_ne_zero zero) size)
        fun _ ⟨h₁, m₁⟩ ⟨kept, grown, counted⟩ => ?_
      refine .step (grown.serves.lends.seek_eq need) ?_
      cases found' : h₁.findFit m₁ need with
      | some block =>
        obtain ⟨h', m', run, w, -⟩ := findFit_place grown.serves.lends found' aligned pos
        exact .of_ok run ⟨need, rfl, .inr ⟨found, grown.trans w, by rw [w.same]; exact counted⟩⟩
      | none => exact .fault ⟨fault, kept, grown⟩

/-- **Handing out a block.** -/
theorem malloc_spec (s : h.Serves C m L) (n : Nat) :
    Action.Meets (malloc n) ⟨h, m⟩
      (fun p s' => ∃ size, blockSizeFor n = some size ∧
        Served C (some n) h m L s'.part s'.memory (⟨p, size - 8⟩ ::ₘ L))
      (Refused C n h m L) :=
  (malloc_outcome s n).mono
    (fun _ _ ⟨size, fit, w⟩ => ⟨size, fit, w.elim (fun w => w.2.served s) fun w => w.2.1⟩)
    fun _ _ w => w

/-- Handing out a block from what the heap has changes no segment. -/
theorem malloc_ungrown {p : Nat} {s' : Store (Heap γ)} (s : h.Serves C m L)
    (run : malloc n ⟨h, m⟩ = .ok p s') (ungrown : s'.part.growths = h.growths) :
    ∃ size, Became h m L s'.part s'.memory (⟨p, size - 8⟩ ::ₘ L) := by
  obtain ⟨size, -, ⟨-, w⟩ | ⟨-, -, counted⟩⟩ := (malloc_outcome s n).answer run
  · exact ⟨size, w⟩
  · exact absurd (counted.symm.trans ungrown) (Nat.succ_ne_self _)

/-- **Handing out a block of zeros.** -/
theorem mallocZeroed_spec (s : h.Serves C m L) (n : Nat) :
    Action.Meets (mallocZeroed n) ⟨h, m⟩
      (fun p s' => ∃ size, blockSizeFor n = some size ∧
        Served C (some n) h m L s'.part s'.memory (⟨p, size - 8⟩ ::ₘ L) ∧
        ∀ i < n, s'.memory.read (p + i) = 0)
      (Refused C n h m L) := by
  unfold mallocZeroed
  refine .bind (malloc_spec s n) fun p ⟨h₁, m₁⟩ ⟨size, fit, w⟩ => ?_
  obtain ⟨-, room, -⟩ := blockSizeFor_spec fit
  refine .modifyMemory (.pure ⟨size, fit, ?_, fun i hi => ?_⟩)
  · exact w.trans (w.serves.lends.write (m₁.changedWithin_fill p n 0) (Nat.le_refl _)
      (by dsimp only; omega))
  · rw [Memory.read_fill, if_pos (by omega)]

/-! ### Taking blocks back -/

/-- **Taking a block back.** -/
theorem free_spec (s : h.Serves C m (e ::ₘ L)) :
    Action.Meets (free e.start) ⟨h, m⟩ (fun _ s' => Served C none h m L s'.part s'.memory L)
      (fun _ _ => False) := by
  obtain ⟨h', m', run, w⟩ := free_run s.lends
  exact .of_ok run (w.served s)

theorem tryFree_spec (s : h.Serves C m (e ::ₘ L)) :
    Action.Meets (tryFree e.start) ⟨h, m⟩ (fun _ s' => Served C none h m L s'.part s'.memory L)
      (fun _ _ => False) := by
  obtain ⟨h', m', run, w⟩ := tryFree_run s.lends
  exact .of_ok run (w.served s)

/-! ### Resizing -/

/-- The block at `e` was moved to `q`: a fresh one was handed out, what `e` holds was copied there
as far as there is room, and then `e`, which was lent until then, was taken back. -/
def Moved (h : Heap γ) (m : Memory) (e : Extent) (n q : Nat) (s' : Store (Heap γ)) : Prop :=
  q ≠ e.start ∧ ∃ h₁ m₁ L, malloc n ⟨h, m⟩ = .ok q ⟨h₁, m₁⟩ ∧
    h₁.Lends (m₁.copy e.start q (min e.len n)) (e ::ₘ L) ∧
    release e.start ⟨h₁, m₁.copy e.start q (min e.len n)⟩ = .ok () s'

/-- **Moving a block**: what it holds, as far as there is room, is in the new one. It fails where
handing out a new one fails. -/
theorem moveTo_spec (s : h.Serves C m (e ::ₘ L)) (n : Nat) :
    Action.Meets (moveTo e.start (e.len + 8) n) ⟨h, m⟩
      (fun q s' => ∃ size, blockSizeFor n = some size ∧ Moved h m e n q s' ∧
        Served C (some n) h m L s'.part s'.memory (⟨q, size - 8⟩ ::ₘ L) ∧
        ∀ i < min e.len n, s'.memory.read (q + i) = m.read (e.start + i))
      (fun f s' => malloc n ⟨h, m⟩ = .error (.fault f) s' ∧ Refused C n h m (e ::ₘ L) f s') := by
  unfold moveTo
  refine .bind (malloc_spec s n).traced
    fun q ⟨h₁, m₁⟩ ⟨run₁, size, fit, w⟩ => ?_
  obtain ⟨-, room, pos, -⟩ := blockSizeFor_spec fit
  have len : Word.sub (e.len + 8) Word.bytes = .ok e.len :=
    Word.sub_eq_ok_iff.mpr ⟨Nat.le_add_left 8 e.len, rfl⟩
  refine .lift len (.modifyMemory ?_)
  -- While bytes are copied both blocks are lent; then the old one goes back.
  let m₂ := m₁.copy e.start q (min e.len n)
  have copied : Served C (some n) h m (e ::ₘ L) h₁ m₂ (⟨q, size - 8⟩ ::ₘ e ::ₘ L) :=
    w.trans (w.serves.lends.write (m₁.changedWithin_copy e.start q _) (Nat.le_refl _)
      (by dsimp only; omega))
  have swapped : h₁.Serves C m₂ (e ::ₘ ⟨q, size - 8⟩ ::ₘ L) :=
    Multiset.cons_swap _ _ _ ▸ copied.serves
  have fresh : q ≠ e.start := by
    have apart := w.serves.lends.apart (Multiset.mem_cons_self e L)
    have := (w.serves.lends.bounds (Multiset.mem_cons_of_mem (Multiset.mem_cons_self e L))).2.1
    dsimp only [Extent.Apart] at apart
    omega
  obtain ⟨h', m', run, became, -⟩ := release_run swapped.lends
  refine .step run (.pure ⟨size, fit, ⟨fresh, h₁, m₁, _, run₁, swapped.lends, run⟩, ?_,
    fun i hi => ?_⟩)
  · exact (copied.mono (Multiset.subset_cons L e)).trans (became.mono (Multiset.subset_cons _ _))
  · have here : q + i ∈ (⟨q, size - 8⟩ : Extent) := by
      rw [Extent.mem_iff]
      dsimp only
      omega
    have there : e.start + i ∈ e := Extent.mem_iff.mpr ⟨by omega, by omega⟩
    rw [became.keeps _ (Multiset.mem_cons_self _ _) _ here,
      ← w.keeps e (Multiset.mem_cons_self e L) _ there,
      Memory.read_copy, if_pos (by omega), Nat.add_sub_cancel_left]

/-- There is room for a block of `need` bytes where `e` is: in its own block, or with the free one
behind it. -/
def Roomy (m : Memory) (e : Extent) (need : Nat) : Prop :=
  need ≤ e.len + 8 ∨ Tag.isAllocated (m.readWord (e.start + e.len)) = false ∧
    need ≤ e.len + 8 + Tag.size (m.readWord (e.start + e.len))

/-- The block at `e` serves `n` bytes now, at `q`: in place where there is room, and moved where
there is none. -/
structure Resized (C : GrowthContract γ) (n : Nat) (h : Heap γ) (m : Memory) (e : Extent)
    (L : Multiset Extent) (q : Nat) (s' : Store (Heap γ)) (size : Nat) : Prop where
  fit : blockSizeFor n = some size
  place : Roomy m e size ∧ q = e.start ∨ ¬Roomy m e size ∧ Moved h m e n q s'
  served : Served C (some n) h m L s'.part s'.memory (⟨q, size - 8⟩ ::ₘ L)
  kept : ∀ i < min e.len n, s'.memory.read (q + i) = m.read (e.start + i)

/-- The block at `e` is as it was: there is no room in place, nor elsewhere. -/
structure Unresized (C : GrowthContract γ) (n : Nat) (h : Heap γ) (m : Memory) (e : Extent)
    (L : Multiset Extent) (f : Fault) (s' : Store (Heap γ)) : Prop where
  nowhere : malloc n ⟨h, m⟩ = .error (.fault f) s'
  refused : Refused C n h m (e ::ₘ L) f s'
  tight : 0 < n → ∀ size, blockSizeFor n = some size → ¬Roomy m e size

/-- Resizing a block, which fails only where there is no room for it. -/
theorem realloc_outcome (s : h.Serves C m (e ::ₘ L)) (n : Nat) :
    Action.Meets (realloc e.start n) ⟨h, m⟩
      (fun q s' => ∃ size, Resized C n h m e L q s' size)
      (Unresized C n h m e L) := by
  have mem := Multiset.mem_cons_self e L
  unfold realloc
  by_cases zero : n = 0
  · have fault : Fault.zeroSize = refusal n := (if_pos zero).symm
    have nowhere : malloc n ⟨h, m⟩ = .error (.fault .zeroSize) ⟨h, m⟩ := by rw [zero]; rfl
    rw [if_pos zero]
    exact .fault ⟨nowhere, fault ▸ .refl s,
      fun pos => absurd zero (Nat.pos_iff_ne_zero.mp pos)⟩
  have fault : Fault.outOfMemory n granule = refusal n := (if_neg zero).symm
  rw [if_neg zero]
  refine .part (.memory ?_)
  rw [s.lends.verified mem]
  cases size : blockSizeFor n with
  | none =>
    have nowhere : malloc n ⟨h, m⟩ = .error (.fault (.outOfMemory n granule)) ⟨h, m⟩ := by
      unfold malloc
      rw [if_neg zero, size]
      rfl
    exact .fault ⟨nowhere, fault ▸ .refl s, fun _ k fit => by rw [size] at fit; cases fit⟩
  | some need =>
    obtain ⟨aligned, room, pos, -⟩ := blockSizeFor_spec size
    dsimp only
    obtain ⟨header, next, fits⟩ := s.lends.headers
    have start := s.lends.payload_eq mem
    rw [header, next]
    have moved (tight : ¬Roomy m e need) : Action.Meets (moveTo e.start (e.len + 8) n) ⟨h, m⟩
        (fun q s' => ∃ size, Resized C n h m e L q s' size)
        (Unresized C n h m e L) := by
      refine (moveTo_spec s n).mono ?_ ?_
      · rintro q s' ⟨size', fit, w, served, kept⟩
        obtain rfl := Option.some.inj (size.symm.trans fit)
        exact ⟨need, fit, .inr ⟨tight, w⟩, served, kept⟩
      · intro f s' ⟨nowhere, refused⟩
        exact ⟨nowhere, refused, fun _ size' fit => Option.some.inj (size.symm.trans fit) ▸ tight⟩
    by_cases shrinks : need ≤ e.len + 8
    · rw [if_pos shrinks]
      obtain ⟨h', m', run, w, -⟩ := shrinkTo_spec s.lends start shrinks aligned pos
      refine .step run (.pure ⟨need, size, .inl ⟨.inl shrinks, rfl⟩,
        (w.mono (Multiset.subset_cons _ _)).served s, fun i hi => ?_⟩)
      refine w.keeps _ (Multiset.mem_cons_self _ _) _ ?_
      rw [Extent.mem_iff]
      dsimp only
      omega
    rw [if_neg shrinks]
    cases free : Tag.isAllocated (m.readWord (e.start + e.len)) with
    | true =>
      rw [if_pos rfl]
      refine moved fun roomy => roomy.elim shrinks fun vacant => ?_
      rw [free] at vacant
      cases vacant.1
    | false =>
      have := (s.lends.valid mem).start_pos
      have := (s.lends.bounds mem).1
      rw [if_neg nofun]
      refine .lift (Word.add_eq_ok_iff.mpr ⟨by omega, rfl⟩) ?_
      by_cases grows : need ≤ e.len + 8 + Tag.size (m.readWord (e.start + e.len))
      · rw [if_pos grows]
        obtain ⟨h', m', run, w, -⟩ :=
          extendTo_spec s.lends start free rfl (by omega) grows aligned
        refine .step run (.pure ⟨need, size, .inl ⟨.inr ⟨free, grows⟩, rfl⟩,
          (w.mono (Multiset.subset_cons _ _)).served s, fun i hi => ?_⟩)
        exact w.keeps e mem _ (Extent.mem_iff.mpr ⟨by omega, by omega⟩)
      · rw [if_neg grows]
        exact moved fun roomy => roomy.elim shrinks fun vacant => grows vacant.2

/-- **Resizing a block**, in place or by moving it. A fault leaves it as it was. -/
theorem realloc_spec (s : h.Serves C m (e ::ₘ L)) (n : Nat) :
    Action.Meets (realloc e.start n) ⟨h, m⟩
      (fun q s' => ∃ size, blockSizeFor n = some size ∧
        Served C (some n) h m L s'.part s'.memory (⟨q, size - 8⟩ ::ₘ L) ∧
        ∀ i < min e.len n, s'.memory.read (q + i) = m.read (e.start + i))
      (Refused C n h m (e ::ₘ L)) :=
  (realloc_outcome s n).mono (fun _ _ ⟨size, w⟩ => ⟨size, w.fit, w.served, w.kept⟩)
    fun _ _ w => w.refused

end LayeredMemory.Heap
