import LayeredMemory.Proofs.Heap.NextFit
import LayeredMemory.Proofs.Heap.Noted
import LayeredMemory.Proofs.Heap.Registration

/-!
# Expansion — one request for room is enough

When no free block fits, a heap asks its growth source for room once. What it asks for is more than
the block by a granule and a word, and that is enough whatever the alignment of the extent that it
gets (`Segment.margin_suffices`).

* `grow_outcome`: growing makes a segment of what the source answers, if that `Suits` the heap, and
  otherwise changes nothing but the source.
* `Grown.place_first`: then the first block of the new segment is found, and serves.
* `malloc_asks`: what is asked was asked once, whatever comes of it.
* `reachable_grows`: so it is after every run.
-/

namespace LayeredMemory

/-- **The margin is enough**: a granule and a word cover what alignment, header and epilogue can
take. -/
theorem Segment.margin_suffices {e : Extent} {need : Nat} (aligned : 16 ∣ need)
    (long : need + 24 ≤ e.len) :
    firstFor e + (need + 8) ≤ e.start + e.len ∧
      need ≤ (e.start + e.len - (firstFor e + 8)) / 16 * 16 := by
  unfold firstFor
  omega

namespace Heap

variable {γ : Type} {h : Heap γ} {m m₁ : Memory} {L : Multiset Extent} {parts : List Part} {n : Nat}
  {need : Nat} {g : γ} {e : Extent} {s : Segment} {s' : Store (Heap γ)} {answer : Option Extent}

/-- These blocks have no room for the one of `need` bytes that `n` bytes take. -/
structure Wants (bs : List BlockInfo) (n need : Nat) : Prop where
  pos : n ≠ 0
  fit : blockSizeFor n = some need
  short : ∀ b ∈ bs, b.allocated = false → b.size < need

/-- A heap that was in order with `parts` has the segment `s` besides, as one free block at which
the next search starts. Since the source was `g` and memory `m₁` only bytes of the segment are
new. -/
structure Grown (h : Heap γ) (parts : List Part) (g : γ) (m₁ : Memory) (s : Segment)
    (s' : Store (Heap γ)) : Prop where
  part : s'.part = { h with
    segments := h.segments ++ [s], cursor := some s.first, growth := g, growths := h.growths + 1 }
  order : InOrder s'.part s'.memory (parts ++ [(s, [⟨s.first, s.usable, false⟩])])
  changed : m₁.ChangedIn s'.memory [s.extent]

/-- Before and after a request that was served by growing: the source is `g` now, the block of
`need` bytes is the first one of the new segment `s`, and no block of another is new, nor what the
heap lends. -/
structure Expands (h : Heap γ) (m : Memory) (L : Multiset Extent) (need : Nat) (g : γ)
    (s : Segment) (s' : Store (Heap γ)) : Prop where
  part : s'.part = { h with
    segments := h.segments ++ [s]
    cursor := some (s.first + need)
    growth := g
    growths := h.growths + 1 }
  blocks : ∃ bs, h.blocks m = .ok bs ∧
    s'.part.blocks s'.memory = .ok (bs ++ BlockInfo.carve ⟨s.first, s.usable, false⟩ need)
  others : ∀ t ∈ h.segments, segmentBlocks s'.memory t = segmentBlocks m t
  keeps : m.Keeps s'.memory L

theorem Suits.of_same {δ : Type} {d : Heap δ} (suits : h.Suits e)
    (segments : d.segments = h.segments) : d.Suits e := by
  refine ⟨fun f hf => suits.clear f ?_, suits.room⟩
  unfold extents at hf ⊢
  rwa [segments] at hf

/-- What is as long as it was asked for suits a heap that has none of it yet. -/
theorem Suits.of_long (clear : ∀ f ∈ h.extents, ∀ x ∈ f, x ∉ e) (aligned : 16 ∣ need)
    (large : 16 ≤ need) (long : need + 24 ≤ e.len) : h.Suits e := by
  have := (Segment.margin_suffices aligned long).1
  exact ⟨clear, by omega⟩

theorem Grown.keeps (grown : Grown h parts g m₁ s s')
    (clear : ∀ f ∈ h.extents, ∀ x ∈ f, x ∉ s.extent) :
    m₁.Keeps s'.memory (h.extents : Multiset Extent) := by
  refine fun f hf x hx => grown.changed x fun e he => ?_
  rw [List.mem_singleton.mp he]
  exact clear f hf x hx

/-- **The first block of a new segment** is found, and serves. -/
theorem Grown.place_first (grown : Grown h parts g m₁ s s') (o : InOrder h m parts)
    (keeps : m.Keeps m₁ (h.extents : Multiset Extent))
    (clear : ∀ f ∈ h.extents, ∀ x ∈ f, x ∉ s.extent) (aligned : 16 ∣ need) (large : 16 ≤ need)
    (room : need ≤ s.usable) :
    s'.part.findFit s'.memory need = some s.first ∧ ∃ s'',
      place s.first need s' = .ok (payload s.first) s'' ∧
        Expands h m (lent (blocksIn parts)) need g s s'' := by
  obtain ⟨h₁, m₂⟩ := s'
  have part : h₁ = { h with
    segments := h.segments ++ [s], cursor := some s.first, growth := g, growths := h.growths + 1 } :=
    grown.part
  obtain ⟨rest, first⟩ := grown.order.circle_head (d := ⟨s.first, s.usable, false⟩)
    (by simp [blocksIn]) (congrArg Heap.cursor part)
  have found : (circle h₁.cursor (parts ++ [(s, [⟨s.first, s.usable, false⟩])])).find?
      (·.fits need) = some ⟨s.first, s.usable, false⟩ := by
    rw [first, List.find?_cons_of_pos]
    exact decide_eq_true ⟨rfl, room⟩
  refine ⟨by rw [grown.order.findFit_eq, found]; rfl, ?_⟩
  -- The new segment is cut at its only block.
  have order : InOrder h₁ m₂
      (parts ++ (s, [] ++ ([⟨s.first, s.usable, false⟩] ++ [])) :: []) := grown.order
  have lends : lent (blocksIn (parts ++ (s, [] ++ ([⟨s.first, s.usable, false⟩] ++ [])) :: [])) =
      lent (blocksIn parts) := by
    simp [blocksIn, lent_cons_of_free]
  obtain ⟨h', m', run, w, -, moved⟩ := place_spec order lends rfl room aligned large
  have kept : m.Keeps m₂ (lent (blocksIn parts)) :=
    Lends.keeps ⟨parts, o, rfl⟩ (keeps.trans (grown.keeps clear))
  refine ⟨⟨h', m'⟩, run, ?_, ?_, fun t ht => ?_, kept.trans w.keeps⟩
  · exact w.same.trans (by rw [moved, part])
  · refine ⟨_, o.blocks_eq, ?_⟩
    rw [w.order.blocks_eq, blocksIn_append]
    simp [blocksIn]
  · obtain ⟨u, hu, rfl⟩ := List.mem_map.mp (o.segments ▸ ht : t ∈ parts.map Prod.fst)
    rw [segmentBlocks_eq (o.tiled u hu),
      segmentBlocks_eq (w.order.tiled u (List.mem_append_left _ hu))]

theorem InOrder.findFit_of_wants (o : InOrder h m parts) (wants : Wants (blocksIn parts) n need) :
    h.findFit m need = none :=
  o.findFit_eq_none_iff.mpr wants.short

theorem Wants.fits {bs : List BlockInfo} (wants : Wants bs n need) :
    16 ∣ need ∧ 16 ≤ need ∧ need + 24 < Word.bound := by
  obtain ⟨aligned, -, large, le⟩ := blockSizeFor_spec wants.fit
  have : Word.signedMax + 24 < Word.bound := by decide
  exact ⟨aligned, large, by omega⟩

variable [GrowthSource γ]

/-- **Growing** makes a segment of the answer of the source if it suits the heap, and otherwise
changes nothing but the source. -/
theorem grow_outcome (o : InOrder h m parts) (fits : need + 24 < Word.bound)
    (keeps : m.Keeps m₁ (h.extents : Multiset Extent)) (valid : ∀ e, answer = some e → e.Valid)
    (run : GrowthSource.request (need + 24) ⟨h.growth, m⟩ = .ok answer ⟨g, m₁⟩) :
    Action.Meets (grow n need) ⟨h, m⟩
      (fun _ s' => ∃ e s, answer = some e ∧ h.Suits e ∧ Segment.of? e = some s ∧
        Grown h parts g m₁ s s')
      (fun f s' => (∀ e, answer = some e → ¬h.Suits e) ∧ f = .outOfMemory n granule ∧
        s' = ⟨{ h with growth := g }, m₁⟩) := by
  have sum : Word.add? need (granule + Word.bytes) = some (need + 24) :=
    Word.add?_eq_some_iff.mpr ⟨fits, rfl⟩
  unfold grow
  rw [sum]
  refine .step (onGrowth_of_ok run) ?_
  cases answer with
  | none => exact .fault ⟨nofun, rfl, rfl⟩
  | some e =>
    have o : InOrder { h with growth := g } m₁ parts := by
      refine InOrder.of_same (h := h) ?_ rfl rfl
      exact o.frame fun s hs x hx _ => keeps _ (List.mem_map_of_mem hs) x hx
    refine .bind (addPool_exact o.laidOut (valid e rfl) m₁).attempt fun r s' outcome => ?_
    cases r with
    | error f =>
      obtain ⟨unsuited, -, rfl⟩ := outcome
      refine .fault ⟨?_, rfl, rfl⟩
      rintro _ ⟨⟩ suits
      exact unsuited (suits.of_same rfl)
    | ok u =>
      obtain ⟨suits, s, segment, registers⟩ := outcome
      obtain ⟨legal, rfl⟩ := Segment.legal_of_of? (valid e rfl) segment
      refine .finish ⟨_, s, rfl, suits.of_same rfl, segment, ?_, ?_, registers.inside⟩
      · rw [registers.part, List.getLast?_concat]
        rfl
      · rw [registers.part, List.getLast?_concat]
        exact (registers.part ▸ registers.order o suits legal).with_cursor
          (List.mem_append_right _ List.mem_cons_self) _

/-- What a request comes to after the heap has grown. -/
def retry (n need : Nat) : Action (Heap γ) Nat := do
  match ← seek need with
  | some block => place block need
  | none => Action.fault (.outOfMemory n granule)

/-- A request for which there is no room makes the heap grow. -/
theorem malloc_unfit (o : InOrder h m parts) (wants : Wants (blocksIn parts) n need) :
    malloc n ⟨h, m⟩ = (grow n need >>= fun _ => retry n need) ⟨h, m⟩ := by
  unfold malloc
  rw [if_neg wants.pos, wants.fit]
  dsimp only
  rw [Action.bind_of_ok (o.seek_eq need), o.findFit_of_wants wants]
  rfl

/-- **One request is enough**: it is served from what the source answers. -/
theorem malloc_grown (o : InOrder h m parts) (wants : Wants (blocksIn parts) n need)
    (keeps : m.Keeps m₁ (h.extents : Multiset Extent)) (valid : e.Valid)
    (run : GrowthSource.request (need + 24) ⟨h.growth, m⟩ = .ok (some e) ⟨g, m₁⟩)
    (clear : ∀ f ∈ h.extents, ∀ x ∈ f, x ∉ e) (long : need + 24 ≤ e.len) :
    ∃ s s', s.extent = e ∧ malloc n ⟨h, m⟩ = .ok (payload s.first) s' ∧
      Expands h m (lent (blocksIn parts)) need g s s' := by
  obtain ⟨aligned, large, fits⟩ := wants.fits
  have suits : h.Suits e := .of_long clear aligned large long
  have outcome := grow_outcome (n := n) o fits keeps (by rintro _ ⟨⟩; exact valid) run
  rcases outcome.cases with ⟨_, s₁, grew, _, s, ⟨⟩, -, segment, grown⟩ | ⟨_, _, -, unsuited, -⟩
  · obtain ⟨-, rfl⟩ := (Segment.of?_eq_some_iff valid).mp segment
    obtain ⟨found, s', placed, expands⟩ := grown.place_first o keeps clear aligned large
      (Segment.margin_suffices aligned long).2
    refine ⟨_, s', rfl, ?_, expands⟩
    rw [malloc_unfit o wants, Action.bind_of_ok grew]
    unfold retry
    rw [Action.bind_of_ok (grown.order.seek_eq need), found]
    exact placed
  · exact absurd suits (unsuited e rfl)

/-- **A request that is refused changes nothing** but the source. -/
theorem malloc_ungrown_eq (o : InOrder h m parts) (wants : Wants (blocksIn parts) n need)
    (keeps : m.Keeps m₁ (h.extents : Multiset Extent)) (valid : ∀ e, answer = some e → e.Valid)
    (run : GrowthSource.request (need + 24) ⟨h.growth, m⟩ = .ok answer ⟨g, m₁⟩)
    (unsuited : ∀ e, answer = some e → ¬h.Suits e) :
    malloc n ⟨h, m⟩ = .error (.fault (.outOfMemory n granule)) ⟨{ h with growth := g }, m₁⟩ := by
  rw [malloc_unfit o wants]
  rcases (grow_outcome (n := n) o wants.fits.2.2 keeps valid run).cases with
    ⟨_, _, -, e, _, answered, suits, -⟩ | ⟨_, _, grew, -, rfl, rfl⟩
  · exact absurd suits (unsuited e answered)
  · exact Action.bind_of_error grew

/-- **The source is asked once**, whatever comes of it. -/
theorem malloc_asks (o : InOrder h m parts) (wants : Wants (blocksIn parts) n need)
    (keeps : m.Keeps m₁ (h.extents : Multiset Extent)) (valid : ∀ e, answer = some e → e.Valid)
    (run : GrowthSource.request (need + 24) ⟨h.growth, m⟩ = .ok answer ⟨g, m₁⟩) :
    Action.Meets (malloc n) ⟨h, m⟩ (fun _ s' => s'.part.growth = g)
      (fun _ s' => s'.part.growth = g) := by
  obtain ⟨aligned, large, fits⟩ := wants.fits
  refine .of_eq (malloc_unfit o wants) ?_
  refine ((grow_outcome o fits keeps valid run).mono (fun _ _ answer => answer) ?_).bind
    fun _ ⟨h₁, m₂⟩ ⟨_, _, _, _, _, grown⟩ => ?_
  · rintro _ _ ⟨-, -, rfl⟩
    rfl
  · have same : h₁.growth = g := congrArg Heap.growth grown.part
    refine .step (grown.order.seek_eq need) ?_
    cases found : h₁.findFit m₂ need with
    | none => exact .fault same
    | some block =>
      obtain ⟨h', m', placed, w, -⟩ := findFit_place ⟨_, grown.order, rfl⟩ found aligned large
      exact .of_ok placed (w.growth_eq.trans same)

/-- Nothing is asked where there is room, or where no block could serve. -/
theorem malloc_asks_nothing {C : GrowthContract γ} (serves : h.Serves C m L)
    (o : InOrder h m parts) (none : ∀ need, ¬Wants (blocksIn parts) n need) :
    Action.Meets (malloc n) ⟨h, m⟩ (fun _ s' => s'.part.growth = h.growth)
      (fun _ s' => s'.part.growth = h.growth) := by
  unfold malloc
  by_cases zero : n = 0
  · rw [if_pos zero]
    exact .fault rfl
  rw [if_neg zero]
  cases fit : blockSizeFor n with
  | none => exact .fault rfl
  | some need =>
    obtain ⟨aligned, -, large, -⟩ := blockSizeFor_spec fit
    refine .step (o.seek_eq need) ?_
    cases found : h.findFit m need with
    | none => exact absurd ⟨zero, fit, o.findFit_eq_none_iff.mp found⟩ (none need)
    | some block =>
      obtain ⟨h', m', placed, w, -⟩ := findFit_place serves.lends found aligned large
      exact .of_ok placed w.growth_eq

/-- What a heap asks for, read off a source that notes it. -/
theorem Serves.exists_asked {C : GrowthContract γ} (serves : h.Serves C m L)
    (o : InOrder h m parts) (n : Nat) : ∃ asked,
      Action.Meets (malloc n) ⟨h.noted, m⟩ (fun _ s' => s'.part.growth.asked = asked)
        (fun _ s' => s'.part.growth.asked = asked) ∧
      (∀ need, Wants (blocksIn parts) n need → asked = [need + 24]) ∧
      ((∀ need, ¬Wants (blocksIn parts) n need) → asked = []) := by
  have o' : InOrder h.noted m parts := o.of_same rfl rfl
  by_cases wanted : ∃ need, Wants (blocksIn parts) n need
  · obtain ⟨need, wants⟩ := wanted
    obtain ⟨answer, g, m₁, run, keeps, -, valid⟩ := C.request (need + 24) serves.ready
    have asks := malloc_asks o' wants keeps (fun e here => (valid e here).1)
      (Noted.request_of_ok (w := ⟨h.growth, []⟩) run)
    refine ⟨[need + 24], asks.mono (fun _ _ => congrArg Noted.asked)
      (fun _ _ => congrArg Noted.asked), fun need' wants' => ?_, fun none => ?_⟩
    · rw [Option.some.inj (wants.fit.symm.trans wants'.fit)]
    · exact absurd wants (none need)
  · have none := not_exists.mp wanted
    have asks := malloc_asks_nothing serves.noted o' none
    exact ⟨[], asks.mono (fun _ _ => congrArg Noted.asked) (fun _ _ => congrArg Noted.asked),
      fun need wants => absurd wants (none need), fun _ => rfl⟩

/-- **One request for room is enough, and a refused one changes nothing.** After every run, to serve
a request the growth source is asked once if no free block is large enough, and otherwise not at
all; what is asked is read off a source that notes it. If the source answers with an extent as long
as asked that shares no address with those registered, the extent is registered, whatever its
alignment, and the request is served by the first block of the new segment. If it answers with
nothing, or with what cannot be registered, the request is refused, and nothing changes but what the
source did. -/
theorem reachable_grows {C : GrowthContract γ} {σ : Session γ} (reachable : Reachable C σ)
    (n : Nat) : ∃ bs asked, σ.heap.blocks σ.memory = .ok bs ∧
      malloc n ⟨σ.heap, σ.memory⟩ =
        Action.through unnoted (malloc n ⟨σ.heap.noted, σ.memory⟩) ∧
      Action.Meets (malloc n) ⟨σ.heap.noted, σ.memory⟩
        (fun _ s' => s'.part.growth.asked = asked) (fun _ s' => s'.part.growth.asked = asked) ∧
      (∀ need, Wants bs n need → asked = [need + 24]) ∧
      ((∀ need, ¬Wants bs n need) → asked = []) ∧
      ∀ need, Wants bs n need → ∃ answer g m₁,
        GrowthSource.request (need + 24) ⟨σ.heap.growth, σ.memory⟩ = .ok answer ⟨g, m₁⟩ ∧
        (∀ e, answer = some e → need + 24 ≤ e.len → (∀ f ∈ σ.heap.extents, ∀ x ∈ f, x ∉ e) →
          (∃ s', addPool e ⟨{ σ.heap with growth := g }, m₁⟩ = .ok () s') ∧
          ∃ s s', s.extent = e ∧ malloc n ⟨σ.heap, σ.memory⟩ = .ok (payload s.first) s' ∧
            Expands σ.heap σ.memory σ.rooms need g s s') ∧
        ((∀ e, answer = some e → ¬∃ s', addPool e ⟨{ σ.heap with growth := g }, m₁⟩ = .ok () s') →
          malloc n ⟨σ.heap, σ.memory⟩ =
            .error (.fault (.outOfMemory n granule)) ⟨{ σ.heap with growth := g }, m₁⟩ ∧
          σ.heap.blocks m₁ = .ok bs ∧ σ.memory.Keeps m₁ (σ.heap.extents : Multiset Extent)) := by
  have serves := reachable.sound.alone
  obtain ⟨parts, o, lends⟩ := serves.lends
  obtain ⟨asked, asks, once, never⟩ := serves.exists_asked o n
  refine ⟨_, asked, o.blocks_eq, malloc_shadows n σ.heap.noted σ.memory, asks, once, never,
    fun need wants => ?_⟩
  obtain ⟨answer, g, m₁, run, keeps, -, valid⟩ := C.request (need + 24) serves.ready
  have valid : ∀ e, answer = some e → e.Valid := fun e here => (valid e here).1
  have asleep : InOrder { σ.heap with growth := g } m₁ parts :=
    InOrder.of_same (o.frame fun s hs x hx _ => keeps _ (List.mem_map_of_mem hs) x hx) rfl rfl
  refine ⟨answer, g, m₁, run, fun e here long clear => ⟨?_, ?_⟩, fun rejected => ⟨?_, ?_, keeps⟩⟩
  · obtain ⟨aligned, large, -⟩ := wants.fits
    exact (addPool_ok_iff asleep.laidOut (valid e here)).mpr (.of_long clear aligned large long)
  · subst here
    rw [← lends]
    exact malloc_grown o wants keeps (valid e rfl) run clear long
  · refine malloc_ungrown_eq o wants keeps valid run fun e here suits => rejected e here ?_
    exact (addPool_ok_iff asleep.laidOut (valid e here)).mpr (suits.of_same rfl)
  · exact asleep.blocks_eq

theorem reachable_grows_once : ∃ σ : Session Scripted, σ.heap.extents = [⟨4096, 48⟩] ∧
    σ.heap.growth.answers = [some ⟨8197, 100⟩] ∧ ∃ s s', s.extent = ⟨8197, 100⟩ ∧
      malloc 40 ⟨σ.heap, σ.memory⟩ = .ok (payload s.first) s' ∧
      s'.part.segments = σ.heap.segments ++ [s] ∧ s'.part.growths = σ.heap.growths + 1 := by
  let fresh : Session Scripted :=
    ⟨{ growth := { answers := [some ⟨8197, 100⟩] } }, Memory.zero, []⟩
  have ready : Scripted.contract.Ready fresh.heap.growth Memory.zero [] := by
    intro e he
    obtain rfl : e = ⟨8197, 100⟩ := Option.some.inj (List.mem_singleton.mp he)
    exact ⟨by decide, by decide⟩
  have legal : Request.Legal Scripted.contract fresh (.addPool ⟨4096, 48⟩) :=
    ⟨⟨by decide, by decide⟩, fun _ => ready⟩
  have outcome : (do
      let σ ← (fresh.serve (.addPool ⟨4096, 48⟩)).toOption
      return (σ.heap.extents, σ.heap.growth.answers, (σ.heap.blocks σ.memory).toOption)) =
        some ([⟨4096, 48⟩], [some ⟨8197, 100⟩], some [⟨4104, 32, false⟩]) := by
    decide +kernel
  obtain ⟨σ, served, outcome⟩ := Action.exists_of_bind outcome
  obtain ⟨extents, answers, blocks⟩ : σ.heap.extents = [⟨4096, 48⟩] ∧
      σ.heap.growth.answers = [some ⟨8197, 100⟩] ∧
      (σ.heap.blocks σ.memory).toOption = some [⟨4104, 32, false⟩] := by
    simpa using outcome
  obtain ⟨bs, asked, same, -, -, -, -, grows⟩ := reachable_grows
    ((Reachable.start (C := Scripted.contract) ready).serve legal served) 40
  rw [same] at blocks
  obtain rfl : bs = [⟨4104, 32, false⟩] := Option.some.inj blocks
  obtain ⟨answer, g, m₁, run, accepted, -⟩ := grows 48 ⟨by decide, by decide, by decide⟩
  have answered : answer = some ⟨8197, 100⟩ := by
    cases run
    rw [answers]
    rfl
  have clear : ∀ f ∈ σ.heap.extents, ∀ x ∈ f, x ∉ (⟨8197, 100⟩ : Extent) := by
    rw [extents]
    intro f hf x hx
    rw [List.mem_singleton.mp hf] at hx
    exact Extent.Apart.not_mem (.inl (by decide)) hx
  obtain ⟨-, s, s', extent, made, expands⟩ := accepted _ answered (by decide) clear
  exact ⟨σ, extents, answers, s, s', extent, made, by rw [expands.part], by rw [expands.part]⟩

end Heap

end LayeredMemory
