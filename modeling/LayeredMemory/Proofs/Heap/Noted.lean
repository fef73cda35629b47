import LayeredMemory.Proofs.Heap.Service

/-!
# Noted growth — what a heap asks its growth source

A growth source can be noted: every request is written down, the latest first, and is then answered
by the source itself. A heap does not know. Over a noted source it does what it does over the source
alone (`malloc_shadows`), so what it asks can be read off after any run.
-/

namespace LayeredMemory

/-- A growth source whose requests are noted, the latest first. -/
structure Noted (γ : Type) where
  source : γ
  asked : List Nat := []

namespace Noted

variable {γ β : Type} {w : Noted γ} {m m' : Memory} {g : γ}

/-- Runs an action on the source that is noted. -/
def below (x : Action γ β) : Action (Noted γ) β :=
  Action.within (fun w => w.source) (fun g w => { w with source := g }) x

theorem below_of_ok {x : Action γ β} {b : β} (run : x ⟨w.source, m⟩ = .ok b ⟨g, m'⟩) :
    below x ⟨w, m⟩ = .ok b ⟨⟨g, w.asked⟩, m'⟩ :=
  Action.within_of_ok run

theorem below_of_error {x : Action γ β} {e : Failure}
    (run : x ⟨w.source, m⟩ = .error e ⟨g, m'⟩) :
    below x ⟨w, m⟩ = .error e ⟨⟨g, w.asked⟩, m'⟩ :=
  Action.within_of_error run

theorem below_shadows (x : Action γ β) : Action.Shadows Noted.source (below x) x := by
  intro w m
  rcases run : x ⟨w.source, m⟩ with ⟨b, g, m'⟩ | ⟨e, g, m'⟩
  · rw [below_of_ok run]
    rfl
  · rw [below_of_error run]
    rfl

variable [GrowthSource γ]

instance : GrowthSource (Noted γ) where
  request minLen := do
    Action.modifyPart fun w => { w with asked := minLen :: w.asked }
    below (GrowthSource.request minLen)

theorem request_of_ok {n : Nat} {answer : Option Extent}
    (run : GrowthSource.request n ⟨w.source, m⟩ = .ok answer ⟨g, m'⟩) :
    GrowthSource.request n ⟨w, m⟩ = .ok answer ⟨(⟨g, n :: w.asked⟩ : Noted γ), m'⟩ :=
  below_of_ok (w := ⟨w.source, n :: w.asked⟩) run

theorem request_shadows (n : Nat) :
    Action.Shadows Noted.source (GrowthSource.request n : Action (Noted γ) (Option Extent))
      (GrowthSource.request n) :=
  fun w m => below_shadows (GrowthSource.request n) ⟨w.source, n :: w.asked⟩ m

/-- A noted source honours the contract of the one that answers. -/
def contract (C : GrowthContract γ) : GrowthContract (Noted γ) where
  Ready w m held := C.Ready w.source m held
  frame ready changed := C.frame ready changed
  request := fun {w _ _} n ready => by
    obtain ⟨answer, g, m', run, keeps, after, valid⟩ := C.request n ready
    exact ⟨answer, ⟨g, n :: w.asked⟩, m', request_of_ok run, keeps, after, valid⟩

end Noted

namespace Heap

open LayeredMemory.Action (Shadows)

variable {γ : Type} {h : Heap γ} {m : Memory} {L : Multiset Extent}

/-- A heap whose growth source is noted from now on. -/
def noted (h : Heap γ) : Heap (Noted γ) :=
  { h with growth := ⟨h.growth, []⟩ }

/-- A heap over a noted source, without the notes. -/
def unnoted (h : Heap (Noted γ)) : Heap γ :=
  { h with growth := h.growth.source }

theorem Serves.noted [GrowthSource γ] {C : GrowthContract γ} (s : h.Serves C m L) :
    h.noted.Serves (Noted.contract C) m L :=
  ⟨s.lends.of_same rfl rfl, s.ready, s.counted⟩

/-! ### The same runs -/

theorem writeFree_shadows {σ τ : Type} {f : σ → τ} (a n : Nat) (p : Bool) :
    Shadows f (Tag.writeFree a n p) (Tag.writeFree a n p) := by
  unfold Tag.writeFree
  exact .bind (.modifyMemory _) fun _ => .bind (.lift _) fun _ => .modifyMemory _

theorem setCursor_shadows (c : Nat) :
    Shadows (unnoted (γ := γ)) (setCursor c) (setCursor c) :=
  .modifyPart fun _ => rfl

theorem place_shadows (block need : Nat) :
    Shadows (unnoted (γ := γ)) (place block need) (place block need) := by
  unfold place
  refine .part fun h => .memory fun m => .ite ?_ ?_
  · refine .bind (.modifyMemory _) fun _ => .bind (writeFree_shadows _ _ _) fun _ => ?_
    exact .bind (setCursor_shadows _) fun _ => .bind (.fill _ _ _) fun _ => .pure _
  · refine .bind (.modifyMemory _) fun _ => .bind (.modifyMemory _) fun _ => ?_
    exact .bind (setCursor_shadows _) fun _ => .bind (.fill _ _ _) fun _ => .pure _

theorem seek_shadows (need : Nat) :
    Shadows (unnoted (γ := γ)) (seek need) (seek need) := by
  unfold seek
  refine .part fun h => .memory fun m => ?_
  have same : h.unnoted.search m need = h.search m need := rfl
  rw [same]
  cases h.search m need with
  | ended found => exact .pure found
  | endless => exact .stop _

theorem addPool_shadows (e : Extent) :
    Shadows (unnoted (γ := γ)) (addPool e) (addPool e) := by
  unfold addPool
  refine .part fun h => .bind (.lift _) fun overlaps => .ite (.fault _) ?_
  cases Segment.of? e with
  | none => exact .fault _
  | some s =>
    exact .bind (writeFree_shadows _ _ _) fun _ => .bind (.modifyMemory _) fun _ =>
      .modifyPart fun _ => rfl

variable [GrowthSource γ]

theorem grow_shadows (n need : Nat) :
    Shadows (unnoted (γ := γ)) (grow n need) (grow n need) := by
  unfold grow
  cases Word.add? need (granule + Word.bytes) with
  | none => exact .fault _
  | some minLen =>
    refine .bind ((Noted.request_shadows minLen).within (fun _ => rfl) fun _ _ => rfl)
      fun answer => ?_
    cases answer with
    | none => exact .fault _
    | some e =>
      refine .bind (addPool_shadows e).attempt fun taken => ?_
      cases taken with
      | error f => exact .fault _
      | ok u => exact .modifyPart fun _ => rfl

/-- **Noting changes nothing.** -/
theorem malloc_shadows (n : Nat) : Shadows (unnoted (γ := γ)) (malloc n) (malloc n) := by
  unfold malloc
  refine .ite (.fault _) ?_
  cases blockSizeFor n with
  | none => exact .fault _
  | some need =>
    refine .bind (seek_shadows need) fun found => ?_
    cases found with
    | some block => exact place_shadows block need
    | none =>
      refine .bind (grow_shadows n need) fun _ => .bind (seek_shadows need) fun found => ?_
      cases found with
      | some block => exact place_shadows block need
      | none => exact .fault _

end Heap

end LayeredMemory
