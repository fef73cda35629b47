import LayeredMemory.Proofs.Layer.Dealings

/-!
# Watched allocators — what an allocator is asked

An allocator can be watched: every call that it answers is noted, the latest first, and nothing else
changes (`noting_shadows`). So what a layer asks of an allocator can be read off after any run.

The calls alone tell which leases are `Outstanding`: acquired and not yet released. There is no such
answer if a call releases a block that is not out, or with another layout than it was acquired with.
A watched allocator honours the contract of the one that it watches, with exactly the outstanding
leases out (`Watched.contract`), and its calls are those that the record of a layer tells
(`Dealings.calls_eq`).
-/

namespace LayeredMemory

/-- A call of an allocator, and the block it answered with, if any. -/
inductive Call where
  | acquire (layout : Layout) (block : Option Block)
  | resize (ptr : Nat) (old new : Layout) (block : Option Block)
  | release (ptr : Nat) (layout : Layout)
  deriving DecidableEq

namespace Call

/-- A block was handed out. -/
def isAcquired : Call → Bool
  | .acquire _ (some _) => true
  | _ => false

/-- A block was given back. -/
def isRelease : Call → Bool
  | .release _ _ => true
  | _ => false

/-- The layout that was asked for, or of what was given back. -/
def layout : Call → Layout
  | .acquire layout _ => layout
  | .resize _ _ new _ => new
  | .release _ layout => layout

end Call

/-- After these calls, the latest first, these leases are out. -/
inductive Outstanding : List Call → Multiset Lease → Prop
  | nil : Outstanding [] 0
  | acquire {calls : List Call} {L : Multiset Lease} {layout : Layout} {b : Block}
      (before : Outstanding calls L) :
      Outstanding (.acquire layout (some b) :: calls) (⟨b, layout⟩ ::ₘ L)
  | refuse {calls : List Call} {L : Multiset Lease} {layout : Layout}
      (before : Outstanding calls L) : Outstanding (.acquire layout none :: calls) L
  | release {calls : List Call} {L : Multiset Lease} {l : Lease}
      (before : Outstanding calls (l ::ₘ L)) :
      Outstanding (.release l.block.ptr l.layout :: calls) L

/-- Every lease that was acquired is out, or was released once. -/
theorem Outstanding.count {calls : List Call} {L : Multiset Lease} (h : Outstanding calls L) :
    calls.countP Call.isAcquired = calls.countP Call.isRelease + L.card := by
  induction h with
  | nil => rfl
  | acquire _ ih =>
    rw [List.countP_cons_of_pos rfl, List.countP_cons_of_neg (by simp [Call.isRelease]), ih,
      Multiset.card_cons, Nat.add_assoc]
  | refuse _ ih =>
    rw [List.countP_cons_of_neg (by simp [Call.isAcquired]),
      List.countP_cons_of_neg (by simp [Call.isRelease]), ih]
  | release _ ih =>
    rw [List.countP_cons_of_neg (by simp [Call.isAcquired]), List.countP_cons_of_pos rfl, ih,
      Multiset.card_cons]
    omega

/-- An allocator whose calls are noted, the latest first. -/
structure Watched (α : Type) where
  inner : α
  calls : List Call := []

namespace Watched

variable {α β : Type}

/-- Runs an action on the allocator that is watched. -/
def below (x : Action α β) : Action (Watched α) β :=
  Action.within (fun w => w.inner) (fun a w => { w with inner := a }) x

/-- Notes a call. -/
def note (call : Call) : Action (Watched α) Unit :=
  Action.modifyPart fun w => { w with calls := call :: w.calls }

/-- Runs an action on the allocator that is watched, and notes the call that it is. -/
def noting (call : Option β → Call) (x : Action α β) : Action (Watched α) β := do
  match ← Action.attempt (below x) with
  | .ok a =>
    note (call (some a))
    return a
  | .error f =>
    note (call none)
    Action.fault f

instance [Allocator α] : Allocator (Watched α) where
  acquire layout := noting (.acquire layout) (Allocator.acquire layout)
  canResize w := Allocator.canResize w.inner
  resize ptr old new := noting (.resize ptr old new) (Allocator.resize ptr old new)
  canRelease w := Allocator.canRelease w.inner
  release ptr layout := noting (fun _ => .release ptr layout) (Allocator.release ptr layout)

variable {call : Option β → Call} {x : Action α β} {w : Watched α} {m m' : Memory}

theorem noting_of_ok {a : β} {t : α} (run : x ⟨w.inner, m⟩ = .ok a ⟨t, m'⟩) :
    noting call x ⟨w, m⟩ = .ok a ⟨⟨t, call (some a) :: w.calls⟩, m'⟩ := by
  have answered : below x ⟨w, m⟩ = .ok a ⟨{ w with inner := t }, m'⟩ := Action.within_of_ok run
  unfold noting
  rw [Action.bind_of_ok (Action.attempt_of_ok answered)]
  rfl

theorem noting_of_fault {f : Fault} {t : α} (run : x ⟨w.inner, m⟩ = .error (.fault f) ⟨t, m'⟩) :
    noting call x ⟨w, m⟩ = .error (.fault f) ⟨⟨t, call none :: w.calls⟩, m'⟩ := by
  have failed : below x ⟨w, m⟩ = .error (.fault f) ⟨{ w with inner := t }, m'⟩ :=
    Action.within_of_error run
  unfold noting
  rw [Action.bind_of_ok (Action.attempt_of_fault failed)]
  rfl

theorem noting_of_stop {k : Stop} {t : α} (run : x ⟨w.inner, m⟩ = .error (.stop k) ⟨t, m'⟩) :
    noting call x ⟨w, m⟩ = .error (.stop k) ⟨⟨t, w.calls⟩, m'⟩ := by
  have stopped : below x ⟨w, m⟩ = .error (.stop k) ⟨{ w with inner := t }, m'⟩ :=
    Action.within_of_error run
  unfold noting
  exact Action.bind_of_error (Action.attempt_of_stop stopped)

/-- **Watching changes nothing.** -/
theorem noting_shadows : Action.Shadows Watched.inner (noting call x) x := by
  intro w m
  rcases run : x ⟨w.inner, m⟩ with ⟨a, t, m'⟩ | ⟨f | k, t, m'⟩
  · rw [noting_of_ok run]
    rfl
  · rw [noting_of_fault run]
    rfl
  · rw [noting_of_stop run]
    rfl

/-- An answer that was noted. -/
theorem calls_of_ok {a : β} {w' : Watched α} (run : noting call x ⟨w, m⟩ = .ok a ⟨w', m'⟩) :
    w'.calls = call (some a) :: w.calls := by
  rcases inner : x ⟨w.inner, m⟩ with ⟨b, t, m₁⟩ | ⟨f | k, t, m₁⟩
  · rw [noting_of_ok inner] at run
    cases run
    rfl
  · rw [noting_of_fault inner] at run
    cases run
  · rw [noting_of_stop inner] at run
    cases run

/-- A fault that was noted. -/
theorem calls_of_fault {f : Fault} {w' : Watched α}
    (run : noting call x ⟨w, m⟩ = .error (.fault f) ⟨w', m'⟩) :
    w'.calls = call none :: w.calls := by
  rcases inner : x ⟨w.inner, m⟩ with ⟨b, t, m₁⟩ | ⟨f | k, t, m₁⟩
  · rw [noting_of_ok inner] at run
    cases run
  · rw [noting_of_fault inner] at run
    cases run
    rfl
  · rw [noting_of_stop inner] at run
    cases run

/-- What is watched meets what it meets, and is noted. -/
theorem noting_meets {Q : β → Store α → Prop} {R : Fault → Store α → Prop}
    (h : Action.Meets x ⟨w.inner, m⟩ Q R) :
    Action.Meets (noting call x) ⟨w, m⟩
      (fun a s => s.part.calls = call (some a) :: w.calls ∧ Q a ⟨s.part.inner, s.memory⟩)
      (fun f s => s.part.calls = call none :: w.calls ∧ R f ⟨s.part.inner, s.memory⟩) := by
  rcases h.cases with ⟨a, s, run, answer⟩ | ⟨f, s, run, fault⟩
  · exact .of_ok (noting_of_ok run) ⟨rfl, answer⟩
  · exact .of_fault (noting_of_fault run) ⟨rfl, fault⟩

variable [Allocator α]

/-- A watched allocator honours the contract of the one that it watches, with the outstanding leases
out. -/
def contract (K : AllocatorContract α) : AllocatorContract (Watched α) where
  Ready w m L := K.Ready w.inner m L ∧ Outstanding w.calls L
  frame ready changed := ⟨K.frame ready.1 changed, ready.2⟩
  acquire layout ready pos := (noting_meets (K.acquire layout ready.1 pos)).mono
    (fun _ _ ⟨noted, fits, kept, after⟩ => ⟨fits, kept, after, noted ▸ .acquire ready.2⟩)
    fun _ _ ⟨noted, kept, after⟩ => ⟨kept, after, noted ▸ .refuse ready.2⟩
  release _ ready can := (noting_meets (K.release _ ready.1 can)).mono
    (fun _ _ ⟨noted, kept, after⟩ => ⟨kept, after, noted ▸ .release ready.2⟩)
    fun _ _ ⟨_, never⟩ => never

end Watched

/-- The call that an event is, if it is one. -/
def Dealing.call? (layout : Layout) : Dealing → Option Call
  | .acquired l => some (.acquire l.layout (some l.block))
  | .refused => some (.acquire layout none)
  | .released l => some (.release l.block.ptr l.layout)
  | .abandoned _ => none

theorem Dealing.isAcquired_call? (layout : Layout) (x : Dealing) :
    ((x.call? layout).map Call.isAcquired).getD false = x.isAcquired := by
  cases x <;> rfl

theorem Dealing.isReleased_call? (layout : Layout) (x : Dealing) :
    ((x.call? layout).map Call.isRelease).getD false = x.isReleased := by
  cases x <;> rfl

variable {α : Type} [Allocator α] {layout : Layout} {busy : Extent → Prop} {s s' : Holding α}
  {w w' : Holding (Watched α)} {x : Dealing} {call : Call} {es : List Dealing}

/-- A dealing adds the call that it is. -/
theorem Dealing.Takes.calls_eq (step : x.Takes layout busy w w') :
    w'.allocator.calls = (x.call? layout).toList ++ w.allocator.calls := by
  cases step with
  | acquire run => exact Watched.calls_of_ok run
  | refuse run => exact Watched.calls_of_fault run
  | release _ _ run => exact Watched.calls_of_ok run
  | abandon => rfl

/-- A call is about the layout of the layer. -/
theorem Dealing.Takes.layout_eq (step : x.Takes layout busy s s')
    (same : x.call? layout = some call) : call.layout = layout := by
  cases step with
  | acquire | refuse | release =>
    cases same
    rfl
  | abandon => cases same

namespace Dealings

/-- **A record tells the calls** of a watched allocator. -/
theorem calls_eq (d : Dealings layout busy w es w') :
    w'.allocator.calls = (es.filterMap (Dealing.call? layout)).reverse ++ w.allocator.calls := by
  induction d with
  | nil => rfl
  | work _ _ ih => exact ih
  | @cons x es _ _ _ step _ ih =>
    rw [ih, step.calls_eq]
    cases call : x.call? layout with
    | none => rw [List.filterMap_cons_none call, Option.toList_none, List.nil_append]
    | some c =>
      rw [List.filterMap_cons_some call, List.reverse_cons, List.append_assoc, Option.toList_some]

/-- All calls are about the layout of the layer. -/
theorem calls_layout (d : Dealings layout busy w es w')
    (before : ∀ call ∈ w.allocator.calls, call.layout = layout) :
    ∀ call ∈ w'.allocator.calls, call.layout = layout := by
  intro call mem
  rw [d.calls_eq, List.mem_append, List.mem_reverse] at mem
  rcases mem with new | old
  · obtain ⟨x, hx, same⟩ := List.mem_filterMap.mp new
    obtain ⟨first, last, rfl⟩ := List.append_of_mem hx
    obtain ⟨t, t', -, step, -⟩ := d.split
    exact step.layout_eq same
  · exact before call old

/-- Calls are counted by the events that they are. -/
theorem countP_calls {p : Call → Bool} {q : Dealing → Bool} (d : Dealings layout busy w es w')
    (same : ∀ x : Dealing, ((x.call? layout).map p).getD false = q x) :
    w'.allocator.calls.countP p = w.allocator.calls.countP p + es.countP q := by
  rw [d.calls_eq, List.countP_append, List.countP_reverse, List.countP_filterMap, Nat.add_comm]
  simp only [same]

end Dealings

end LayeredMemory
