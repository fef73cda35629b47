import LayeredMemory.Heap.Growth
import LayeredMemory.Proofs.Action
import LayeredMemory.Proofs.Extent

/-!
# The contract of a growth source

A heap knows of its growth source only that it honours a contract. Every extent that it hands over
is valid and from then on left alone, as are all extents that the heap holds already; in turn the
heap keeps to the extents that it holds. What state a source must be in for this is the source's own
matter: `Ready` names it, and it does not depend on the bytes that the heap may write.

Whether an extent is as long as it was asked for, and whether it overlaps others, is not part of the
contract: a heap checks what it registers.

Two sources make a `GrowthPair` when they honour the contract, keep a record of what they were
asked, and give the same answers to the same requests. What the heaps write into what they hold is
no matter of either.
-/

namespace LayeredMemory

/-- The contract of a growth source, towards a heap that holds some extents. -/
structure GrowthContract (γ : Type) [GrowthSource γ] where
  /-- The source is in order, and the extents that the heap holds are no business of its own. -/
  Ready : γ → Memory → List Extent → Prop
  /-- The heap may write into what it holds. -/
  frame : ∀ {g m m' held}, Ready g m held → m.ChangedIn m' held → Ready g m' held
  /-- A request is answered, and touches nothing that the heap holds. -/
  request : ∀ {g m held} (n : Nat), Ready g m held →
    ∃ answer g' m', GrowthSource.request n ⟨g, m⟩ = .ok answer ⟨g', m'⟩ ∧
      m.Keeps m' (held : Multiset Extent) ∧
      Ready g' m' held ∧ ∀ e, answer = some e → e.Valid ∧ Ready g' m' (held ++ [e])

/-- The source that has nothing honours the contract. -/
def NoGrowth.contract : GrowthContract NoGrowth where
  Ready _ _ _ := True
  frame _ _ := trivial
  request _ _ := ⟨none, _, _, rfl, .refl _ _, trivial, nofun⟩

/-- A source that answers as written honours the contract if all its answers are valid. -/
def Scripted.contract : GrowthContract Scripted where
  Ready s _ _ := ∀ e, some e ∈ s.answers → e.Valid
  frame ready _ := ready
  request := by
    rintro ⟨answers, asked⟩ m held n valid
    refine ⟨answers.head?.join, _, _, rfl, .refl _ _, fun e he => ?_, fun e head => ⟨?_, ?_⟩⟩
    · exact valid e (List.mem_of_mem_tail he)
    · exact valid e (List.mem_of_mem_head? (Option.join_eq_some_iff.mp head))
    · exact fun e he => valid e (List.mem_of_mem_tail he)

/-- Two growth sources that answer alike, towards heaps that hold the same extents. -/
structure GrowthPair (γ δ : Type) [GrowthSource γ] [GrowthSource δ] where
  /-- What the first source was asked so far, the latest first. -/
  asked : γ → List Nat
  /-- What the second source was asked so far, the latest first. -/
  asked' : δ → List Nat
  /-- The sources are in order, have been asked the same, and will answer alike. -/
  Ready : Store γ → Store δ → List Extent → Prop
  same : ∀ {s t held}, Ready s t held → asked' t.part = asked s.part
  /-- The heaps may write into what they hold. -/
  frame : ∀ {g d m m' n n' held}, Ready ⟨g, m⟩ ⟨d, n⟩ held → m.ChangedIn m' held →
    n.ChangedIn n' held → Ready ⟨g, m'⟩ ⟨d, n'⟩ held
  /-- A request is recorded and answered alike, and touches nothing that the heaps hold. -/
  request : ∀ {s t held} (n : Nat), Ready s t held → ∃ answer s' t',
    GrowthSource.request n s = .ok answer s' ∧ GrowthSource.request n t = .ok answer t' ∧
      asked s'.part = n :: asked s.part ∧
      s.memory.Keeps s'.memory (held : Multiset Extent) ∧
      t.memory.Keeps t'.memory (held : Multiset Extent) ∧
      Ready s' t' held ∧ ∀ e, answer = some e → e.Valid ∧ Ready s' t' (held ++ [e])

/-- The first source of a pair honours the contract. -/
def GrowthPair.left {γ δ : Type} [GrowthSource γ] [GrowthSource δ] (P : GrowthPair γ δ) :
    GrowthContract γ where
  Ready g m held := ∃ t, P.Ready ⟨g, m⟩ t held
  frame := fun ⟨t, ready⟩ changed => ⟨t, P.frame ready changed (.refl t.memory _)⟩
  request n := fun ⟨_, ready⟩ => by
    obtain ⟨answer, ⟨g, m⟩, t, run, -, -, kept, -, ready, valid⟩ := P.request n ready
    exact ⟨answer, g, m, run, kept, ⟨t, ready⟩, fun e he => ⟨(valid e he).1, t, (valid e he).2⟩⟩

/-- The second source of a pair honours the contract. -/
def GrowthPair.right {γ δ : Type} [GrowthSource γ] [GrowthSource δ] (P : GrowthPair γ δ) :
    GrowthContract δ where
  Ready d n held := ∃ s, P.Ready s ⟨d, n⟩ held
  frame := fun ⟨s, ready⟩ changed => ⟨s, P.frame ready (.refl s.memory _) changed⟩
  request n := fun ⟨_, ready⟩ => by
    obtain ⟨answer, s, ⟨d, m⟩, -, run, -, -, kept, ready, valid⟩ := P.request n ready
    exact ⟨answer, d, m, run, kept, ⟨s, ready⟩, fun e he => ⟨(valid e he).1, s, (valid e he).2⟩⟩

/-- Sources that answer as written make a pair if the same answers are left, all of them valid. -/
def Scripted.pair : GrowthPair Scripted Scripted where
  asked := asked
  asked' := asked
  Ready s t _ := t.part = s.part ∧ ∀ e, some e ∈ s.part.answers → e.Valid
  same ready := congrArg asked ready.1
  frame ready _ _ := ready
  request := by
    rintro ⟨⟨answers, asked⟩, m⟩ ⟨_, n⟩ held k ⟨rfl, valid⟩
    refine ⟨answers.head?.join, _, _, rfl, rfl, rfl, .refl _ _, .refl _ _, ?_, fun e head => ?_⟩
    · exact ⟨rfl, fun e he => valid e (List.mem_of_mem_tail he)⟩
    · rw [Option.join_eq_some_iff] at head
      exact ⟨valid e (List.mem_of_mem_head? head), rfl,
        fun e he => valid e (List.mem_of_mem_tail he)⟩

end LayeredMemory
