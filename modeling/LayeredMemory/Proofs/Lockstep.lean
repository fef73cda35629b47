import LayeredMemory.Proofs.Action

/-!
# Lockstep — two runs that end alike

Two actions run on two stores, which need not be the same, nor of one kind. They are in `Lockstep`
when both answer, with the same answer, or both fail, with the same fault, and the stores that they
end with are related as they should be. A stop is in lockstep with nothing.

Sequences go in lockstep step by step (`Lockstep.bind`). Where single steps answer differently but
what follows does not depend on that, both are run out (`Lockstep.step`).
-/

namespace LayeredMemory.Action

variable {ρ σ τ α β : Type} {s s' : Store σ} {t t' : Store τ} {p : σ} {q : τ} {m n : Memory}

/-- Both actions answer alike and `Q`, or both fail alike and `R`. -/
def Lockstep (x : Action σ α) (y : Action τ α) (s : Store σ) (t : Store τ)
    (Q : α → Store σ → Store τ → Prop) (R : Store σ → Store τ → Prop) : Prop :=
  (∃ a s' t', x s = .ok a s' ∧ y t = .ok a t' ∧ Q a s' t') ∨
    ∃ f s' t', x s = .error (.fault f) s' ∧ y t = .error (.fault f) t' ∧ R s' t'

namespace Lockstep

variable {x : Action σ α} {y : Action τ α} {Q Q' : α → Store σ → Store τ → Prop}
  {R R' : Store σ → Store τ → Prop}

theorem of_ok {a : α} (run : x s = .ok a s') (run' : y t = .ok a t') (q : Q a s' t') :
    Lockstep x y s t Q R :=
  .inl ⟨a, s', t', run, run', q⟩

theorem of_fault {f : Fault} (run : x s = .error (.fault f) s')
    (run' : y t = .error (.fault f) t') (r : R s' t') : Lockstep x y s t Q R :=
  .inr ⟨f, s', t', run, run', r⟩

theorem pure {a : α} (q : Q a s t) : Lockstep (pure a) (pure a) s t Q R :=
  of_ok rfl rfl q

theorem fault {f : Fault} (r : R s t) :
    Lockstep (Action.fault f : Action σ α) (Action.fault f) s t Q R :=
  of_fault rfl rfl r

theorem mono (h : Lockstep x y s t Q R) (q : ∀ a s' t', Q a s' t' → Q' a s' t')
    (r : ∀ s' t', R s' t' → R' s' t') : Lockstep x y s t Q' R' := by
  rcases h with ⟨a, s', t', run, run', ans⟩ | ⟨f, s', t', run, run', flt⟩
  · exact of_ok run run' (q a s' t' ans)
  · exact of_fault run run' (r s' t' flt)

theorem bind {f : α → Action σ β} {g : α → Action τ β} {P : α → Store σ → Store τ → Prop}
    {Q : β → Store σ → Store τ → Prop} (h : Lockstep x y s t P R)
    (go : ∀ a s' t', P a s' t' → Lockstep (f a) (g a) s' t' Q R) :
    Lockstep (x >>= f) (y >>= g) s t Q R := by
  rcases h with ⟨a, s', t', run, run', ans⟩ | ⟨f, s', t', run, run', flt⟩
  · unfold Lockstep
    rw [bind_of_ok run, bind_of_ok run']
    exact go a s' t' ans
  · exact of_fault (bind_of_error run) (bind_of_error run') flt

/-- Steps that succeed, each in its own way. -/
theorem step {x : Action σ α} {y : Action τ ρ} {f : α → Action σ β} {g : ρ → Action τ β}
    {Q : β → Store σ → Store τ → Prop} {a : α} {b : ρ} (run : x s = .ok a s')
    (run' : y t = .ok b t') (go : Lockstep (f a) (g b) s' t' Q R) :
    Lockstep (x >>= f) (y >>= g) s t Q R := by
  unfold Lockstep
  rw [bind_of_ok run, bind_of_ok run']
  exact go

section Sequences

variable {Q : β → Store σ → Store τ → Prop}

theorem part {f : σ → Action σ β} {g : τ → Action τ β}
    (go : Lockstep (f p) (g q) ⟨p, m⟩ ⟨q, n⟩ Q R) :
    Lockstep (Action.part >>= f) (Action.part >>= g) ⟨p, m⟩ ⟨q, n⟩ Q R := go

theorem memory {f : Memory → Action σ β} {g : Memory → Action τ β}
    (go : Lockstep (f m) (g n) ⟨p, m⟩ ⟨q, n⟩ Q R) :
    Lockstep (Action.memory >>= f) (Action.memory >>= g) ⟨p, m⟩ ⟨q, n⟩ Q R := go

theorem lift {x : Checked α} {f : α → Action σ β} {g : α → Action τ β} {a : α} (h : x = .ok a)
    (go : Lockstep (f a) (g a) s t Q R) :
    Lockstep ((liftM x : Action σ α) >>= f) ((liftM x : Action τ α) >>= g) s t Q R := by
  subst h
  exact go

theorem modifyPart {i : σ → σ} {k : τ → τ} {f : Unit → Action σ β} {g : Unit → Action τ β}
    (go : Lockstep (f ()) (g ()) ⟨i p, m⟩ ⟨k q, n⟩ Q R) :
    Lockstep (Action.modifyPart i >>= f) (Action.modifyPart k >>= g) ⟨p, m⟩ ⟨q, n⟩ Q R := go

theorem writeWord {a b w v : Nat} {f : Unit → Action σ β} {g : Unit → Action τ β}
    (go : Lockstep (f ()) (g ()) ⟨p, m.writeWord a w⟩ ⟨q, n.writeWord b v⟩ Q R) :
    Lockstep (Action.writeWord a w >>= f) (Action.writeWord b v >>= g) ⟨p, m⟩ ⟨q, n⟩ Q R :=
  .step (writeWord_run a w) (writeWord_run b v) go

/-- A change of the components at the end. -/
theorem finish {i : σ → σ} {k : τ → τ} {Q : Unit → Store σ → Store τ → Prop}
    (ans : Q () ⟨i p, m⟩ ⟨k q, n⟩) :
    Lockstep (Action.modifyPart i) (Action.modifyPart k) ⟨p, m⟩ ⟨q, n⟩ Q R :=
  of_ok rfl rfl ans

end Sequences

/-- The fault of an attempt is its answer. -/
theorem attempt (h : Lockstep x y s t Q R) :
    Lockstep (Action.attempt x) (Action.attempt y) s t
      (fun r s' t' => match r with | .ok a => Q a s' t' | .error _ => R s' t') R' := by
  rcases h with ⟨a, s', t', run, run', ans⟩ | ⟨f, s', t', run, run', flt⟩
  · exact of_ok (attempt_of_ok run) (attempt_of_ok run') ans
  · exact of_ok (attempt_of_fault run) (attempt_of_fault run') flt

/-- What runs on components in lockstep runs in lockstep. -/
theorem within {ι κ : Type} {get : σ → ι} {put : ι → σ → σ} {get' : τ → κ} {put' : κ → τ → τ}
    {x : Action ι α} {y : Action κ α} {Q : α → Store ι → Store κ → Prop}
    {R : Store ι → Store κ → Prop} {Q' : α → Store σ → Store τ → Prop}
    {R' : Store σ → Store τ → Prop} (h : Lockstep x y ⟨get p, m⟩ ⟨get' q, n⟩ Q R)
    (ans : ∀ a i k m n, Q a ⟨i, m⟩ ⟨k, n⟩ → Q' a ⟨put i p, m⟩ ⟨put' k q, n⟩)
    (flt : ∀ i k m n, R ⟨i, m⟩ ⟨k, n⟩ → R' ⟨put i p, m⟩ ⟨put' k q, n⟩) :
    Lockstep (Action.within get put x) (Action.within get' put' y) ⟨p, m⟩ ⟨q, n⟩ Q' R' := by
  rcases h with ⟨a, ⟨i, m'⟩, ⟨k, n'⟩, run, run', h⟩ | ⟨f, ⟨i, m'⟩, ⟨k, n'⟩, run, run', h⟩
  · exact of_ok (within_of_ok run) (within_of_ok run') (ans a i k m' n' h)
  · exact of_fault (within_of_error run) (within_of_error run') (flt i k m' n' h)

/-- Runs in lockstep, with what is known of each by itself. -/
theorem and_meets {A : α → Store σ → Prop} {A' : α → Store τ → Prop} {F : Fault → Store σ → Prop}
    {F' : Fault → Store τ → Prop} (h : Lockstep x y s t Q R) (left : Meets x s A F)
    (right : Meets y t A' F') :
    Lockstep x y s t (fun a s' t' => Q a s' t' ∧ A a s' ∧ A' a t')
      (fun s' t' => R s' t' ∧ ∃ f, F f s' ∧ F' f t') := by
  rcases h with ⟨a, s', t', run, run', ans⟩ | ⟨f, s', t', run, run', flt⟩
  · exact of_ok run run' ⟨ans, left.answer run, right.answer run'⟩
  · exact of_fault run run' ⟨flt, f, left.refusal run, right.refusal run'⟩

/-- What concludes runs in lockstep. -/
theorem conclude {γ δ : Type} {answer : α → Store σ → γ} {failure : Fault → Store σ → γ}
    {answer' : α → Store τ → δ} {failure' : Fault → Store τ → δ} {P : γ → δ → Prop}
    (h : Lockstep x y s t Q R) (q : ∀ a s' t', Q a s' t' → P (answer a s') (answer' a t'))
    (r : ∀ f s' t', R s' t' → P (failure f s') (failure' f t')) :
    ∃ c d, x.conclude s answer failure = .ok c ∧ y.conclude t answer' failure' = .ok d ∧
      P c d := by
  rcases h with ⟨a, s', t', run, run', ans⟩ | ⟨f, s', t', run, run', flt⟩
  · exact ⟨_, _, conclude_of_ok run, conclude_of_ok run', q a s' t' ans⟩
  · exact ⟨_, _, conclude_of_fault run, conclude_of_fault run', r f s' t' flt⟩

end Lockstep

end LayeredMemory.Action
