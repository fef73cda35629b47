import LayeredMemory.Pattern
import LayeredMemory.Proofs.Memory

/-!
# Actions — running them

An action is a function of a store, and a proof about one follows its run from store to store:
`bind_of_ok` goes on behind a step that succeeded, `bind_of_error` ends with a step that failed.
The steps that cannot fail run by themselves (`part_bind` and its neighbours).

Where a run has more than one outcome it is described from outside: an action `Meets` what it is
asked for when it ends with an answer for which `Q` holds, or with a fault for which `R` holds. A
stop meets nothing. Sequences meet step by step (`Meets.bind`), and whoever runs an action that
meets something can go on after it (`Meets.conclude`).

What an action `Leaves` of its component holds however it ended, be it with a stop.

A fill never fails (`fill_eq`), and writes inside its range whatever the pattern is (`fill_run`).

Computations that only read are taken apart by `bind_eq_ok_iff` and `bind_eq_error_iff`.
-/

namespace LayeredMemory

theorem bind_eq_ok_iff {ε α β : Type} {x : Except ε α} {f : α → Except ε β} {y : β} :
    (x >>= f) = .ok y ↔ ∃ a, x = .ok a ∧ f a = .ok y := by
  cases x with
  | error e => exact ⟨nofun, fun ⟨_, h, _⟩ => nomatch h⟩
  | ok a => exact ⟨fun h => ⟨a, rfl, h⟩, fun ⟨_, rfl, h⟩ => h⟩

theorem bind_eq_error_iff {ε α β : Type} {x : Except ε α} {f : α → Except ε β} {e : ε} :
    (x >>= f) = .error e ↔ x = .error e ∨ ∃ a, x = .ok a ∧ f a = .error e := by
  cases x with
  | error e' =>
    have same : (Except.error e' >>= f : Except ε β) = .error e' := rfl
    rw [same]
    exact ⟨fun h => .inl (Except.error.inj h ▸ rfl), fun h =>
      h.elim (fun h => Except.error.inj h ▸ rfl) fun ⟨_, h, _⟩ => nomatch h⟩
  | ok a => exact ⟨fun h => .inr ⟨a, rfl, h⟩, fun h => h.elim nofun fun ⟨_, rfl, h⟩ => h⟩

namespace Action

variable {σ τ α β : Type} {s s' : Store σ} {p : σ} {m m' : Memory}

theorem bind_of_ok {ε σ α β : Type} {s s' : σ} {x : EStateM ε σ α} {f : α → EStateM ε σ β} {a : α}
    (h : x s = .ok a s') : (x >>= f) s = f a s' := by
  show EStateM.bind x f s = f a s'
  rw [EStateM.bind, h]

theorem bind_of_error {ε σ α β : Type} {s s' : σ} {x : EStateM ε σ α} {f : α → EStateM ε σ β}
    {e : ε} (h : x s = .error e s') : (x >>= f) s = .error e s' := by
  show EStateM.bind x f s = .error e s'
  rw [EStateM.bind, h]

theorem part_bind (f : σ → Action σ β) : (Action.part >>= f) ⟨p, m⟩ = f p ⟨p, m⟩ := rfl

theorem memory_bind (f : Memory → Action σ β) : (Action.memory >>= f) ⟨p, m⟩ = f m ⟨p, m⟩ := rfl

theorem modifyPart_bind (g : σ → σ) (f : Unit → Action σ β) :
    (Action.modifyPart g >>= f) ⟨p, m⟩ = f () ⟨g p, m⟩ := rfl

theorem writeWord_run (a w : Nat) : Action.writeWord a w ⟨p, m⟩ = .ok () ⟨p, m.writeWord a w⟩ := rfl

theorem writeWord_bind (a w : Nat) (f : Unit → Action σ β) :
    (Action.writeWord a w >>= f) ⟨p, m⟩ = f () ⟨p, m.writeWord a w⟩ :=
  bind_of_ok (writeWord_run a w)

theorem lift_ok_bind {x : Checked α} {a : α} (h : x = .ok a) (f : α → Action σ β) :
    ((liftM x : Action σ α) >>= f) s = f a s := by
  subst h; rfl

theorem attempt_of_ok {x : Action σ α} {a : α} (h : x s = .ok a s') :
    Action.attempt x s = .ok (.ok a) s' := by
  unfold Action.attempt; rw [h]

theorem attempt_of_fault {x : Action σ α} {f : Fault} (h : x s = .error (.fault f) s') :
    Action.attempt x s = .ok (.error f) s' := by
  unfold Action.attempt; rw [h]

theorem attempt_of_stop {x : Action σ α} {k : Stop} (h : x s = .error (.stop k) s') :
    Action.attempt x s = .error (.stop k) s' := by
  unfold Action.attempt; rw [h]

variable {get : σ → τ} {put : τ → σ → σ} {t : τ}

theorem within_of_ok {x : Action τ α} {a : α} (h : x ⟨get p, m⟩ = .ok a ⟨t, m'⟩) :
    Action.within get put x ⟨p, m⟩ = .ok a ⟨put t p, m'⟩ := by
  dsimp only [Action.within]
  rw [h]

theorem within_of_error {x : Action τ α} {e : Failure} (h : x ⟨get p, m⟩ = .error e ⟨t, m'⟩) :
    Action.within get put x ⟨p, m⟩ = .error e ⟨put t p, m'⟩ := by
  dsimp only [Action.within]
  rw [h]

/-! ### Outcomes -/

/-- The action ends with an answer and `Q`, or with a fault and `R`; it does not stop. -/
def Meets (x : Action σ α) (s : Store σ) (Q : α → Store σ → Prop) (R : Fault → Store σ → Prop) :
    Prop :=
  match x s with
  | .ok a s' => Q a s'
  | .error (.fault f) s' => R f s'
  | .error (.stop _) _ => False

namespace Meets

variable {x : Action σ α} {Q Q' : α → Store σ → Prop} {R R' : Fault → Store σ → Prop}

theorem of_ok {a : α} (h : x s = .ok a s') (q : Q a s') : Meets x s Q R := by
  unfold Meets
  rw [h]
  exact q

theorem of_fault {f : Fault} (h : x s = .error (.fault f) s') (r : R f s') : Meets x s Q R := by
  unfold Meets
  rw [h]
  exact r

/-- Runs that agree meet the same. -/
theorem of_eq {y : Action σ α} {t : Store σ} (same : x s = y t) (h : Meets y t Q R) :
    Meets x s Q R := by
  unfold Meets at h ⊢
  rwa [same]

/-- The two ways in which an action meets what it is asked for. -/
theorem cases (h : Meets x s Q R) :
    (∃ a s', x s = .ok a s' ∧ Q a s') ∨ ∃ f s', x s = .error (.fault f) s' ∧ R f s' := by
  unfold Meets at h
  split at h
  · next a s' run => exact .inl ⟨a, s', run, h⟩
  · next f s' run => exact .inr ⟨f, s', run, h⟩
  · exact h.elim

theorem mono (h : Meets x s Q R) (q : ∀ a s', Q a s' → Q' a s') (r : ∀ f s', R f s' → R' f s') :
    Meets x s Q' R' := by
  rcases h.cases with ⟨a, s', run, ans⟩ | ⟨f, s', run, flt⟩
  · exact of_ok run (q a s' ans)
  · exact of_fault run (r f s' flt)

theorem answer {a : α} (h : Meets x s Q R) (run : x s = .ok a s') : Q a s' := by
  unfold Meets at h
  rwa [run] at h

theorem refusal {f : Fault} (h : Meets x s Q R) (run : x s = .error (.fault f) s') : R f s' := by
  unfold Meets at h
  rwa [run] at h

/-- Two descriptions of one run. -/
theorem and (h : Meets x s Q R) (h' : Meets x s Q' R') :
    Meets x s (fun a s' => Q a s' ∧ Q' a s') (fun f s' => R f s' ∧ R' f s') := by
  rcases h.cases with ⟨a, s', run, ans⟩ | ⟨f, s', run, flt⟩
  · exact of_ok run ⟨ans, h'.answer run⟩
  · exact of_fault run ⟨flt, h'.refusal run⟩

/-- Whatever the outcome, it is that of the run. -/
theorem traced (h : Meets x s Q R) :
    Meets x s (fun a s' => x s = .ok a s' ∧ Q a s')
      (fun f s' => x s = .error (.fault f) s' ∧ R f s') := by
  rcases h.cases with ⟨a, s', run, ans⟩ | ⟨f, s', run, flt⟩
  · exact of_ok run ⟨run, ans⟩
  · exact of_fault run ⟨run, flt⟩

theorem bind {f : α → Action σ β} {P : α → Store σ → Prop} {Q : β → Store σ → Prop}
    (h : Meets x s P R) (go : ∀ a s', P a s' → Meets (f a) s' Q R) : Meets (x >>= f) s Q R := by
  rcases h.cases with ⟨a, s', run, ans⟩ | ⟨e, s', run, flt⟩
  · exact of_eq (bind_of_ok run) (go a s' ans)
  · exact of_fault (bind_of_error run) flt

theorem pure {a : α} (q : Q a s) : Meets (pure a) s Q R := q

theorem fault {f : Fault} (r : R f s) : Meets (Action.fault f) s Q R := r

section Sequences

variable {Q : β → Store σ → Prop} {R : Fault → Store σ → Prop}

/-- A step that succeeds. -/
theorem step {f : α → Action σ β} {a : α} (run : x s = .ok a s') (go : Meets (f a) s' Q R) :
    Meets (x >>= f) s Q R :=
  of_eq (bind_of_ok run) go

theorem lift {x : Checked α} {f : α → Action σ β} {a : α} (h : x = .ok a) (go : Meets (f a) s Q R) :
    Meets ((liftM x : Action σ α) >>= f) s Q R := by
  subst h
  exact go

theorem part {f : σ → Action σ β} (go : Meets (f p) ⟨p, m⟩ Q R) :
    Meets (Action.part >>= f) ⟨p, m⟩ Q R :=
  go

theorem memory {f : Memory → Action σ β} (go : Meets (f m) ⟨p, m⟩ Q R) :
    Meets (Action.memory >>= f) ⟨p, m⟩ Q R := go

theorem modifyPart {g : σ → σ} {f : Unit → Action σ β} (go : Meets (f ()) ⟨g p, m⟩ Q R) :
    Meets (Action.modifyPart g >>= f) ⟨p, m⟩ Q R := go

theorem modifyMemory {g : Memory → Memory} {f : Unit → Action σ β}
    (go : Meets (f ()) ⟨p, g m⟩ Q R) :
    Meets (Action.modifyMemory g >>= f) ⟨p, m⟩ Q R := go

theorem writeWord {b w : Nat} {f : Unit → Action σ β} (go : Meets (f ()) ⟨p, m.writeWord b w⟩ Q R) :
    Meets (Action.writeWord b w >>= f) ⟨p, m⟩ Q R :=
  .step (writeWord_run b w) go

/-- A change of the component at the end of an action. -/
theorem finish {g : σ → σ} {Q : Unit → Store σ → Prop} (q : Q () ⟨g p, m⟩) :
    Meets (Action.modifyPart g) ⟨p, m⟩ Q R := q

end Sequences

/-- The fault of an attempt is its answer. -/
theorem attempt (h : Meets x s Q R) :
    Meets (Action.attempt x) s
      (fun r s' => match r with | .ok a => Q a s' | .error f => R f s') R' := by
  rcases h.cases with ⟨a, s', run, ans⟩ | ⟨e, s', run, flt⟩
  · exact of_ok (attempt_of_ok run) ans
  · exact of_ok (attempt_of_fault run) flt

/-- What runs on a component meets what the component's own run meets. -/
theorem within {x : Action τ α} {Q : α → Store τ → Prop} {R : Fault → Store τ → Prop}
    (h : Meets x ⟨get p, m⟩ Q R) {Q' : α → Store σ → Prop} {R' : Fault → Store σ → Prop}
    (q : ∀ a t m', Q a ⟨t, m'⟩ → Q' a ⟨put t p, m'⟩)
    (r : ∀ f t m', R f ⟨t, m'⟩ → R' f ⟨put t p, m'⟩) :
    Meets (Action.within get put x) ⟨p, m⟩ Q' R' := by
  rcases h.cases with ⟨a, ⟨t, m'⟩, run, ans⟩ | ⟨e, ⟨t, m'⟩, run, flt⟩
  · exact of_ok (within_of_ok run) (q a t m' ans)
  · exact of_fault (within_of_error run) (r e t m' flt)

end Meets

/-- The store at the end of a run, however it ended. -/
def final : EStateM.Result Failure (Store σ) α → Store σ
  | .ok _ s | .error _ s => s

/-- Ends a run: an answer and a fault go on in their own ways, and a stop ends everything. -/
def conclude (x : Action σ α) (s : Store σ) (answer : α → Store σ → β)
    (fault : Fault → Store σ → β) :
    Except Stop β :=
  match x s with
  | .ok a s' => .ok (answer a s')
  | .error (.fault f) s' => .ok (fault f s')
  | .error (.stop k) _ => .error k

theorem conclude_of_ok {x : Action σ α} {a : α} (run : x s = .ok a s')
    {answer : α → Store σ → β} {fault : Fault → Store σ → β} :
    x.conclude s answer fault = .ok (answer a s') := by
  unfold Action.conclude
  rw [run]

theorem conclude_of_fault {x : Action σ α} {f : Fault} (run : x s = .error (.fault f) s')
    {answer : α → Store σ → β} {fault : Fault → Store σ → β} :
    x.conclude s answer fault = .ok (fault f s') := by
  unfold Action.conclude
  rw [run]

/-- A run that meets something does not stop. -/
theorem Meets.conclude {x : Action σ α} {Q : α → Store σ → Prop} {R : Fault → Store σ → Prop}
    {P : β → Prop}
    {answer : α → Store σ → β} {fault : Fault → Store σ → β} (h : Meets x s Q R)
    (q : ∀ a s', Q a s' → P (answer a s')) (r : ∀ f s', R f s' → P (fault f s')) :
    ∃ b, x.conclude s answer fault = .ok b ∧ P b := by
  rcases h.cases with ⟨a, s', run, ans⟩ | ⟨e, s', run, flt⟩
  · exact ⟨answer a s', conclude_of_ok run, q a s' ans⟩
  · exact ⟨fault e s', conclude_of_fault run, r e s' flt⟩

/-- The answer of an action, and the store then. -/
def answer? (x : Action σ α) (s : Store σ) : Option (α × Store σ) :=
  match x s with
  | .ok a s' => some (a, s')
  | .error _ _ => none

/-- A sequence of runs that gets to its end, without its first one. -/
theorem exists_of_answer {x : Action σ α} {f : α × Store σ → Option β} {b : β}
    (h : (x.answer? s >>= f) = some b) : ∃ a s', x s = .ok a s' ∧ f (a, s') = some b := by
  unfold answer? at h
  split at h
  · next a s' run => exact ⟨a, s', run, h⟩
  · cases h

/-- A sequence that gets to its end, without its first step. -/
theorem exists_of_bind {ε : Type} {x : Except ε α} {f : α → Option β} {b : β}
    (h : (x.toOption >>= f) = some b) : ∃ a, x = .ok a ∧ f a = some b := by
  cases x with
  | error e => cases h
  | ok a => exact ⟨a, rfl, h⟩

/-! ### Endings -/

/-- However the action ends, `I` holds of the component then. -/
def Leaves (I : σ → Prop) (x : Action σ α) (s : Store σ) : Prop :=
  I (final (x s)).part

namespace Leaves

variable {I : σ → Prop} {x : Action σ α}

theorem of_ok {a : α} (run : x s = .ok a s') (h : I s'.part) : Leaves I x s := by
  unfold Leaves
  rw [run]
  exact h

theorem of_error {e : Failure} (run : x s = .error e s') (h : I s'.part) : Leaves I x s := by
  unfold Leaves
  rw [run]
  exact h

theorem pure {a : α} (h : I s.part) : Leaves I (Pure.pure a) s := h

theorem fault {f : Fault} (h : I s.part) : Leaves I (Action.fault f : Action σ α) s := h

theorem stop {k : Stop} (h : I s.part) : Leaves I (Action.stop k : Action σ α) s := h

theorem lift (r : Checked α) (h : I s.part) : Leaves I (liftM r : Action σ α) s := by
  cases r <;> exact h

theorem bind {f : α → Action σ β} (h : Leaves I x s) (next : ∀ a t, I t.part → Leaves I (f a) t) :
    Leaves I (x >>= f) s := by
  unfold Leaves at h
  cases run : x s with
  | ok a t =>
    rw [run] at h
    unfold Leaves
    rw [bind_of_ok run]
    exact next a t h
  | error e t =>
    rw [run] at h
    exact of_error (bind_of_error run) h

/-- A step that succeeds. -/
theorem step {f : α → Action σ β} {a : α} (run : x s = .ok a s') (go : Leaves I (f a) s') :
    Leaves I (x >>= f) s := by
  unfold Leaves
  rw [bind_of_ok run]
  exact go

theorem part {f : σ → Action σ β} (go : Leaves I (f p) ⟨p, m⟩) :
    Leaves I (Action.part >>= f) ⟨p, m⟩ := go

theorem memory {f : Memory → Action σ β} (go : Leaves I (f m) ⟨p, m⟩) :
    Leaves I (Action.memory >>= f) ⟨p, m⟩ := go

theorem modifyPart {g : σ → σ} {f : Unit → Action σ β} (go : Leaves I (f ()) ⟨g p, m⟩) :
    Leaves I (Action.modifyPart g >>= f) ⟨p, m⟩ := go

/-- A change of the component at the end of an action. -/
theorem finish {g : σ → σ} (h : I (g p)) : Leaves I (Action.modifyPart g) ⟨p, m⟩ := h

/-- What is left of the whole follows from what is left of its component. -/
theorem within {J : τ → Prop} {x : Action τ α} (h : Leaves J x ⟨get p, m⟩)
    (put_back : ∀ t, J t → I (put t p)) : Leaves I (Action.within get put x) ⟨p, m⟩ := by
  unfold Leaves at h
  rcases run : x ⟨get p, m⟩ with ⟨a, t, m'⟩ | ⟨e, t, m'⟩
  · rw [run] at h
    exact of_ok (within_of_ok run) (put_back t h)
  · rw [run] at h
    exact of_error (within_of_error run) (put_back t h)

end Leaves

/-! ### Shadows -/

/-- An outcome, with its component seen through `f`. -/
def through (f : σ → τ) : EStateM.Result Failure (Store σ) α → EStateM.Result Failure (Store τ) α
  | .ok a ⟨p, m⟩ => .ok a ⟨f p, m⟩
  | .error e ⟨p, m⟩ => .error e ⟨f p, m⟩

/-- Seen through `f`, the first action is the second. -/
def Shadows (f : σ → τ) (x : Action σ α) (y : Action τ α) : Prop :=
  ∀ p m, y ⟨f p, m⟩ = through f (x ⟨p, m⟩)

namespace Shadows

variable {f : σ → τ} {x x' : Action σ α} {y y' : Action τ α}

theorem refl : Shadows (fun p : σ => p) x x := by
  intro p m
  rcases x ⟨p, m⟩ with ⟨a, s⟩ | ⟨e, s⟩ <;> rfl

theorem pure (a : α) : Shadows f (pure a) (pure a) :=
  fun _ _ => rfl

theorem fault (e : Fault) : Shadows f (Action.fault e : Action σ α) (Action.fault e) :=
  fun _ _ => rfl

theorem stop (k : Stop) : Shadows f (Action.stop k : Action σ α) (Action.stop k) :=
  fun _ _ => rfl

theorem lift (r : Checked α) : Shadows f (liftM r : Action σ α) (liftM r) :=
  fun _ _ => by cases r <;> rfl

theorem bind {g : α → Action σ β} {g' : α → Action τ β} (h : Shadows f x y)
    (next : ∀ a, Shadows f (g a) (g' a)) : Shadows f (x >>= g) (y >>= g') := by
  intro p m
  have first := h p m
  cases run : x ⟨p, m⟩ with
  | ok a s =>
    rw [run] at first
    rw [bind_of_ok run, bind_of_ok first]
    exact next a s.part s.memory
  | error e s =>
    rw [run] at first
    rw [bind_of_error run, bind_of_error first]
    rfl

theorem part {g : σ → Action σ β} {g' : τ → Action τ β} (next : ∀ p, Shadows f (g p) (g' (f p))) :
    Shadows f (Action.part >>= g) (Action.part >>= g') :=
  fun p m => next p p m

theorem memory {g : Memory → Action σ β} {g' : Memory → Action τ β}
    (next : ∀ m, Shadows f (g m) (g' m)) : Shadows f (Action.memory >>= g) (Action.memory >>= g') :=
  fun p m => next m p m

theorem modifyPart {g : σ → σ} {g' : τ → τ} (h : ∀ p, g' (f p) = f (g p)) :
    Shadows f (Action.modifyPart g) (Action.modifyPart g') :=
  fun p m => congrArg (fun q => EStateM.Result.ok () (Store.mk q m)) (h p)

theorem modifyMemory (g : Memory → Memory) :
    Shadows f (Action.modifyMemory g) (Action.modifyMemory g) :=
  fun _ _ => rfl

theorem fill (pattern : Pattern) (a n : Nat) :
    Shadows f (pattern.fill a n) (pattern.fill a n) := by
  cases pattern with
  | none => exact .pure ()
  | some b => exact .modifyMemory _

theorem ite {P : Prop} [Decidable P] (h : Shadows f x y) (h' : Shadows f x' y') :
    Shadows f (if P then x else x') (if P then y else y') := by
  split
  · exact h
  · exact h'

theorem attempt (h : Shadows f x y) : Shadows f (Action.attempt x) (Action.attempt y) := by
  intro p m
  have outcome := h p m
  unfold Action.attempt
  rw [outcome]
  rcases x ⟨p, m⟩ with ⟨a, s⟩ | ⟨e | k, s⟩ <;> rfl

/-- Components of components. -/
theorem within {ι κ : Type} {i : ι → κ} {get : σ → ι} {put : ι → σ → σ} {get' : τ → κ}
    {put' : κ → τ → τ} {x : Action ι α} {y : Action κ α} (h : Shadows i x y)
    (got : ∀ p, get' (f p) = i (get p)) (placed : ∀ t p, put' (i t) (f p) = f (put t p)) :
    Shadows f (Action.within get put x) (Action.within get' put' y) := by
  intro p m
  have outcome := h (get p) m
  dsimp only [Action.within]
  rw [got, outcome]
  rcases x ⟨get p, m⟩ with ⟨a, t, m'⟩ | ⟨e, t, m'⟩
  · simp only [through, placed]
  · simp only [through, placed]

/-- What concludes a run concludes its shadow. -/
theorem conclude {γ δ : Type} (h : Shadows f x y) {p : σ} {m : Memory} {answer : α → Store σ → γ}
    {fault : Fault → Store σ → γ} {answer' : α → Store τ → δ} {fault' : Fault → Store τ → δ}
    {g : γ → δ} (ok : ∀ a p m, answer' a ⟨f p, m⟩ = g (answer a ⟨p, m⟩))
    (error : ∀ e p m, fault' e ⟨f p, m⟩ = g (fault e ⟨p, m⟩)) :
    y.conclude ⟨f p, m⟩ answer' fault' = (x.conclude ⟨p, m⟩ answer fault).map g := by
  have outcome := h p m
  unfold Action.conclude
  rw [outcome]
  rcases x ⟨p, m⟩ with ⟨a, t, m'⟩ | ⟨e | k, t, m'⟩
  · exact congrArg Except.ok (ok a t m')
  · exact congrArg Except.ok (error e t m')
  · rfl

end Shadows

end Action

namespace Pattern

variable {σ : Type} (pattern : Pattern) (a n : Nat)

/-- Memory after a fill. -/
def filled (m : Memory) : Memory :=
  match pattern with
  | some b => m.fill a b n
  | none => m

theorem fill_eq (p : σ) (m : Memory) :
    pattern.fill a n ⟨p, m⟩ = .ok () ⟨p, pattern.filled a n m⟩ := by
  cases pattern <;> rfl

theorem read_filled (m : Memory) (x : Nat) :
    (pattern.filled a n m).read x =
      if a ≤ x ∧ x < a + n then pattern.getD (m.read x) else m.read x := by
  cases pattern with
  | none => exact (ite_self _).symm
  | some b => exact Memory.read_fill m a n x b

theorem changedWithin_filled (m : Memory) : m.ChangedWithin (pattern.filled a n m) a (a + n) := by
  intro x hx
  rw [read_filled, if_neg (by omega)]

/-- A fill succeeds and stays inside its range. -/
theorem fill_run (p : σ) (m : Memory) :
    ∃ m', pattern.fill a n ⟨p, m⟩ = .ok () ⟨p, m'⟩ ∧ m.ChangedWithin m' a (a + n) :=
  ⟨_, pattern.fill_eq a n p m, pattern.changedWithin_filled a n m⟩

end Pattern

end LayeredMemory
