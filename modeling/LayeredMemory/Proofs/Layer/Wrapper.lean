import LayeredMemory.Layer.Stack
import LayeredMemory.Proofs.Layer.Turn

/-!
# Wrappers — one layer that passes calls on

References, tracked allocators and the two exhaustion policies ask the allocator below what they are
asked. `Relays` compares a turn of their client with the turn that they make of it below: the same
is asked, memory differs at most where a pattern was written, and the answer is the same. Failures
are judged (`LayerKind.judge`), and only a tracked allocator whose books do not add up can stop what
was answered below.

* `Ask.turn_eq_of_passed`: a wrapper that only judges makes one call below.
* `Tracked.turn_eq`: so does a tracked allocator, and books it (`AllocStats.after`). As long as its
  books agree with the leases that are out, it stops nothing (`AllocStats.exists_after`).
* `Layer.passes`: every wrapper, in one call.
-/

namespace LayeredMemory

/-! ### What a layer makes of failures -/

/-- How a hook that is told of exhaustion ends the call. -/
def Hook.stop (layout : Layout) (f : Fault) : Hook → Stop
  | quiet => .fatal layout.size
  | named name => .hook name layout.size layout.align f

namespace LayerKind

/-- The layer passes calls on. -/
def isWrapper : LayerKind → Bool
  | .shared | .exclusive | .tracked | .signal | .abort => true
  | .heap | .cache => false

/-- What a layer of a kind, with its hook, makes of a failure from below. -/
def judge : LayerKind → Option Hook → Layout → Failure → Failure
  | .signal, _, layout => Failure.onExhaustion fun _ => .fault layout.outOfMemory
  | .abort, some hook, layout => Failure.onExhaustion fun f => .stop (hook.stop layout f)
  | _, _, _ => id

variable {k : LayerKind} {hook : Option Hook} {layout : Layout} {f : Fault}

theorem judge_signal : LayerKind.signal.judge hook layout =
    Failure.onExhaustion fun _ => .fault layout.outOfMemory := rfl

theorem judge_abort {h : Hook} : LayerKind.abort.judge (some h) layout =
    Failure.onExhaustion fun f => .stop (h.stop layout f) := rfl

theorem judge_stop {j : Stop} : k.judge hook layout (.stop j) = .stop j := by
  cases k <;> cases hook <;> rfl

theorem judge_fault (other : f.isExhaustion = false) :
    k.judge hook layout (.fault f) = .fault f := by
  cases k with
  | signal => rw [judge_signal, Failure.onExhaustion_of_other other]
  | abort =>
    cases hook with
    | none => rfl
    | some h => rw [judge_abort, Failure.onExhaustion_of_other other]
  | _ => rfl

end LayerKind

/-! ### What books make of a call -/

namespace Turn

/-- What a call makes of the live bytes in the books of a tracked layer around it. -/
def entry (u : Turn) (n : Nat) : Checked Nat :=
  match u.ask, u.outcome with
  | .acquire layout, .ok _ => Word.add n layout.size
  | .resize _ old new, .ok _ => do
    let rest ← Word.sub n old.size
    Word.add rest new.size
  | .release _ layout, .ok _ => .ok (n - layout.size)
  | _, .error _ => .ok n

/-- What a call makes of the live bytes of the tracked layers around it, the outermost first, and
how it ends if some books do not add up. The innermost of these stop it, and the layers around them
book nothing. -/
def booked (u : Turn) : List Nat → Option Failure × List Nat
  | [] => (none, [])
  | n :: ns =>
    match u.booked ns with
    | (some e, ns') => (some e, n :: ns')
    | (none, ns') =>
      match u.entry n with
      | .ok n' => (none, n' :: ns')
      | .error e => (some e, n :: ns')

/-- How a call ends for the client of layers that judge failures and keep books. -/
def reported (u : Turn) (J : Layout → Failure → Failure) (ns : List Nat) :
    Except Failure (Option Block) :=
  match (u.booked ns).1 with
  | some e => .error e
  | none => u.judged J

variable {t u : Turn} {J J' J'' : Layout → Failure → Failure} {n : Nat} {ns xs : List Nat}
  {e : Failure}

theorem entry_of_error (failed : u.outcome = .error e) : u.entry n = .ok n := by
  unfold entry
  rw [failed]
  cases u.ask <;> rfl

/-- Books do not depend on how failures are told. -/
theorem entry_judged (ask : t.ask = u.ask) (outcome : t.outcome = u.judged J) :
    t.entry = u.entry := by
  funext n
  unfold entry
  rw [ask, outcome]
  unfold judged
  cases u.ask <;> cases u.outcome <;> rfl

/-- Only the end of a request with a block can fail to add up. -/
theorem entry_error (jammed : u.entry n = .error e) :
    (∃ b, u.outcome = .ok b) ∧ u.ask.layout?.isSome = true ∧
      (e = .stop .addOverflow ∨ e = .stop .subOverflow) := by
  have sum {a b : Nat} (h : Word.add a b = .error e) : e = .stop .addOverflow := by
    unfold Word.add at h
    split at h
    · cases h
    · exact (Except.error.inj h).symm
  obtain ⟨layout | ⟨ptr, old, new⟩ | ⟨ptr, layout⟩, m, f | b, m'⟩ := u
  case acquire.ok => exact ⟨⟨b, rfl⟩, rfl, .inl (sum jammed)⟩
  case resize.ok =>
    refine ⟨⟨b, rfl⟩, rfl, ?_⟩
    rcases bind_eq_error_iff.mp jammed with lower | ⟨rest, -, upper⟩
    · unfold Word.sub at lower
      split at lower
      · cases lower
      · exact .inr (Except.error.inj lower).symm
    · exact .inl (sum upper)
  all_goals cases jammed

theorem booked_of_error (failed : u.outcome = .error e) : u.booked ns = (none, ns) := by
  induction ns with
  | nil => rfl
  | cons n ns ih => rw [booked, ih, entry_of_error failed]

theorem booked_judged (ask : t.ask = u.ask) (outcome : t.outcome = u.judged J) :
    t.booked ns = u.booked ns := by
  induction ns with
  | nil => rfl
  | cons n ns ih => rw [booked, booked, ih, entry_judged ask outcome]

theorem booked_append_of_jam {ns' : List Nat} (jammed : u.booked ns = (some e, ns')) :
    u.booked (xs ++ ns) = (some e, xs ++ ns') := by
  induction xs with
  | nil => exact jammed
  | cons x xs ih => rw [List.cons_append, booked, ih]; rfl

theorem booked_append {ns' : List Nat} (fine : u.booked ns = (none, ns')) :
    u.booked (xs ++ ns) = ((u.booked xs).1, (u.booked xs).2 ++ ns') := by
  induction xs with
  | nil => exact fine
  | cons x xs ih =>
    rw [List.cons_append, booked, ih, booked]
    rcases u.booked xs with ⟨_ | e, xs'⟩
    · cases u.entry x <;> rfl
    · rfl

/-- Only the end of a request with a block can be stopped by books. -/
theorem booked_fst (jammed : (u.booked ns).1 = some e) :
    (∃ b, u.outcome = .ok b) ∧ u.ask.layout?.isSome = true ∧
      (e = .stop .addOverflow ∨ e = .stop .subOverflow) := by
  induction ns with
  | nil => cases jammed
  | cons n ns ih =>
    rw [booked] at jammed
    rcases inside : u.booked ns with ⟨_ | f, ns'⟩
    · rw [inside] at jammed
      cases entry : u.entry n with
      | ok n' =>
        simp only [entry] at jammed
        cases jammed
      | error f =>
        simp only [entry] at jammed
        cases jammed
        exact entry_error entry
    · rw [inside] at jammed ih
      exact ih jammed

/-- A client is told of no more answers than there are. -/
theorem outcome_of_reported {b : Option Block} (answered : u.reported J ns = .ok b) :
    u.outcome = .ok b := by
  unfold reported at answered
  cases jam : (u.booked ns).1 with
  | none =>
    rw [jam] at answered
    exact outcome_of_judged answered
  | some e =>
    rw [jam] at answered
    cases answered

/-- Reports of reports. -/
theorem reported_reported (ask : t.ask = u.ask) (outcome : t.outcome = u.reported J' ns)
    (comp : ∀ layout e, J'' layout e = J layout (J' layout e))
    (stops : ∀ layout k, J layout (.stop k) = .stop k) :
    t.reported J xs = u.reported J'' (xs ++ ns) ∧
      (t.booked xs).2 ++ (u.booked ns).2 = (u.booked (xs ++ ns)).2 := by
  unfold reported at outcome
  rcases inside : u.booked ns with ⟨_ | e, ns'⟩
  · rw [inside] at outcome
    unfold reported
    rw [booked_append inside, booked_judged ask outcome]
    refine ⟨?_, rfl⟩
    cases (u.booked xs).1 with
    | none => exact judged_trans ask outcome comp
    | some e => rfl
  · -- What was stopped inside is stopped, and nobody around books it.
    rw [inside] at outcome
    obtain ⟨k, rfl⟩ : ∃ k, e = .stop k := by
      rcases (booked_fst (congrArg Prod.fst inside)).2.2 with rfl | rfl <;> exact ⟨_, rfl⟩
    unfold reported
    rw [booked_append_of_jam inside, booked_of_error outcome]
    exact ⟨judged_of_stop outcome fun layout => stops layout k, rfl⟩

end Turn

/-- A turn `t` of a client of some layers, and the turn `u` that they made of it below. The same is
asked. Memory differs only where a pattern was written, in what is given up or in a fresh block. The
end is that below, as far as the books of the layers add up and failures are not judged. -/
structure Relays (J : Layout → Failure → Failure) (ns : List Nat) (t u : Turn) : Prop where
  ask : t.ask = u.ask
  before : t.before.ChangedIn u.before u.ask.gone
  after : u.after.ChangedIn t.after u.fresh
  outcome : t.outcome = u.reported J ns

/-- Layers over layers. -/
theorem Relays.trans {J J' J'' : Layout → Failure → Failure} {xs ns : List Nat} {t u v : Turn}
    (h : Relays J xs t u) (h' : Relays J' ns u v)
    (comp : ∀ layout e, J'' layout e = J layout (J' layout e))
    (stops : ∀ layout k, J layout (.stop k) = .stop k) : Relays J'' (xs ++ ns) t v := by
  have fresh : u.fresh ⊆ v.fresh := Turn.fresh_subset h'.ask fun b answered =>
    Turn.outcome_of_reported (h'.outcome.symm.trans answered)
  exact ⟨h.ask.trans h'.ask, (h'.ask ▸ h.before).trans h'.before,
    h'.after.trans (h.after.mono fresh),
    h.outcome.trans (Turn.reported_reported h'.ask h'.outcome comp stops).1⟩

/-! ### Layers that only judge -/

section Judging

variable {α ω : Type} [Allocator α] {m : Memory}

/-- A layer that judges failures of acquires and resizes makes one call below. -/
theorem Ask.turn_eq_of_passed [Allocator ω] {a : α} {w : ω} {J : Layout → Failure → Failure}
    {P : Bool → α → ω}
    (acquire : ∀ layout, (Allocator.acquire layout).outcome ⟨w, m⟩ =
      passed (J layout) P ((Allocator.acquire layout).outcome ⟨a, m⟩))
    (resize : ∀ ptr old new, (Allocator.resize ptr old new).outcome ⟨w, m⟩ =
      passed (J new) P ((Allocator.resize ptr old new).outcome ⟨a, m⟩))
    (release : ∀ ptr layout, (Allocator.release ptr layout).outcome ⟨w, m⟩ =
      passed id (fun _ => P false) ((Allocator.release ptr layout).outcome ⟨a, m⟩)) (ask : Ask) :
    ask.turn w m = ({ (ask.turn a m).1 with outcome := (ask.turn a m).1.judged J },
      P (ask.turn a m).1.exhausted (ask.turn a m).2) := by
  unfold Ask.turn Ask.run
  cases ask with
  | acquire layout =>
    dsimp only
    rw [Action.outcome_map, Action.outcome_map, acquire]
    rcases (Allocator.acquire layout).outcome (⟨a, m⟩ : Store α) with ⟨(f | k) | b, s⟩ <;> rfl
  | resize ptr old new =>
    dsimp only
    rw [Action.outcome_map, Action.outcome_map, resize]
    rcases (Allocator.resize ptr old new).outcome (⟨a, m⟩ : Store α) with ⟨(f | k) | b, s⟩ <;> rfl
  | release ptr layout =>
    dsimp only
    rw [Action.outcome_map, Action.outcome_map, release]
    rcases (Allocator.release ptr layout).outcome (⟨a, m⟩ : Store α) with ⟨e | u, s⟩ <;> rfl

theorem Borrowed.turn_eq (l : Borrowed α) (ask : Ask) :
    ask.turn l m = ({ (ask.turn l.inner m).1 with
        outcome := (ask.turn l.inner m).1.judged fun _ => id },
      ⟨(ask.turn l.inner m).2⟩) := by
  have below {γ : Type} (x : Action α γ) : (Borrowed.below x).outcome ⟨l, m⟩ =
      passed id (fun _ a => ⟨a⟩) (x.outcome ⟨l.inner, m⟩) := Action.outcome_within x
  exact Ask.turn_eq_of_passed (P := fun _ a => Borrowed.mk a) (fun _ => below _)
    (fun _ _ _ => below _) (fun _ _ => below _) ask

theorem Signal.turn_eq (l : Signal α) (ask : Ask) :
    ask.turn l m = ({ (ask.turn l.inner m).1 with
        outcome := (ask.turn l.inner m).1.judged (LayerKind.signal.judge none) },
      ⟨(ask.turn l.inner m).2, l.signals + (ask.turn l.inner m).1.exhausted.toNat⟩) := by
  have guard (layout : Layout) (x : Action α Block) : (Signal.guard layout x).outcome ⟨l, m⟩ =
      passed (LayerKind.signal.judge none layout) (fun e a => ⟨a, l.signals + e.toNat⟩)
        (x.outcome ⟨l.inner, m⟩) :=
    Action.outcome_recover x (fun _ => rfl) fun _ _ _ => rfl
  have below (x : Action α Unit) : (Signal.below x).outcome ⟨l, m⟩ =
      passed id (fun _ a => ⟨a, l.signals⟩) (x.outcome ⟨l.inner, m⟩) := Action.outcome_within x
  exact Ask.turn_eq_of_passed (P := fun e a => Signal.mk a (l.signals + e.toNat))
    (fun _ => guard _ _) (fun _ _ _ => guard _ _) (fun _ _ => below _) ask

theorem Abort.turn_eq (l : Abort α) (ask : Ask) :
    ask.turn l m = ({ (ask.turn l.inner m).1 with
        outcome := (ask.turn l.inner m).1.judged (LayerKind.abort.judge (some l.hook)) },
      { l with inner := (ask.turn l.inner m).2 }) := by
  have guard (layout : Layout) (x : Action α Block) : (Abort.guard layout x).outcome ⟨l, m⟩ =
      passed (LayerKind.abort.judge (some l.hook) layout) (fun _ a => { l with inner := a })
        (x.outcome ⟨l.inner, m⟩) := by
    refine Action.outcome_recover x (fun _ => rfl) fun f t m' => ?_
    obtain ⟨inner, hook⟩ := l
    cases hook <;> rfl
  have below (x : Action α Unit) : (Abort.below x).outcome ⟨l, m⟩ =
      passed id (fun _ a => { l with inner := a }) (x.outcome ⟨l.inner, m⟩) :=
    Action.outcome_within x
  exact Ask.turn_eq_of_passed (P := fun _ a => { l with inner := a }) (fun _ => guard _ _)
    (fun _ _ _ => guard _ _) (fun _ _ => below _) ask

end Judging

/-! ### Tracked allocators -/

namespace AllocStats

variable {s s' : AllocStats} {t : Turn} {L L' : Multiset Lease}

theorem acquired_cases (s : AllocStats) (size : Nat) :
    s.acquired size =
        .ok (settle { s with acquires := s.acquires + 1, liveBytes := s.liveBytes + size }) ∨
      Word.bound ≤ s.liveBytes + size ∧ s.acquired size = .error (.stop .addOverflow) := by
  unfold acquired Word.add
  by_cases fits : s.liveBytes + size < Word.bound
  · rw [if_pos fits]
    exact .inl rfl
  · rw [if_neg fits]
    exact .inr ⟨Nat.le_of_not_lt fits, rfl⟩

theorem resized_cases (s : AllocStats) (old new : Nat) :
    s.resized old new =
        .ok (settle { s with resizes := s.resizes + 1, liveBytes := s.liveBytes - old + new }) ∨
      (old ≤ s.liveBytes → Word.bound ≤ s.liveBytes - old + new) ∧ ∃ k,
        s.resized old new = .error (.stop k) ∧ (k = .addOverflow ∨ k = .subOverflow) := by
  unfold resized
  by_cases lower : old ≤ s.liveBytes
  · rw [Word.sub_eq_ok_iff.mpr ⟨lower, rfl⟩]
    show (Word.add (s.liveBytes - old) new >>= _) = _ ∨ _ ∧ ∃ k,
      (Word.add (s.liveBytes - old) new >>= _) = _ ∧ _
    unfold Word.add
    by_cases fits : s.liveBytes - old + new < Word.bound
    · rw [if_pos fits]
      exact .inl rfl
    · rw [if_neg fits]
      exact .inr ⟨fun _ => Nat.le_of_not_lt fits, _, rfl, .inl rfl⟩
  · unfold Word.sub
    rw [if_neg lower]
    exact .inr ⟨fun le => absurd le lower, _, rfl, .inr rfl⟩

/-- The books after a call of the allocator below. -/
def after (s : AllocStats) (t : Turn) : Checked AllocStats :=
  match t.ask, t.outcome with
  | .acquire layout, .ok _ => s.acquired layout.size
  | .resize _ old new, .ok _ => s.resized old.size new.size
  | .release _ layout, .ok _ => .ok (s.released layout.size)
  | .acquire _, .error (.fault _) => .ok s.failed
  | .resize _ _ _, .error (.fault _) => .ok s.failed
  | _, .error _ => .ok s

/-- The live bytes after a call are its entry. -/
theorem entry_eq (s : AllocStats) (t : Turn) :
    t.entry s.liveBytes = (s.after t).map (·.liveBytes) := by
  obtain ⟨layout | ⟨ptr, old, new⟩ | ⟨ptr, layout⟩, m, (f | k) | b, m'⟩ := t
  case acquire.ok =>
    show Word.add s.liveBytes layout.size = (s.acquired layout.size).map _
    unfold acquired
    cases Word.add s.liveBytes layout.size <;> rfl
  case resize.ok =>
    show (Word.sub s.liveBytes old.size >>= fun rest => Word.add rest new.size) =
      (s.resized old.size new.size).map _
    unfold resized
    cases Word.sub s.liveBytes old.size with
    | error e => rfl
    | ok rest =>
      show Word.add rest new.size = Except.map _ (Word.add rest new.size >>= fun live => _)
      cases Word.add rest new.size <;> rfl
  all_goals rfl

/-- Books whose live bytes are those of the leases add up, and stay so. -/
theorem exists_after (trades : t.ask.Trades t.outcome L L') (fits : total L' < Word.bound)
    (same : s.liveBytes = total L) : ∃ s', s.after t = .ok s' ∧ s'.liveBytes = total L' := by
  obtain ⟨ask, m, outcome, m'⟩ := t
  cases trades with
  | @acquired layout b =>
    rw [total_cons] at fits
    dsimp only at fits
    rcases s.acquired_cases layout.size with noted | ⟨large, -⟩
    · refine ⟨_, noted, ?_⟩
      show s.liveBytes + layout.size = _
      rw [same, total_cons, Nat.add_comm]
    · omega
  | @resized l layout b L =>
    rw [total_cons] at fits same
    dsimp only at fits
    rcases s.resized_cases l.layout.size layout.size with noted | ⟨large, -⟩
    · refine ⟨_, noted, ?_⟩
      show s.liveBytes - l.layout.size + layout.size = _
      rw [same, total_cons, Nat.add_sub_cancel_left, Nat.add_comm]
    · omega
  | @released l L =>
    refine ⟨_, rfl, ?_⟩
    show s.liveBytes - l.layout.size = _
    rw [same, total_cons, Nat.add_sub_cancel_left]
  | @refused _ e | @kept _ _ e =>
    rcases e with f | k
    · exact ⟨_, rfl, same⟩
    · exact ⟨_, rfl, same⟩
  | held => exact ⟨_, rfl, same⟩

/-- Books that agree with the leases that are out agree with those after the call. -/
theorem entry_of_trades (trades : t.ask.Trades t.outcome L L') (fits : total L' < Word.bound) :
    t.entry (total L) = .ok (total L') := by
  obtain ⟨s', noted, live⟩ := exists_after (s := { liveBytes := total L }) trades fits rfl
  exact (entry_eq { liveBytes := total L } t).trans (by rw [noted, ← live]; rfl)

/-- Every number in the books is a word, also when so many more calls will have been counted. -/
structure Spare (s : AllocStats) (n : Nat) : Prop where
  acquires : s.acquires + n < Word.bound
  resizes : s.resizes + n < Word.bound
  failures : s.failures + n < Word.bound
  releases : s.releases + n < Word.bound
  live : s.liveBytes < Word.bound
  peak : s.peakBytes < Word.bound

namespace Spare

variable {n : Nat}

/-- Fresh books have room for fewer calls than there are words. -/
theorem fresh (few : n < Word.bound) : ({} : AllocStats).Spare n := by
  have few : 0 + n < Word.bound := (Nat.zero_add n).symm ▸ few
  exact ⟨few, few, few, few, by decide, by decide⟩

theorem settle (h : s.Spare n) : s.settle.Spare n :=
  { h with peak := max_lt h.peak h.live }

theorem of_succ (h : s.Spare (n + 1)) : s.Spare n :=
  ⟨Nat.lt_of_succ_lt h.acquires, Nat.lt_of_succ_lt h.resizes, Nat.lt_of_succ_lt h.failures,
    Nat.lt_of_succ_lt h.releases, h.live, h.peak⟩

/-- One more call is counted. -/
theorem after (h : s.Spare (n + 1)) (noted : s.after t = .ok s') : s'.Spare n := by
  have spare := h.of_succ
  have ⟨acquires, resizes, failures, releases, live, _⟩ := h
  obtain ⟨layout | ⟨ptr, old, new⟩ | ⟨ptr, layout⟩, m, (f | k) | b, m'⟩ := t
  case acquire.ok =>
    obtain ⟨live', sum, ⟨⟩⟩ := bind_eq_ok_iff.mp noted
    obtain ⟨fits, rfl⟩ := Word.add_eq_ok_iff.mp sum
    exact settle { spare with acquires := by dsimp only; omega, live := fits }
  case resize.ok =>
    obtain ⟨rest, -, onward⟩ := bind_eq_ok_iff.mp noted
    obtain ⟨live', sum, ⟨⟩⟩ := bind_eq_ok_iff.mp onward
    obtain ⟨fits, rfl⟩ := Word.add_eq_ok_iff.mp sum
    exact settle { spare with resizes := by dsimp only; omega, live := fits }
  case release.ok =>
    cases noted
    exact settle { spare with
      releases := by dsimp only; omega
      live := Nat.lt_of_le_of_lt (Nat.sub_le ..) live }
  case acquire.error.fault | resize.error.fault =>
    cases noted
    exact settle { spare with failures := by dsimp only; omega }
  all_goals
    cases noted
    exact spare

end Spare

end AllocStats

namespace Tracked

variable {α : Type} {m : Memory} {l : Tracked α}

theorem update_of_ok {f : AllocStats → Checked AllocStats} {s : AllocStats}
    (noted : f l.stats = .ok s) :
    update f ⟨l, m⟩ = .ok () ⟨{ l with stats := s }, m⟩ := by
  unfold update
  rw [Action.part_bind, Action.lift_ok_bind noted]
  rfl

theorem update_of_error {f : AllocStats → Checked AllocStats} {e : Failure}
    (jammed : f l.stats = .error e) : update f ⟨l, m⟩ = .error e ⟨l, m⟩ := by
  unfold update
  rw [Action.part_bind, jammed]
  rfl

/-- Memory where the call below begins: what is given up has been filled. -/
def handed (l : Tracked α) (m : Memory) : Ask → Memory
  | .release ptr layout => l.deallocPattern.filled ptr layout.size m
  | .acquire _ | .resize _ _ _ => m

/-- Memory where a call ends, once the call below has: a fresh block has been filled. -/
def filled (l : Tracked α) (u : Turn) : Memory :=
  match u.ask, u.outcome with
  | .acquire layout, .ok (some b) => l.allocPattern.filled b.ptr layout.size u.after
  | _, _ => u.after

/-- The end of a call, once the call below has ended. -/
def told (l : Tracked α) (m : Memory) (u : Turn × α) : Turn × Tracked α :=
  match l.stats.after u.1 with
  | .ok s =>
    (⟨u.1.ask, m, u.1.outcome, l.filled u.1⟩, { l with inner := u.2, stats := s })
  | .error e => (⟨u.1.ask, m, .error e, l.filled u.1⟩, { l with inner := u.2 })

theorem told_of_ok {u : Turn × α} {s : AllocStats} (noted : l.stats.after u.1 = .ok s) :
    l.told m u =
      (⟨u.1.ask, m, u.1.outcome, l.filled u.1⟩, { l with inner := u.2, stats := s }) := by
  unfold told
  rw [noted]

theorem told_of_error {u : Turn × α} {e : Failure} (jammed : l.stats.after u.1 = .error e) :
    l.told m u = (⟨u.1.ask, m, .error e, l.filled u.1⟩, { l with inner := u.2 }) := by
  unfold told
  rw [jammed]

section Calls

variable [Allocator α]

/-- The call that a tracked allocator makes below. -/
def heard (l : Tracked α) (ask : Ask) (m : Memory) : Turn × α :=
  ask.turn l.inner (l.handed m ask)

/-- A request that is served below is served, if the books add up. -/
theorem turn_of_ok {ask : Ask} {f : AllocStats → Checked AllocStats} {b : Block} {a : α}
    {m' m'' : Memory}
    (run : ask.run ⟨l, m⟩ =
      (some <$> (update f >>= fun _ => pure b) : Action (Tracked α) _) ⟨{ l with inner := a }, m''⟩)
    (after : l.stats.after ⟨ask, m, .ok (some b), m'⟩ = f l.stats)
    (filled : l.filled ⟨ask, m, .ok (some b), m'⟩ = m'') :
    ask.turn l m = l.told m (⟨ask, m, .ok (some b), m'⟩, a) := by
  subst filled
  cases noted : f l.stats with
  | ok s =>
    have outer := Action.bind_of_ok (f := fun _ => (pure b : Action (Tracked α) Block))
      (update_of_ok (l := { l with inner := a }) (m := l.filled ⟨ask, m, .ok (some b), m'⟩) noted)
    rw [told_of_ok (after.trans noted),
      Ask.turn_of_ok ask (run.trans (Action.map_of_ok some outer))]
  | error e =>
    have outer := Action.bind_of_error (f := fun _ => (pure b : Action (Tracked α) Block))
      (update_of_error (l := { l with inner := a }) (m := l.filled ⟨ask, m, .ok (some b), m'⟩)
        noted)
    rw [told_of_error (after.trans noted),
      Ask.turn_of_error ask (run.trans (Action.map_of_error some outer))]

/-- A request that fails below fails, and changes no more than the count of failures. -/
theorem turn_of_error {ask : Ask} {x : Action α Block} {good : Block → Action (Tracked α) Block}
    {e : Failure} {a : α} {m' : Memory}
    (outer : ask.run = some <$> (Action.attempt (below x) >>= fun r => match r with
      | .ok b => good b
      | .error f => update (fun s => return s.failed) >>= fun _ => Action.fault f))
    (run : x ⟨l.inner, m⟩ = .error e ⟨a, m'⟩) (request : ask.layout?.isSome = true) :
    ask.turn l m = l.told m (⟨ask, m, .error e, m'⟩, a) := by
  have failed : below x ⟨l, m⟩ = .error e ⟨{ l with inner := a }, m'⟩ :=
    Action.within_of_error run
  obtain ⟨s, noted, run'⟩ : ∃ s, l.stats.after ⟨ask, m, .error e, m'⟩ = .ok s ∧
      ask.run ⟨l, m⟩ = .error e ⟨{ l with inner := a, stats := s }, m'⟩ := by
    rw [outer]
    cases e with
    | fault f =>
      have noted : (fun s : AllocStats => (return s.failed : Checked AllocStats)) l.stats =
        .ok l.stats.failed := rfl
      refine ⟨l.stats.failed, ?_, Action.map_of_error some
        ((Action.bind_of_ok (Action.attempt_of_fault failed)).trans
          (Action.bind_of_ok (update_of_ok (l := { l with inner := a }) noted)))⟩
      cases ask with
      | acquire | resize => rfl
      | release => cases request
    | stop k =>
      refine ⟨l.stats, ?_, Action.map_of_error some
        (Action.bind_of_error (Action.attempt_of_stop failed))⟩
      cases ask <;> rfl
  rw [Ask.turn_of_error ask run', told_of_ok noted]
  cases ask <;> rfl

/-- **One call** of a tracked allocator is one call below, in the books. -/
theorem turn_eq (l : Tracked α) (ask : Ask) (m : Memory) :
    ask.turn l m = l.told m (l.heard ask m) := by
  unfold heard
  cases ask with
  | acquire layout =>
    rcases run : (Allocator.acquire layout : Action α Block) ⟨l.inner, m⟩ with
      ⟨b, a, m₁⟩ | ⟨e, a, m₁⟩
    · have answered : below (Allocator.acquire layout) ⟨l, m⟩ =
          .ok b ⟨{ l with inner := a }, m₁⟩ := Action.within_of_ok run
      have filled := l.allocPattern.fill_eq b.ptr layout.size ({ l with inner := a } : Tracked α) m₁
      have outer : (Allocator.acquire layout : Action (Tracked α) Block) ⟨l, m⟩ = _ :=
        (Action.bind_of_ok (Action.attempt_of_ok answered)).trans
          ((Action.part_bind _).trans (Action.bind_of_ok filled))
      have inner := Ask.turn_of_ok (.acquire layout) (Action.map_of_ok some run)
      have served : (Ask.acquire layout).run ⟨l, m⟩ = _ := Action.map_congr some outer
      exact (turn_of_ok served rfl rfl).trans (congrArg (l.told m) inner.symm)
    · have inner := Ask.turn_of_error (.acquire layout) (Action.map_of_error some run)
      exact (turn_of_error rfl run rfl).trans (congrArg (l.told m) inner.symm)
  | resize ptr old new =>
    rcases run : (Allocator.resize ptr old new : Action α Block) ⟨l.inner, m⟩ with
      ⟨b, a, m₁⟩ | ⟨e, a, m₁⟩
    · have answered : below (Allocator.resize ptr old new) ⟨l, m⟩ =
          .ok b ⟨{ l with inner := a }, m₁⟩ := Action.within_of_ok run
      have outer : (Allocator.resize ptr old new : Action (Tracked α) Block) ⟨l, m⟩ = _ :=
        Action.bind_of_ok (Action.attempt_of_ok answered)
      have inner := Ask.turn_of_ok (.resize ptr old new) (Action.map_of_ok some run)
      have served : (Ask.resize ptr old new).run ⟨l, m⟩ = _ := Action.map_congr some outer
      exact (turn_of_ok served rfl rfl).trans (congrArg (l.told m) inner.symm)
    · have inner := Ask.turn_of_error (.resize ptr old new) (Action.map_of_error some run)
      exact (turn_of_error rfl run rfl).trans (congrArg (l.told m) inner.symm)
  | release ptr layout =>
    have outer : (Allocator.release ptr layout : Action (Tracked α) Unit) ⟨l, m⟩ = _ :=
      (Action.part_bind _).trans
        (Action.bind_of_ok (l.deallocPattern.fill_eq ptr layout.size l m))
    rcases run : (Allocator.release ptr layout : Action α Unit)
        ⟨l.inner, l.handed m (.release ptr layout)⟩ with ⟨⟨⟩, a, m₁⟩ | ⟨e, a, m₁⟩
    · have answered : below (Allocator.release ptr layout) ⟨l, _⟩ =
          .ok () ⟨{ l with inner := a }, m₁⟩ := Action.within_of_ok run
      have noted : (fun s : AllocStats => (return s.released layout.size : Checked AllocStats))
        l.stats = .ok (l.stats.released layout.size) := rfl
      have outer := outer.trans ((Action.bind_of_ok answered).trans
        (update_of_ok (l := { l with inner := a }) noted))
      rw [Ask.turn_of_ok (.release ptr layout) (Action.map_of_ok (fun _ => none) run),
        Ask.turn_of_ok (.release ptr layout) (Action.map_of_ok (fun _ => none) outer)]
      rfl
    · have failed : below (Allocator.release ptr layout) ⟨l, _⟩ =
          .error e ⟨{ l with inner := a }, m₁⟩ := Action.within_of_error run
      have outer := outer.trans (Action.bind_of_error failed)
      rw [Ask.turn_of_error (.release ptr layout) (Action.map_of_error (fun _ => none) run),
        Ask.turn_of_error (.release ptr layout) (Action.map_of_error (fun _ => none) outer)]
      rfl

end Calls

/-- One call of a tracked allocator, and the call that it makes below. -/
structure Passes (l : Tracked α) (t : Turn × Tracked α) (u : Turn × α) : Prop where
  inner : t.2.inner = u.2
  relays : Relays (fun _ => id) [l.stats.liveBytes] t.1 u.1
  live : [t.2.stats.liveBytes] = (u.1.booked [l.stats.liveBytes]).2
  spare : ∀ n, l.stats.Spare (n + 1) → t.2.stats.Spare n

/-- A fill on the way down is in what is given up, and one on the way up in what is fresh. -/
theorem changedIn_handed (l : Tracked α) (m : Memory) (ask : Ask) :
    m.ChangedIn (l.handed m ask) ask.gone := by
  cases ask with
  | acquire | resize => exact .refl _ _
  | release ptr layout =>
    exact (l.deallocPattern.changedWithin_filled ptr layout.size m).changedIn
      (Multiset.mem_singleton_self _) (Nat.le_refl _) (Nat.le_refl _)

theorem changedIn_filled (l : Tracked α) (u : Turn) : u.after.ChangedIn (l.filled u) u.fresh := by
  obtain ⟨layout | _ | _, m, e | _ | b, m'⟩ := u
  case acquire.ok.some =>
    exact (l.allocPattern.changedWithin_filled b.ptr layout.size m').changedIn
      (Multiset.mem_singleton_self _) (Nat.le_refl _) (Nat.le_refl _)
  all_goals exact .refl _ _

variable [Allocator α]

theorem passes (l : Tracked α) (ask : Ask) (m : Memory) :
    Passes l (ask.turn l m) (l.heard ask m) := by
  rw [turn_eq]
  have before := l.changedIn_handed m ask
  have after := l.changedIn_filled (l.heard ask m).1
  have entry := l.stats.entry_eq (l.heard ask m).1
  rcases books : l.stats.after (l.heard ask m).1 with e | s
  · rw [books] at entry
    have booked : (l.heard ask m).1.booked [l.stats.liveBytes] = (some e, [l.stats.liveBytes]) := by
      rw [Turn.booked, Turn.booked, entry]
      rfl
    rw [told_of_error books]
    refine ⟨rfl, ⟨rfl, before, after, ?_⟩, ?_, fun n spare => spare.of_succ⟩
    · unfold Turn.reported
      rw [booked]
    · rw [booked]
  · rw [books] at entry
    have booked : (l.heard ask m).1.booked [l.stats.liveBytes] = (none, [s.liveBytes]) := by
      rw [Turn.booked, Turn.booked, entry]
      rfl
    rw [told_of_ok books]
    refine ⟨rfl, ⟨rfl, before, after, ?_⟩, ?_, fun n spare => spare.after books⟩
    · unfold Turn.reported
      rw [booked]
      exact (Turn.judged_of_id fun _ _ => rfl).symm
    · rw [booked]

end Tracked

/-! ### Every wrapper -/

namespace Layer

variable {α : Type} {k : LayerKind}

/-- The hook of a layer. -/
def hook? : (k : LayerKind) → Layer α k → Option Hook
  | .abort => fun l : Abort α => some l.hook
  | _ => fun _ => none

/-- The count of a layer. -/
def signals? : (k : LayerKind) → Layer α k → Option Nat
  | .signal => fun l : Signal α => some l.signals
  | _ => fun _ => none

/-- The live bytes in the books of a layer. -/
def liveBytes : (k : LayerKind) → Layer α k → List Nat
  | .tracked => fun l : Tracked α => [l.stats.liveBytes]
  | _ => fun _ => []

/-- Every number of a layer is a word, also when so many more calls will have been counted. -/
def Spare (n : Nat) : (k : LayerKind) → Layer α k → Prop
  | .tracked => fun l : Tracked α => l.stats.Spare n
  | .signal => fun l : Signal α => l.signals + n < Word.bound
  | _ => fun _ => True

theorem hook?_eq_none_iff {l : Layer α k} : hook? k l = none ↔ k ≠ .abort := by
  cases k with
  | abort => exact iff_of_false nofun fun ne => ne rfl
  | _ => exact iff_of_true rfl nofun

/-- One call of a layer, and the call that it makes below. -/
structure Passes (k : LayerKind) (l : Layer α k) (t : Turn × Layer α k) (u : Turn × α) :
    Prop where
  inner : Layer.inner k t.2 = u.2
  relays : Relays (k.judge (hook? k l)) (liveBytes k l) t.1 u.1
  hook : hook? k t.2 = hook? k l
  signals : signals? k t.2 = (signals? k l).map (· + u.1.exhausted.toNat)
  live : liveBytes k t.2 = (u.1.booked (liveBytes k l)).2
  spare : ∀ n, Spare (n + 1) k l → Spare n k t.2

/-- A layer without books that only judges. -/
theorem Passes.of_turn_eq {l l' : Layer α k} {t : Turn × Layer α k} {u : Turn × α}
    (turn : t = ({ u.1 with outcome := u.1.judged (k.judge (hook? k l)) }, l'))
    (inner : Layer.inner k l' = u.2) (hook : hook? k l' = hook? k l)
    (signals : signals? k l' = (signals? k l).map (· + u.1.exhausted.toNat))
    (bookless : liveBytes k l = [] ∧ liveBytes k l' = [])
    (spare : ∀ n, Spare (n + 1) k l → Spare n k l') : Passes k l t u := by
  subst turn
  obtain ⟨before, after⟩ := bookless
  refine ⟨inner, ⟨rfl, .refl _ _, .refl _ _, ?_⟩, hook, signals, ?_, spare⟩
  · rw [before]
    rfl
  · rw [before, after]
    rfl

variable [Allocator α]

/-- **One layer**: a wrapper makes one call of the allocator below. -/
theorem passes (wrapper : k.isWrapper = true) (l : Layer α k) (ask : Ask) (m : Memory) :
    ∃ m₀, Passes k l (ask.turn l m) (ask.turn (Layer.inner k l) m₀) := by
  cases k with
  | shared =>
    exact ⟨m, .of_turn_eq (Borrowed.turn_eq l ask) rfl rfl rfl ⟨rfl, rfl⟩ fun _ _ => trivial⟩
  | exclusive =>
    exact ⟨m, .of_turn_eq (Borrowed.turn_eq l ask) rfl rfl rfl ⟨rfl, rfl⟩ fun _ _ => trivial⟩
  | signal =>
    refine ⟨m, .of_turn_eq (Signal.turn_eq l ask) rfl rfl rfl ⟨rfl, rfl⟩ fun n spare => ?_⟩
    have most := Bool.toNat_le (ask.turn (Signal.inner l) m).1.exhausted
    have spare : Signal.signals l + (n + 1) < Word.bound := spare
    show Signal.signals l + _ + n < Word.bound
    omega
  | abort => exact ⟨m, .of_turn_eq (Abort.turn_eq l ask) rfl rfl rfl ⟨rfl, rfl⟩ fun _ _ => trivial⟩
  | tracked =>
    have passes := Tracked.passes l ask m
    exact ⟨_, passes.inner, passes.relays, rfl, rfl, passes.live, passes.spare⟩
  | heap => cases wrapper
  | cache => cases wrapper

end Layer

end LayeredMemory
