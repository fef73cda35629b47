import LayeredMemory.Layer.Exhaustion
import LayeredMemory.Proofs.Layer.Contract
import Mathlib.Algebra.BigOperators.Group.Multiset.Basic
import Mathlib.Algebra.Order.BigOperators.Group.List
import Mathlib.Algebra.Order.Group.Nat

/-!
# Turns — calls of an allocator and how they end

A client asks an allocator for one thing after the other. A `Turn` is one call: what was asked, how
it ended, and memory before and after it. `Turns` are the runs of an allocator, turn by turn.
Between two turns memory is anybody's, and a call that stopped may be followed by others.

A layer between a client and an allocator may tell of failures in its own way. `Turn.judged` is how
a turn ends then; an answer is the same whoever tells it.

Calls keep to the contract (`Lawful`) when blocks that are handed out fit next to the leases that
are out, and only leases are resized and released. There are never more leased bytes than there are
addresses (`Fitted.total_lt`).
-/

namespace LayeredMemory

/-! ### Outcomes -/

/-- The end was for want of room. -/
def isExhausted {γ : Type} : Except Failure γ → Bool
  | .error (.fault f) => f.isExhaustion
  | _ => false

/-- An outcome as a larger component passes it on: it judges failures, and learns whether there was
no room. -/
def passed {σ τ γ : Type} (J : Failure → Failure) (P : Bool → τ → σ) :
    Except Failure γ × Store τ → Except Failure γ × Store σ
  | (r, s) => (r.mapError J, ⟨P (isExhausted r) s.part, s.memory⟩)

/-- Replaces exhaustion, and nothing else. -/
def Failure.onExhaustion (J : Fault → Failure) : Failure → Failure
  | .fault f => if f.isExhaustion then J f else .fault f
  | .stop k => .stop k

theorem Failure.onExhaustion_of_room {J : Fault → Failure} {f : Fault}
    (room : f.isExhaustion = true) : Failure.onExhaustion J (.fault f) = J f :=
  if_pos room

theorem Failure.onExhaustion_of_other {J : Fault → Failure} {f : Fault}
    (other : f.isExhaustion = false) : Failure.onExhaustion J (.fault f) = .fault f :=
  if_neg (by rw [other]; exact nofun)

namespace Action

variable {σ τ γ δ : Type} {s s' : Store σ} {m : Memory}

/-- How an action ends, and the store that it leaves. -/
def outcome (x : Action σ γ) (s : Store σ) : Except Failure γ × Store σ :=
  match x s with
  | .ok a s' => (.ok a, s')
  | .error e s' => (.error e, s')

theorem outcome_of_ok {x : Action σ γ} {a : γ} (run : x s = .ok a s') :
    x.outcome s = (.ok a, s') := by
  unfold outcome
  rw [run]

theorem outcome_of_error {x : Action σ γ} {e : Failure} (run : x s = .error e s') :
    x.outcome s = (.error e, s') := by
  unfold outcome
  rw [run]

theorem map_of_ok {x : Action σ γ} {a : γ} (f : γ → δ) (run : x s = .ok a s') :
    (f <$> x) s = .ok (f a) s' := by
  show EStateM.map f x s = _
  rw [EStateM.map, run]

theorem map_of_error {x : Action σ γ} {e : Failure} (f : γ → δ) (run : x s = .error e s') :
    (f <$> x) s = .error e s' := by
  show EStateM.map f x s = _
  rw [EStateM.map, run]

/-- Runs that agree agree in what is made of their answers. -/
theorem map_congr {x y : Action σ γ} {t : Store σ} (f : γ → δ) (same : x s = y t) :
    (f <$> x) s = (f <$> y) t := by
  show EStateM.map f x s = EStateM.map f y t
  rw [EStateM.map, EStateM.map, same]

theorem outcome_map (f : γ → δ) (x : Action σ γ) :
    (f <$> x).outcome s = ((x.outcome s).1.map f, (x.outcome s).2) := by
  rcases run : x s with ⟨a, s'⟩ | ⟨e, s'⟩
  · rw [outcome_of_ok run, outcome_of_ok (map_of_ok f run)]
    rfl
  · rw [outcome_of_error run, outcome_of_error (map_of_error f run)]
    rfl

section Recovery

variable {body : Action σ γ} {fallback : Fault → Action σ γ} {f : Fault}

theorem recover_of_ok {a : γ} (run : body s = .ok a s') :
    Action.recover body fallback s = .ok a s' := by
  unfold Action.recover
  exact bind_of_ok (attempt_of_ok run)

theorem recover_of_exhaustion (run : body s = .error (.fault f) s')
    (room : f.isExhaustion = true) : Action.recover body fallback s = fallback f s' := by
  unfold Action.recover
  rw [bind_of_ok (attempt_of_fault run)]
  dsimp only
  rw [if_pos room]

theorem recover_of_fault (run : body s = .error (.fault f) s') (other : f.isExhaustion = false) :
    Action.recover body fallback s = .error (.fault f) s' := by
  unfold Action.recover
  rw [bind_of_ok (attempt_of_fault run)]
  dsimp only
  rw [if_neg (by rw [other]; exact nofun)]
  rfl

theorem recover_of_stop {k : Stop} (run : body s = .error (.stop k) s') :
    Action.recover body fallback s = .error (.stop k) s' := by
  unfold Action.recover
  exact bind_of_error (attempt_of_stop run)

end Recovery

variable {get : σ → τ} {put : τ → σ → σ} {p : σ}

/-- A component's outcome is passed on as it is. -/
theorem outcome_within (x : Action τ γ) :
    (Action.within get put x).outcome ⟨p, m⟩ =
      passed id (fun _ t => put t p) (x.outcome ⟨get p, m⟩) := by
  rcases run : x ⟨get p, m⟩ with ⟨a, s'⟩ | ⟨e, s'⟩
  · have outer : within get put x ⟨p, m⟩ = _ := within_of_ok run
    rw [outcome_of_ok run, outcome_of_ok outer]
    rfl
  · have outer : within get put x ⟨p, m⟩ = _ := within_of_error run
    rw [outcome_of_error run, outcome_of_error outer]
    rfl

/-- A component's outcome is passed on, but for exhaustion. -/
theorem outcome_recover (x : Action τ γ) {fallback : Fault → Action σ γ} {J : Fault → Failure}
    {P : Bool → τ → σ} (placed : ∀ t, P false t = put t p)
    (instead : ∀ f t m', fallback f ⟨P false t, m'⟩ = .error (J f) ⟨P true t, m'⟩) :
    (Action.recover (Action.within get put x) fallback).outcome ⟨p, m⟩ =
      passed (Failure.onExhaustion J) P (x.outcome ⟨get p, m⟩) := by
  rcases run : x ⟨get p, m⟩ with ⟨a, t, m'⟩ | ⟨f | k, t, m'⟩
  · have outer : within get put x ⟨p, m⟩ = _ := within_of_ok run
    rw [outcome_of_ok run, outcome_of_ok (recover_of_ok outer), ← placed]
    rfl
  · have outer : within get put x ⟨p, m⟩ = _ := within_of_error run
    rw [← placed] at outer
    rw [outcome_of_error run]
    cases room : f.isExhaustion with
    | true =>
      rw [outcome_of_error ((recover_of_exhaustion outer room).trans (instead f t m'))]
      simp only [passed, isExhausted, Except.mapError, Failure.onExhaustion_of_room room, room]
    | false =>
      rw [outcome_of_error (recover_of_fault outer room)]
      simp only [passed, isExhausted, Except.mapError, Failure.onExhaustion_of_other room, room]
  · have outer : within get put x ⟨p, m⟩ = _ := within_of_error run
    rw [outcome_of_error run, outcome_of_error (recover_of_stop outer), ← placed]
    rfl

end Action

/-! ### Calls -/

/-- What is asked of an allocator. -/
inductive Ask where
  | acquire (layout : Layout)
  | resize (ptr : Nat) (old new : Layout)
  | release (ptr : Nat) (layout : Layout)

/-- A call: what was asked, how it ended, and memory before and after it. -/
structure Turn where
  ask : Ask
  before : Memory
  outcome : Except Failure (Option Block)
  after : Memory

namespace Ask

/-- The layout that the answer is to have. Nothing answers a release. -/
def layout? : Ask → Option Layout
  | .acquire layout | .resize _ _ layout => some layout
  | .release _ _ => none

/-- The bytes that are given up. -/
def gone : Ask → Multiset Extent
  | .release ptr layout => {⟨ptr, layout.size⟩}
  | .acquire _ | .resize _ _ _ => 0

variable {α : Type} [Allocator α] {a a' : α} {b : Option Block} {e : Failure} {m m' : Memory}

/-- Asks an allocator. -/
def run : Ask → Action α (Option Block)
  | .acquire layout => some <$> Allocator.acquire layout
  | .resize ptr old new => some <$> Allocator.resize ptr old new
  | .release ptr layout => (fun _ => none) <$> Allocator.release ptr layout

/-- Asks an allocator where memory is `m`; the turn that this is, and the allocator after it. -/
def turn (ask : Ask) (a : α) (m : Memory) : Turn × α :=
  (⟨ask, m, (ask.run.outcome ⟨a, m⟩).1, (ask.run.outcome ⟨a, m⟩).2.memory⟩,
    (ask.run.outcome ⟨a, m⟩).2.part)

theorem turn_of_ok (ask : Ask) (run : ask.run ⟨a, m⟩ = .ok b ⟨a', m'⟩) :
    ask.turn a m = (⟨ask, m, .ok b, m'⟩, a') := by
  unfold turn
  rw [Action.outcome_of_ok run]

theorem turn_of_error (ask : Ask) (run : ask.run ⟨a, m⟩ = .error e ⟨a', m'⟩) :
    ask.turn a m = (⟨ask, m, .error e, m'⟩, a') := by
  unfold turn
  rw [Action.outcome_of_error run]

/-- A request that is answered is answered with a block. -/
theorem exists_block {ask : Ask} (request : ask.layout?.isSome = true)
    (answered : (ask.turn a m).1.outcome = .ok b) : ∃ block, b = some block := by
  have of_map {r : Except Failure Block} (h : r.map some = .ok b) : ∃ block, b = some block := by
    cases r with
    | ok block => exact ⟨block, (Except.ok.inj h).symm⟩
    | error e => cases h
  cases ask with
  | acquire layout =>
    have outcome := Action.outcome_map some (s := ⟨a, m⟩) (Allocator.acquire layout)
    exact of_map ((congrArg Prod.fst outcome).symm.trans answered)
  | resize ptr old new =>
    have outcome := Action.outcome_map some (s := ⟨a, m⟩) (Allocator.resize ptr old new)
    exact of_map ((congrArg Prod.fst outcome).symm.trans answered)
  | release ptr layout => cases request

end Ask

/-- Calls of an allocator one after the other. Between them memory may change as it likes. -/
inductive Turns {α : Type} [Allocator α] : α → List Turn → α → Prop
  | nil (a : α) : Turns a [] a
  | cons {a a' : α} {ts : List Turn} (ask : Ask) (m : Memory)
      (rest : Turns (ask.turn a m).2 ts a') : Turns a ((ask.turn a m).1 :: ts) a'

namespace Turn

/-- There was no room for what was asked. -/
def exhausted (t : Turn) : Bool :=
  t.ask.layout?.isSome && isExhausted t.outcome

/-- The bytes that came with a fresh block. -/
def fresh (t : Turn) : Multiset Extent :=
  match t.ask, t.outcome with
  | .acquire layout, .ok (some b) => {⟨b.ptr, layout.size⟩}
  | _, _ => 0

/-- How a turn ends for somebody who is told of failures in another way. -/
def judged (t : Turn) (J : Layout → Failure → Failure) : Except Failure (Option Block) :=
  match t.ask.layout? with
  | some layout => t.outcome.mapError (J layout)
  | none => t.outcome

variable {t u : Turn} {J J' J'' : Layout → Failure → Failure}

/-- Judged twice. -/
theorem judged_trans (ask : t.ask = u.ask) (outcome : t.outcome = u.judged J')
    (comp : ∀ layout e, J'' layout e = J layout (J' layout e)) : t.judged J = u.judged J'' := by
  unfold judged at outcome ⊢
  rw [ask, outcome]
  cases u.ask.layout? with
  | none => rfl
  | some layout =>
    rcases u.outcome with e | b
    · exact congrArg Except.error (comp layout e).symm
    · rfl

theorem judged_of_id (same : ∀ layout e, J layout e = e) : t.judged J = t.outcome := by
  unfold judged
  cases t.ask.layout? with
  | none => rfl
  | some layout =>
    rcases t.outcome with e | b
    · exact congrArg Except.error (same layout e)
    · rfl

theorem judged_of_stop {k : Stop} (stopped : t.outcome = .error (.stop k))
    (stops : ∀ layout, J layout (.stop k) = .stop k) : t.judged J = .error (.stop k) := by
  unfold judged
  rw [stopped]
  cases t.ask.layout? with
  | none => rfl
  | some layout => exact congrArg Except.error (stops layout)

theorem outcome_of_judged {b : Option Block} (answered : t.judged J = .ok b) :
    t.outcome = .ok b := by
  unfold judged at answered
  cases layout : t.ask.layout? with
  | none => rwa [layout] at answered
  | some layout' =>
    rw [layout] at answered
    rcases outcome : t.outcome with e | c
    · rw [outcome] at answered
      cases answered
    · rw [outcome] at answered
      exact answered

/-- A turn that answers no more than another has no more fresh bytes. -/
theorem fresh_subset (ask : t.ask = u.ask)
    (served : ∀ b, t.outcome = .ok b → u.outcome = .ok b) : t.fresh ⊆ u.fresh := by
  rcases outcome : t.outcome with e | b
  · have none : t.fresh = 0 := by
      unfold fresh
      rw [outcome]
      cases t.ask <;> rfl
    exact none ▸ Multiset.zero_subset _
  · have same : t.fresh = u.fresh := by
      unfold fresh
      rw [ask, outcome, served b outcome]
    exact same ▸ Multiset.Subset.refl _

end Turn

/-! ### Lawful calls -/

/-- What a call makes of the leases that are out, if the client and the allocator keep to the
contract. -/
inductive Ask.Moves : Ask → Except Failure (Option Block) → Multiset Lease → Multiset Lease → Prop
  | acquired {layout : Layout} {b : Block} {L : Multiset Lease} (fits : Lease.Fits ⟨b, layout⟩ L) :
      Moves (.acquire layout) (.ok (some b)) L (⟨b, layout⟩ ::ₘ L)
  | refused {layout : Layout} {e : Failure} {L : Multiset Lease} :
      Moves (.acquire layout) (.error e) L L
  | resized {l : Lease} {layout : Layout} {b : Block} {L : Multiset Lease}
      (fits : Lease.Fits ⟨b, layout⟩ L) :
      Moves (.resize l.block.ptr l.layout layout) (.ok (some b)) (l ::ₘ L) (⟨b, layout⟩ ::ₘ L)
  | kept {l : Lease} {layout : Layout} {e : Failure} {L : Multiset Lease} :
      Moves (.resize l.block.ptr l.layout layout) (.error e) (l ::ₘ L) (l ::ₘ L)
  | released {l : Lease} {L : Multiset Lease} :
      Moves (.release l.block.ptr l.layout) (.ok none) (l ::ₘ L) L

/-- What a call makes of the leases that are out, if the client keeps to the contract and whatever
the allocator does. A block that was not released is still out. -/
inductive Ask.Trades : Ask → Except Failure (Option Block) → Multiset Lease → Multiset Lease → Prop
  | acquired {layout : Layout} {b : Block} {L : Multiset Lease} :
      Trades (.acquire layout) (.ok (some b)) L (⟨b, layout⟩ ::ₘ L)
  | refused {layout : Layout} {e : Failure} {L : Multiset Lease} :
      Trades (.acquire layout) (.error e) L L
  | resized {l : Lease} {layout : Layout} {b : Block} {L : Multiset Lease} :
      Trades (.resize l.block.ptr l.layout layout) (.ok (some b)) (l ::ₘ L) (⟨b, layout⟩ ::ₘ L)
  | kept {l : Lease} {layout : Layout} {e : Failure} {L : Multiset Lease} :
      Trades (.resize l.block.ptr l.layout layout) (.error e) (l ::ₘ L) (l ::ₘ L)
  | released {l : Lease} {L : Multiset Lease} :
      Trades (.release l.block.ptr l.layout) (.ok none) (l ::ₘ L) L
  | held {l : Lease} {e : Failure} {L : Multiset Lease} :
      Trades (.release l.block.ptr l.layout) (.error e) (l ::ₘ L) (l ::ₘ L)

theorem Ask.Moves.trades {ask : Ask} {r : Except Failure (Option Block)} {L L' : Multiset Lease}
    (move : ask.Moves r L L') : ask.Trades r L L' := by
  cases move with
  | acquired => exact .acquired
  | refused => exact .refused
  | resized => exact .resized
  | kept => exact .kept
  | released => exact .released

/-- Calls that keep to the contract, with some leases out before them. -/
inductive Lawful : Multiset Lease → List Turn → Prop
  | nil (L : Multiset Lease) : Lawful L []
  | cons {L L' : Multiset Lease} {t : Turn} {ts : List Turn} (move : t.ask.Moves t.outcome L L')
      (rest : Lawful L' ts) : Lawful L (t :: ts)

variable {L L' : Multiset Lease}

theorem Fitted.moves (h : Fitted L) {ask : Ask} {r : Except Failure (Option Block)}
    (move : ask.Moves r L L') : Fitted L' := by
  cases move with
  | acquired fits => exact h.cons fits
  | refused => exact h
  | resized fits => exact h.of_cons.cons fits
  | kept => exact h
  | released => exact h.of_cons

/-- The bytes that some leases were acquired for. -/
def total (L : Multiset Lease) : Nat :=
  (L.map fun l => l.layout.size).sum

theorem total_cons (l : Lease) (L : Multiset Lease) :
    total (l ::ₘ L) = l.layout.size + total L := by
  unfold total
  rw [Multiset.map_cons, Multiset.sum_cons]

/-- There are no more leased bytes than there are addresses. -/
theorem Fitted.total_lt (h : Fitted L) : total L < Word.bound := by
  obtain ⟨ls, rfl⟩ : ∃ ls : List Lease, (ls : Multiset Lease) = L := Quot.exists_rep L
  have valid : ∀ e ∈ ls.map Lease.extent, e.Valid := by
    intro e he
    obtain ⟨l, hl, rfl⟩ := List.mem_map.mp he
    exact (h.each l hl).valid
  have same : total ls = (ls.map fun l => l.layout.size).sum := by
    unfold total
    rw [Multiset.map_coe, Multiset.sum_coe]
  have le : total ls ≤ ((ls.map Lease.extent).map Extent.len).sum := by
    rw [same, List.map_map]
    exact List.sum_le_sum fun l hl => (h.each l hl).size_le
  exact Nat.lt_of_le_of_lt le (Extent.sum_len_lt valid h.separate.pairwise)

end LayeredMemory
