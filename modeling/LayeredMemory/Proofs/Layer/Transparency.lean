import LayeredMemory.Layer.Arena
import LayeredMemory.Proofs.Layer.Wrapper
import Mathlib.Data.List.Permutation

/-!
# Transparency — wrappers over wrappers

Wrappers nest in any number and order. Whatever a stack of them is asked, its base is asked the
same, call by call, and answers for the stack. Exhaustion is told in another way, and that depends
on the order of the layers (`verdict`): on its way up it becomes out of memory at the first signal,
and ends at the first abort, whose hook is told what has become of it by then.

One thing more comes between a base and its clients. The books of a tracked layer must add up, and
where they do not, the call stops after the base has served it (`Turn.booked`). That cannot happen
to a client that keeps to the contract; it does happen to others (`tracked_stops_served`).

* `verdict_cons`: one layer after the other comes to the verdict of the whole stack.
* `Stack.passes`: one call of a stack.
* `Stack.exists_heard`: a run of a stack is a run of its base.
* `wrappers_transparent`: what clients see of a base through wrappers.
-/

namespace LayeredMemory

/-! ### The verdict on exhaustion -/

/-- Some signal has no abort inside. -/
def signalled : List LayerKind → Bool
  | [] => false
  | k :: ks => signalled ks || k == .signal && !ks.contains .abort

/-- What layers tell of exhaustion: signals tell of it as out of memory. -/
def told (ks : List LayerKind) (layout : Layout) (f : Fault) : Fault :=
  if signalled ks then layout.outOfMemory else f

/-- What becomes of exhaustion. The innermost abort, if there is one, runs its hook with what it is
told; otherwise the client is told. -/
def verdict (ks : List LayerKind) (hook : Option Hook) (layout : Layout) (f : Fault) : Failure :=
  match hook with
  | none => .fault (told ks layout f)
  | some hook => .stop (hook.stop layout (told ks layout f))

section Verdict

variable {k : LayerKind} {ks : List LayerKind} {hook own : Option Hook} {layout : Layout}
  {f : Fault}

theorem isExhaustion_told (room : f.isExhaustion = true) :
    (told ks layout f).isExhaustion = true := by
  unfold told
  split
  · rfl
  · exact room

/-- One more layer makes of exhaustion what it makes of the verdict inside. -/
theorem verdict_cons (inside : hook = none ↔ .abort ∉ ks) (here : own = none ↔ k ≠ .abort)
    (room : f.isExhaustion = true) :
    verdict (k :: ks) (hook.or own) layout f = k.judge own layout (verdict ks hook layout f) := by
  have signalled_cons :
      signalled (k :: ks) = (signalled ks || k == .signal && !ks.contains .abort) := rfl
  cases hook with
  | some h =>
    -- The abort inside has stopped, and nothing gets past it.
    have abort : ks.contains .abort = true := by simpa using inside
    have same : told (k :: ks) layout f = told ks layout f := by
      unfold told
      rw [signalled_cons, abort, Bool.not_true, Bool.and_false, Bool.or_false]
    unfold verdict
    rw [same]
    exact LayerKind.judge_stop.symm
  | none =>
    have abortless : ks.contains .abort = false := by simpa using inside
    rw [abortless, Bool.not_false, Bool.and_true] at signalled_cons
    have same (other : k ≠ .signal) : told (k :: ks) layout f = told ks layout f := by
      unfold told
      rw [signalled_cons, beq_false_of_ne other, Bool.or_false]
    cases k with
    | signal =>
      obtain rfl := here.mpr nofun
      have out : told (.signal :: ks) layout f = layout.outOfMemory := by
        unfold told
        rw [signalled_cons, beq_self_eq_true, Bool.or_true, if_pos rfl]
      rw [LayerKind.judge_signal]
      exact (congrArg Failure.fault out).trans
        (Failure.onExhaustion_of_room (J := fun _ => .fault layout.outOfMemory)
          (isExhaustion_told room)).symm
    | abort =>
      obtain ⟨h, rfl⟩ : ∃ h, own = some h :=
        Option.ne_none_iff_exists'.mp fun none => here.mp none rfl
      rw [LayerKind.judge_abort]
      exact (congrArg (fun f => Failure.stop (h.stop layout f)) (same nofun)).trans
        (Failure.onExhaustion_of_room (J := fun f => .stop (h.stop layout f))
          (isExhaustion_told room)).symm
    | shared | exclusive | tracked | heap | cache =>
      obtain rfl := here.mpr nofun
      exact congrArg Failure.fault (same nofun)

/-- To the layers around, the verdict is exhaustion if there is no abort inside. -/
theorem isExhausted_verdict {γ : Type} (aborts : hook = none ↔ .abort ∉ ks)
    (room : f.isExhaustion = true) :
    (isExhausted (.error (verdict ks hook layout f) : Except Failure γ)).toNat =
      if .abort ∈ ks then 0 else 1 := by
  cases hook with
  | none =>
    rw [if_neg (aborts.mp rfl)]
    exact congrArg Bool.toNat (isExhaustion_told room)
  | some hook =>
    have abort : .abort ∈ ks := by simpa using aborts
    rw [if_pos abort]
    rfl

end Verdict

/-- A count with the kinds of the layers inside, after so many more exhaustions of the base. None
gets past an abort. -/
def tallied (n : Nat) : List LayerKind × Nat → List LayerKind × Nat
  | (inside, count) => (inside, if .abort ∈ inside then count else count + n)

theorem tallied_zero (c : List LayerKind × Nat) : tallied 0 c = c :=
  congrArg (Prod.mk c.1) (ite_self c.2)

theorem tallied_tallied (j n : Nat) (c : List LayerKind × Nat) :
    tallied n (tallied j c) = tallied (j + n) c := by
  unfold tallied
  by_cases abort : .abort ∈ c.1
  · simp only [abort, if_true]
  · simp only [abort, if_false, Nat.add_assoc]

theorem toList_tallied {ks : List LayerKind} {count count' : Option Nat} {n k : Nat}
    (added : count' = count.map (· + k)) (passed : k = if .abort ∈ ks then 0 else n) :
    (count'.map (ks, ·)).toList = ((count.map (ks, ·)).toList).map (tallied n) := by
  subst added passed
  cases count with
  | none => rfl
  | some c =>
    refine congrArg (fun c => [(ks, c)]) ?_
    dsimp only
    split <;> rfl

/-! ### One call of a stack -/

namespace Stack

variable {β : Type} {ks : List LayerKind}

/-- The hook of the innermost layer that has one. -/
def hook? : (ks : List LayerKind) → Stack β ks → Option Hook
  | [], _ => none
  | k :: ks, s => (hook? ks (Layer.inner k s)).or (Layer.hook? k s)

/-- The counts of a stack, outermost first, each with the kinds of the layers inside. -/
def counts : (ks : List LayerKind) → Stack β ks → List (List LayerKind × Nat)
  | [], _ => []
  | k :: ks, s => ((Layer.signals? k s).map (ks, ·)).toList ++ counts ks (Layer.inner k s)

/-- The live bytes in the books of a stack, outermost first. -/
def liveBytes : (ks : List LayerKind) → Stack β ks → List Nat
  | [], _ => []
  | k :: ks, s => Layer.liveBytes k s ++ liveBytes ks (Layer.inner k s)

/-- Every number of a stack is a word, also when so many more calls will have been counted. -/
def Spare (n : Nat) : (ks : List LayerKind) → Stack β ks → Prop
  | [], _ => True
  | k :: ks, s => Layer.Spare n k s ∧ Spare n ks (Layer.inner k s)

/-- What becomes of a failure of the base. -/
def judge (ks : List LayerKind) (hook : Option Hook) (layout : Layout) : Failure → Failure :=
  Failure.onExhaustion (verdict ks hook layout)

theorem hook?_eq_none_iff {s : Stack β ks} : hook? ks s = none ↔ .abort ∉ ks := by
  induction ks with
  | nil => exact iff_of_true rfl List.not_mem_nil
  | cons k ks ih =>
    rw [List.mem_cons, not_or, and_comm, ← ne_eq, ne_comm]
    exact Option.or_eq_none_iff.trans (and_congr ih Layer.hook?_eq_none_iff)

theorem judge_nil {layout : Layout} {e : Failure} : judge [] none layout e = e := by
  rcases e with f | k
  · exact ite_self (Failure.fault f)
  · rfl

/-- One more layer judges what the layers inside made of a failure. -/
theorem judge_cons {k : LayerKind} {s : Stack β (k :: ks)} {layout : Layout} {e : Failure} :
    judge (k :: ks) (hook? (k :: ks) s) layout e =
      k.judge (Layer.hook? k s) layout (judge ks (hook? ks (Layer.inner k s)) layout e) := by
  cases e with
  | stop j => exact LayerKind.judge_stop.symm
  | fault f =>
    unfold judge
    cases room : f.isExhaustion with
    | true =>
      rw [Failure.onExhaustion_of_room room, Failure.onExhaustion_of_room room]
      exact verdict_cons hook?_eq_none_iff Layer.hook?_eq_none_iff room
    | false =>
      rw [Failure.onExhaustion_of_other room, Failure.onExhaustion_of_other room,
        LayerKind.judge_fault room]

end Stack

/-- An abort keeps exhaustion from the layers around it. -/
theorem Relays.exhausted_eq {ks : List LayerKind} {hook : Option Hook} {ns : List Nat} {t u : Turn}
    (h : Relays (Stack.judge ks hook) ns t u) (aborts : hook = none ↔ .abort ∉ ks) :
    t.exhausted.toNat = if .abort ∈ ks then 0 else u.exhausted.toNat := by
  have outcome := h.outcome
  unfold Turn.reported at outcome
  unfold Turn.exhausted
  rw [h.ask]
  cases jam : (u.booked ns).1 with
  | some e =>
    obtain ⟨⟨b, served⟩, -, stop⟩ := Turn.booked_fst jam
    rw [jam] at outcome
    rw [outcome, served]
    rcases stop with rfl | rfl <;>
      simp only [isExhausted, Bool.and_false, Bool.toNat_false, ite_self]
  | none =>
    rw [jam] at outcome
    rw [outcome]
    unfold Turn.judged
    cases u.ask.layout? with
    | none => exact (ite_self 0).symm
    | some layout =>
      rcases u.outcome with (f | k) | b
      · have heard : isExhausted (.error (.fault f) : Except Failure (Option Block)) =
          f.isExhaustion := rfl
        cases room : f.isExhaustion with
        | true =>
          have judged : Stack.judge ks hook layout (.fault f) = verdict ks hook layout f :=
            Failure.onExhaustion_of_room room
          simp only [Except.mapError, judged, heard, room, Option.isSome_some, Bool.true_and,
            Bool.toNat_true]
          exact isExhausted_verdict aborts room
        | false =>
          have judged : Stack.judge ks hook layout (.fault f) = .fault f :=
            Failure.onExhaustion_of_other room
          simp only [Except.mapError, judged, heard, room, Bool.and_false, Bool.toNat_false,
            ite_self]
      · exact (ite_self 0).symm
      · exact (ite_self 0).symm

namespace Stack

variable {β : Type} {ks : List LayerKind}

/-- One call of a stack, and the call that its base gets. -/
structure Passes (ks : List LayerKind) (s : Stack β ks) (t : Turn × Stack β ks) (u : Turn × β) :
    Prop where
  base : Stack.base ks t.2 = u.2
  relays : Relays (judge ks (hook? ks s)) (liveBytes ks s) t.1 u.1
  hook : hook? ks t.2 = hook? ks s
  counts : counts ks t.2 = (counts ks s).map (tallied u.1.exhausted.toNat)
  live : liveBytes ks t.2 = (u.1.booked (liveBytes ks s)).2
  spare : ∀ n, Spare (n + 1) ks s → Spare n ks t.2

variable [Allocator β]

/-- **One call**: a stack of wrappers makes one call of its base. -/
theorem passes (wrappers : ∀ k ∈ ks, k.isWrapper = true) (s : Stack β ks) (ask : Ask)
    (m : Memory) : ∃ m₀, Passes ks s (ask.turn s m) (ask.turn (base ks s) m₀) := by
  induction ks generalizing m with
  | nil =>
    refine ⟨m, rfl, ⟨rfl, .refl _ _, .refl _ _, ?_⟩, rfl, rfl, rfl, fun _ _ => trivial⟩
    exact (Turn.judged_of_id (J := judge [] none) fun _ _ => judge_nil).symm
  | cons k ks ih =>
    obtain ⟨here, inside⟩ := List.forall_mem_cons.mp wrappers
    obtain ⟨m₁, outer⟩ := Layer.passes here s ask m
    obtain ⟨m₀, inner⟩ := ih inside (Layer.inner k s) m₁
    refine ⟨m₀, ?base, ?relays, ?hook, ?counts, ?live, ?spare⟩
    case base => exact (congrArg (base ks) outer.inner).trans inner.base
    case relays =>
      exact outer.relays.trans inner.relays (fun _ _ => judge_cons) fun _ _ => LayerKind.judge_stop
    case hook =>
      have rest := (congrArg (hook? ks) outer.inner).trans inner.hook
      exact congrArg₂ Option.or rest outer.hook
    case counts =>
      have rest := (congrArg (counts ks) outer.inner).trans inner.counts
      have own := toList_tallied outer.signals (inner.relays.exhausted_eq hook?_eq_none_iff)
      exact (congrArg₂ (· ++ ·) own rest).trans List.map_append.symm
    case live =>
      have rest := (congrArg (liveBytes ks) outer.inner).trans inner.live
      refine (congrArg₂ (· ++ ·) outer.live rest).trans ?_
      exact (Turn.reported_reported inner.relays.ask inner.relays.outcome (fun _ _ => judge_cons)
        fun _ _ => LayerKind.judge_stop).2
    case spare =>
      intro n spare
      have rest := inner.spare n spare.2
      exact ⟨outer.spare n spare.1, outer.inner ▸ rest⟩

end Stack

/-! ### Whole runs -/

/-- Calls of the client of a stack beside those of its base: how each call was relayed, and what
became of the books. -/
inductive Relayed (J : Layout → Failure → Failure) :
    List Nat → List Turn → List Turn → List Nat → Prop
  | nil (ns : List Nat) : Relayed J ns [] [] ns
  | cons {ns ns' : List Nat} {t u : Turn} {ts us : List Turn} (here : Relays J ns t u)
      (rest : Relayed J (u.booked ns).2 ts us ns') : Relayed J ns (t :: ts) (u :: us) ns'

/-- The base is asked what its client asks. -/
theorem Relayed.asks {J : Layout → Failure → Failure} {ns ns' : List Nat} {ts us : List Turn}
    (relayed : Relayed J ns ts us ns') : List.Forall₂ (fun t u => t.ask = u.ask) ts us := by
  induction relayed with
  | nil => exact .nil
  | cons here rest ih => exact .cons here.ask ih

/-- What becomes of the books is told by the calls of the base. -/
theorem Relayed.books_eq {J : Layout → Failure → Failure} {ns ns' : List Nat} {ts us : List Turn}
    (relayed : Relayed J ns ts us ns') : ns' = us.foldl (fun ns u => (u.booked ns).2) ns := by
  induction relayed with
  | nil => rfl
  | cons here rest ih => exact ih

/-- Books that agree with the leases that are out stop nothing, and agree with those after it. -/
theorem Ask.Moves.booked_eq {u : Turn} {L L' : Multiset Lease} {ns : List Nat}
    (move : u.ask.Moves u.outcome L L') (fits : total L' < Word.bound)
    (agree : ∀ n ∈ ns, n = total L) : u.booked ns = (none, ns.map fun _ => total L') := by
  induction ns with
  | nil => rfl
  | cons n ns ih =>
    obtain ⟨rfl, rest⟩ := List.forall_mem_cons.mp agree
    rw [Turn.booked, ih rest, AllocStats.entry_of_trades move.trades fits]
    rfl

/-- **Within the contract** nothing but exhaustion is told in another way. -/
theorem Relayed.lawful {J : Layout → Failure → Failure} {ns ns' : List Nat} {ts us : List Turn}
    {L : Multiset Lease} (relayed : Relayed J ns ts us ns') (fitted : Fitted L)
    (lawful : Lawful L us) (agree : ∀ n ∈ ns, n = total L) :
    List.Forall₂ (fun t u => t.outcome = u.judged J) ts us := by
  induction relayed generalizing L with
  | nil => exact .nil
  | @cons ns ns' t u ts us here rest ih =>
    cases lawful with
    | @cons _ L' _ _ move after =>
      have fitted' := fitted.moves move
      have books := move.booked_eq fitted'.total_lt agree
      have outcome := here.outcome
      unfold Turn.reported at outcome
      rw [books] at outcome ih
      refine .cons outcome (ih fitted' after fun n hn => ?_)
      obtain ⟨-, -, same⟩ := List.mem_map.mp hn
      exact same.symm

namespace Stack

variable {β : Type} {ks : List LayerKind} [Allocator β]

/-- **A run** of a stack of wrappers is a run of its base. -/
theorem exists_heard (wrappers : ∀ k ∈ ks, k.isWrapper = true) {s s' : Stack β ks}
    {ts : List Turn} (run : Turns s ts s') :
    ∃ us, Turns (base ks s) us (base ks s') ∧
      Relayed (judge ks (hook? ks s)) (liveBytes ks s) ts us (liveBytes ks s') ∧
      counts ks s' = (counts ks s).map (tallied (us.countP Turn.exhausted)) ∧
      ∀ n, Spare (n + ts.length) ks s → Spare n ks s' := by
  induction run with
  | nil s => exact ⟨[], .nil _, .nil _, (List.map_id'' tallied_zero _).symm, fun _ spare => spare⟩
  | @cons s s' ts ask m rest ih =>
    obtain ⟨us, run, relayed, counts, spare⟩ := ih
    obtain ⟨m₀, passes⟩ := Stack.passes wrappers s ask m
    rw [passes.base] at run
    rw [passes.hook, passes.live] at relayed
    refine ⟨_ :: us, .cons ask m₀ run, .cons passes.relays relayed, ?_, fun n room => ?_⟩
    · rw [counts, passes.counts, List.map_map, List.countP_cons, Nat.add_comm]
      refine List.map_congr_left fun c _ => (tallied_tallied _ _ c).trans ?_
      cases (ask.turn (base ks s) m₀).1.exhausted <;> rfl
    · exact spare n (passes.spare _ room)

/-- A stack of wrappers can do what its base can do. -/
theorem can_eq (wrappers : ∀ k ∈ ks, k.isWrapper = true) (s : Stack β ks) :
    Allocator.canResize s = Allocator.canResize (base ks s) ∧
      Allocator.canRelease s = Allocator.canRelease (base ks s) := by
  induction ks with
  | nil => exact ⟨rfl, rfl⟩
  | cons k ks ih =>
    obtain ⟨here, inside⟩ := List.forall_mem_cons.mp wrappers
    have can := ih inside (Layer.inner k s)
    cases k with
    | shared | exclusive | tracked | signal | abort => exact can
    | heap | cache => cases here

end Stack

/-- **Wrappers are transparent.** A stack of wrappers can do what its base can do, and in every run
the base is asked what the stack is asked, call by call. Each call ends as it did for the base, but
for two things. Exhaustion: on its way up, every signal counts it and makes it out of memory of the
layout that was asked for, until the innermost abort runs its hook. And books: a block that the base
has handed out or resized does not reach the client when the live bytes of a tracked layer do not
add up; the innermost such layer stops the call. As long as calls keep to the contract, fresh books
add up. Numbers stay words for as many calls as they have room for. -/
theorem wrappers_transparent {β : Type} [Allocator β] {ks : List LayerKind}
    (wrappers : ∀ k ∈ ks, k.isWrapper = true) (s : Stack β ks) :
    Allocator.canResize s = Allocator.canResize (Stack.base ks s) ∧
      Allocator.canRelease s = Allocator.canRelease (Stack.base ks s) ∧
      ∀ ts s', Turns s ts s' → ∃ us, Turns (Stack.base ks s) us (Stack.base ks s') ∧
        Relayed (Stack.judge ks (Stack.hook? ks s)) (Stack.liveBytes ks s) ts us
          (Stack.liveBytes ks s') ∧
        Stack.counts ks s' = (Stack.counts ks s).map (tallied (us.countP Turn.exhausted)) ∧
        (∀ n, Stack.Spare (n + ts.length) ks s → Stack.Spare n ks s') ∧
        (Lawful 0 us → (∀ n ∈ Stack.liveBytes ks s, n = 0) →
          List.Forall₂ (fun t u => t.outcome = u.judged (Stack.judge ks (Stack.hook? ks s)))
            ts us) := by
  obtain ⟨resize, release⟩ := Stack.can_eq wrappers s
  refine ⟨resize, release, fun ts s' run => ?_⟩
  obtain ⟨us, run', relayed, counts, spare⟩ := Stack.exists_heard wrappers run
  exact ⟨us, run', relayed, counts, spare, relayed.lawful .zero⟩

/-- A block passes up unchanged. Exhaustion ends at the innermost abort: the signal inside it
counts, and the hook is told of out of memory. Then the block is cut short, and all books agree. -/
theorem wrappers_transparent_three :
    ∃ (s s' : Stack Arena [.exclusive, .tracked, .abort, .signal, .tracked, .shared])
      (ts us : List Turn),
      Turns s ts s' ∧ Turns (Stack.base _ s) us (Stack.base _ s') ∧
      us.map Turn.outcome = [.ok (some ⟨4096, 24⟩), .error (.fault (.exhausted "arena" 0)),
        .ok (some ⟨4096, 16⟩)] ∧
      ts.map Turn.outcome = [.ok (some ⟨4096, 24⟩),
        .error (.stop (.hook "spent" 24 8 (.outOfMemory 24 8))), .ok (some ⟨4096, 16⟩)] ∧
      Stack.counts _ s' = [([.tracked, .shared], 1)] ∧ Stack.liveBytes _ s' = [16, 16] ∧
      Stack.Spare 0 _ s' := by
  let layout : Layout := ⟨24, 8, by decide, by decide⟩
  let less : Layout := ⟨16, 8, by decide, by decide⟩
  let ask : Ask := .acquire layout
  let cut : Ask := .resize 4096 layout less
  let arena : Arena :=
    { next := 4096, limit := 8192, refuses := (· == 1), refusal := fun _ => .exhausted "arena" 0 }
  let inside : Stack Arena [.signal, .tracked, .shared] :=
    Signal.mk ({ inner := Borrowed.mk arena } : Tracked _) 0
  let s : Stack Arena [.exclusive, .tracked, .abort, .signal, .tracked, .shared] :=
    Borrowed.mk ({ inner := Abort.mk inside (.named "spent") } : Tracked _)
  have run := Turns.cons (a := s) ask .zero (.cons ask .zero (.cons cut .zero (.nil _)))
  obtain ⟨-, -, transparent⟩ := wrappers_transparent (by decide) s
  obtain ⟨us, below, relayed, counts, spare, answered⟩ := transparent _ _ run
  obtain ⟨m₁, m₂, m₃, rfl⟩ : ∃ m₁ m₂ m₃, us = [(ask.turn arena m₁).1,
      (ask.turn (ask.turn arena m₁).2 m₂).1,
      (cut.turn (ask.turn (ask.turn arena m₁).2 m₂).2 m₃).1] := by
    obtain _ | ⟨first, _ | ⟨second, _ | ⟨third, _ | _⟩⟩⟩ := relayed.asks
    obtain _ | @⟨_, _, _, ask₁, m₁, _ | @⟨_, _, _, ask₂, m₂, _ | @⟨_, _, _, ask₃, m₃, _⟩⟩⟩ := below
    obtain rfl : ask = ask₁ := first
    obtain rfl : ask = ask₂ := second
    obtain rfl : cut = ask₃ := third
    exact ⟨m₁, m₂, m₃, rfl⟩
  have served : (ask.turn arena m₁).1 = ⟨ask, m₁, .ok (some ⟨4096, 24⟩), m₁⟩ := by cbv
  have refused : (ask.turn (ask.turn arena m₁).2 m₂).1 =
      ⟨ask, m₂, .error (.fault (.exhausted "arena" 0)), m₂⟩ := by cbv
  have shrunk : (cut.turn (ask.turn (ask.turn arena m₁).2 m₂).2 m₃).1 =
      ⟨cut, m₃, .ok (some ⟨4096, 16⟩), m₃⟩ := by cbv
  rw [served, refused, shrunk] at below relayed counts answered
  have fits : Lease.Fits ⟨⟨4096, 24⟩, layout⟩ 0 :=
    .alone ⟨by decide, by decide⟩ (by decide) (by decide)
  have fits' : Lease.Fits ⟨⟨4096, 16⟩, less⟩ 0 :=
    .alone ⟨by decide, by decide⟩ (by decide) (by decide)
  have lives : Stack.liveBytes _ s = [0, 0] := rfl
  obtain _ | ⟨first, _ | ⟨second, _ | ⟨third, _⟩⟩⟩ := answered
    (.cons (.acquired fits) (.cons .refused (.cons (.resized (l := ⟨⟨4096, 24⟩, layout⟩) fits')
      (.nil _)))) (by rw [lives]; decide)
  refine ⟨s, _, _, _, run, below, rfl, ?_, counts, ?_, spare 0 ?_⟩
  · rw [List.map_cons, List.map_cons, List.map_cons, first, second, third]
    rfl
  · exact relayed.books_eq.trans (by rw [lives]; rfl)
  · have few : 0 + 3 < Word.bound := by decide
    exact ⟨trivial, .fresh few, trivial, few, .fresh few, trivial, trivial⟩

/-- **Books come between.** A client that resizes a block which it has given back is served by the
base, but not by a tracked allocator over it: its books know of no bytes to take the old size
from. -/
theorem tracked_stops_served :
    ∃ (s s' : Stack Arena [.tracked]) (ts us : List Turn) (wide slim : Layout),
      wide.size = 64 ∧ slim.size = 32 ∧ Stack.liveBytes _ s = [0] ∧
      Turns s ts s' ∧ Turns (Stack.base _ s) us (Stack.base _ s') ∧
      ts.map Turn.ask = [.acquire wide, .release 4096 wide, .resize 4096 wide slim] ∧
      us.map Turn.ask = ts.map Turn.ask ∧
      us.map Turn.outcome = [.ok (some ⟨4096, 64⟩), .ok none, .ok (some ⟨4096, 32⟩)] ∧
      ts.map Turn.outcome = [.ok (some ⟨4096, 64⟩), .ok none, .error (.stop .subOverflow)] := by
  have m : Memory := .zero
  let wide : Layout := ⟨64, 8, by decide, by decide⟩
  let slim : Layout := ⟨32, 8, by decide, by decide⟩
  let arena : Arena := { next := 4096, limit := 8192 }
  let tracked : Stack Arena [.tracked] := Tracked.mk arena {} none none
  let a₁ := ((Ask.acquire wide).turn arena m).2
  let a₂ := ((Ask.release 4096 wide).turn a₁ m).2
  let t₁ : Stack Arena [.tracked] := ((Ask.acquire wide).turn tracked m).2
  let t₂ : Stack Arena [.tracked] := ((Ask.release 4096 wide).turn t₁ m).2
  let us : List Turn := [((Ask.acquire wide).turn arena m).1,
    ((Ask.release 4096 wide).turn a₁ m).1, ((Ask.resize 4096 wide slim).turn a₂ m).1]
  have run := Turns.cons (a := tracked) (.acquire wide) m
    (.cons (.release 4096 wide) m (.cons (.resize 4096 wide slim) m (.nil _)))
  have below : Turns arena us ((Ask.resize 4096 wide slim).turn a₂ m).2 :=
    .cons (.acquire wide) m (.cons (.release 4096 wide) m
      (.cons (.resize 4096 wide slim) m (.nil _)))
  have same : Stack.base [.tracked] ((Ask.resize 4096 wide slim).turn t₂ m).2 =
      ((Ask.resize 4096 wide slim).turn a₂ m).2 := by
    dsimp only [t₂, t₁, a₂, a₁]
    cbv
  refine ⟨tracked, _, _, us, wide, slim, rfl, rfl, rfl, run, ?_, rfl, rfl, ?_, by cbv⟩
  · rw [same]
    exact below
  · dsimp only [us, a₂, a₁]
    cbv

end LayeredMemory
