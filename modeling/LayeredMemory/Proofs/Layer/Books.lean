import LayeredMemory.Layer.Arena
import LayeredMemory.Proofs.Layer.Wrapper
import Mathlib.Order.Bounds.Basic

/-!
# Books — what a tracked allocator has counted

A client of a tracked allocator keeps to the contract, and the allocator below answers as it likes.
`Recorded` are the histories of the two: which leases are out, and what was heard from below since
the books were opened or reset (`Period`). Books are `Exact` when they say just that.

* `Books.call`: one call keeps the books exact, and nothing in them can stop it.
* `Tracked.recorded_exact`: so it is in every history, and in a history of no more calls than there
  are words every number in the books is a word.
* `Tracked.recorded_outstanding`: the count of outstanding blocks starts over with a reset, leases
  do not. What is left of the count are the blocks in excess of those that were carried over.
-/

namespace LayeredMemory

/-! ### Periods -/

/-- How a call ended, as far as books tell. -/
inductive Ending where
  | acquired
  | resized
  | released
  /-- A request met a fault. -/
  | refused
  /-- Nothing came of the call. -/
  | stopped
  deriving DecidableEq

/-- How a call ended. -/
def Turn.ending (t : Turn) : Ending :=
  match t.ask, t.outcome with
  | .acquire _, .ok _ => .acquired
  | .resize _ _ _, .ok _ => .resized
  | .release _ _, .ok _ => .released
  | .acquire _, .error (.fault _) => .refused
  | .resize _ _ _, .error (.fault _) => .refused
  | _, .error _ => .stopped

/-- What there is to record between two resets. -/
structure Period where
  /-- The leases that were out in the beginning. -/
  carried : Multiset Lease
  /-- The calls since then, the latest first. -/
  turns : List Turn
  /-- The bytes that were live, in the beginning and after each call, the latest first. -/
  lives : List Nat

namespace Period

/-- The beginning of a period. -/
def fresh (L : Multiset Lease) : Period :=
  ⟨L, [], [total L]⟩

/-- A period after one more call. -/
def extend (p : Period) (t : Turn) (L : Multiset Lease) : Period :=
  ⟨p.carried, t :: p.turns, total L :: p.lives⟩

/-- How many calls ended in some way. -/
def count (p : Period) (e : Ending) : Nat :=
  p.turns.countP fun t => decide (t.ending = e)

variable {p : Period} {t : Turn} {L : Multiset Lease} {e : Ending}

theorem count_extend :
    (p.extend t L).count e = p.count e + if t.ending = e then 1 else 0 := by
  unfold count extend
  simp only [List.countP_cons, decide_eq_true_eq]

theorem count_le : p.count e ≤ p.turns.length :=
  List.countP_le_length

end Period

/-! ### Books -/

namespace AllocStats

variable {s s' : AllocStats} {t : Turn} {e : Ending} {n : Nat} {L L' : Multiset Lease} {p : Period}

/-- The counter of the calls that ended in some way. -/
def counter (s : AllocStats) : Ending → Nat
  | .acquired => s.acquires
  | .resized => s.resizes
  | .released => s.releases
  | .refused => s.failures
  | .stopped => 0

/-- What can have become of books after a call. -/
theorem after_eq (noted : s.after t = .ok s') :
    (t.ending = .stopped ∧ s' = s) ∨
      t.ending ≠ .stopped ∧ s'.peakBytes = max s.peakBytes s'.liveBytes ∧
        ∀ e, s'.counter e = s.counter e + if t.ending = e then 1 else 0 := by
  obtain ⟨layout | ⟨ptr, old, new⟩ | ⟨ptr, layout⟩, m, (f | k) | b, m'⟩ := t
  case acquire.ok =>
    rcases s.acquired_cases layout.size with noted' | ⟨-, jammed⟩
    · cases noted'.symm.trans noted
      exact .inr ⟨nofun, rfl, fun e => by cases e <;> rfl⟩
    · cases jammed.symm.trans noted
  case resize.ok =>
    rcases s.resized_cases old.size new.size with noted' | ⟨-, k, jammed, -⟩
    · cases noted'.symm.trans noted
      exact .inr ⟨nofun, rfl, fun e => by cases e <;> rfl⟩
    · cases jammed.symm.trans noted
  case release.ok | acquire.error.fault | resize.error.fault =>
    cases noted
    exact .inr ⟨nofun, rfl, fun e => by cases e <;> rfl⟩
  all_goals
    cases noted
    exact .inl ⟨rfl, rfl⟩

theorem counter_after (noted : s.after t = .ok s') (told : e ≠ .stopped) :
    s'.counter e = s.counter e + if t.ending = e then 1 else 0 := by
  rcases after_eq noted with ⟨stopped, rfl⟩ | ⟨-, -, counters⟩
  · rw [stopped, if_neg told.symm]
    rfl
  · exact counters e

theorem peak_after (noted : s.after t = .ok s') (le : s.liveBytes ≤ s.peakBytes) :
    s'.peakBytes = max s.peakBytes s'.liveBytes := by
  rcases after_eq noted with ⟨-, rfl⟩ | ⟨-, peak, -⟩
  · exact (max_eq_left le).symm
  · exact peak

/-- Every number in the books is a word. -/
structure Words (s : AllocStats) : Prop where
  acquires : s.acquires < Word.bound
  resizes : s.resizes < Word.bound
  failures : s.failures < Word.bound
  releases : s.releases < Word.bound
  live : s.liveBytes < Word.bound
  peak : s.peakBytes < Word.bound

/-- The books say what leases are out and what happened in a period. -/
structure Exact (s : AllocStats) (L : Multiset Lease) (p : Period) : Prop where
  live : s.liveBytes = total L
  peak : IsGreatest {k | k ∈ p.lives} s.peakBytes
  acquires : s.acquires = p.count .acquired
  resizes : s.resizes = p.count .resized
  failures : s.failures = p.count .refused
  releases : s.releases = p.count .released

theorem Exact.counter (h : s.Exact L p) (told : e ≠ .stopped) : s.counter e = p.count e := by
  cases e with
  | acquired => exact h.acquires
  | resized => exact h.resizes
  | released => exact h.releases
  | refused => exact h.failures
  | stopped => exact absurd rfl told

end AllocStats

/-- The books of a period with so many calls before its end: they are exact, and blocks balance. -/
structure Books (n : Nat) (s : AllocStats) (L : Multiset Lease) (p : Period) : Prop where
  honest : s.Exact L p
  current : total L ∈ p.lives
  peak_lt : s.peakBytes < Word.bound
  turns_le : p.turns.length ≤ n
  balance : p.carried.card + p.count .acquired = p.count .released + L.card

/-- A call that is released or refused, resized or stopped, keeps the balance of blocks. -/
theorem Ask.Trades.balance {t : Turn} {L L' : Multiset Lease}
    (trades : t.ask.Trades t.outcome L L') :
    (if t.ending = .acquired then 1 else 0) + L.card =
      (if t.ending = .released then 1 else 0) + L'.card := by
  obtain ⟨ask, m, outcome, m'⟩ := t
  cases trades with
  | acquired =>
    rw [Multiset.card_cons]
    show 1 + _ = 0 + _
    omega
  | released =>
    rw [Multiset.card_cons]
    show 0 + _ = 1 + _
    omega
  | resized =>
    rw [Multiset.card_cons, Multiset.card_cons]
    rfl
  | @refused _ e | @kept _ _ e | @held _ e => rcases e with f | k <;> rfl

namespace Books

variable {n : Nat} {s : AllocStats} {L L' : Multiset Lease} {p : Period} {t : Turn}

theorem fresh (live : s.liveBytes = total L) (fits : total L < Word.bound) :
    Books n s.reset L (.fresh L) where
  honest := by
    refine ⟨live, ⟨?_, fun k hk => ?_⟩, rfl, rfl, rfl, rfl⟩
    · exact List.mem_singleton.mpr live
    · exact Nat.le_of_eq ((List.mem_singleton.mp hk).trans live.symm)
  current := List.mem_singleton_self _
  peak_lt := live.trans_lt fits
  turns_le := Nat.zero_le n
  balance := Nat.add_comm _ _

theorem live_lt (h : Books n s L p) : s.liveBytes < Word.bound :=
  Nat.lt_of_le_of_lt (h.honest.live ▸ h.honest.peak.2 h.current) h.peak_lt

theorem counter_le (h : Books n s L p) {e : Ending} (told : e ≠ .stopped) : s.counter e ≤ n :=
  h.honest.counter told ▸ Nat.le_trans Period.count_le h.turns_le

/-- After fewer calls than there are words, each number is a word. -/
theorem words (h : Books n s L p) (few : n < Word.bound) : s.Words := by
  have word {e : Ending} (told : e ≠ .stopped) : s.counter e < Word.bound :=
    Nat.lt_of_le_of_lt (h.counter_le told) few
  exact ⟨word (e := .acquired) nofun, word (e := .resized) nofun, word (e := .refused) nofun,
    word (e := .released) nofun, h.live_lt, h.peak_lt⟩

/-- **One call**: exact books add up and stay exact. -/
theorem call (h : Books n s L p) (trades : t.ask.Trades t.outcome L L')
    (fits : total L' < Word.bound) :
    ∃ s', s.after t = .ok s' ∧ Books (n + 1) s' L' (p.extend t L') := by
  obtain ⟨s', noted, live⟩ := AllocStats.exists_after trades fits h.honest.live
  have counter {e : Ending} (told : e ≠ .stopped) : s'.counter e = (p.extend t L').count e := by
    rw [AllocStats.counter_after noted told, Period.count_extend, h.honest.counter told]
  have peak := AllocStats.peak_after noted (h.honest.live ▸ h.honest.peak.2 h.current)
  refine ⟨s', noted, ⟨live, ?_, counter (e := .acquired) nofun, counter (e := .resized) nofun,
    counter (e := .refused) nofun, counter (e := .released) nofun⟩, List.mem_cons_self, ?_,
    Nat.succ_le_succ h.turns_le, ?_⟩
  · -- The peak of a longer period is the old one or what is live now.
    rw [peak, live]
    refine ⟨?_, fun k hk => ?_⟩
    · show max s.peakBytes (total L') ∈ total L' :: p.lives
      rcases max_choice s.peakBytes (total L') with old | new
      · rw [old]
        exact List.mem_cons_of_mem _ h.honest.peak.1
      · rw [new]
        exact List.mem_cons_self
    · rcases List.mem_cons.mp hk with rfl | hk
      · exact le_max_right _ _
      · exact le_max_of_le_left (h.honest.peak.2 hk)
  · rw [peak, live]
    exact max_lt h.peak_lt fits
  · have balance := h.balance
    have moved := trades.balance
    rw [Period.count_extend, Period.count_extend]
    show p.carried.card + _ = _
    omega

end Books

/-! ### Histories -/

namespace Tracked

variable {α : Type} [Allocator α] {n : Nat} {l : Tracked α} {L : Multiset Lease} {p : Period}

/-- A tracked allocator after so many calls and resets, the leases that are out, and the period
since the last reset. The client keeps to the contract, and leased bytes can be counted. Between two
calls the allocator below may have been busy with others. -/
inductive Recorded : Nat → Tracked α → Multiset Lease → Period → Prop
  | start (inner : α) (onAcquire onRelease : Pattern) :
      Recorded 0 ⟨inner, {}, onAcquire, onRelease⟩ 0 (.fresh 0)
  | call {n : Nat} {l : Tracked α} {L L' : Multiset Lease} {p : Period} (ask : Ask) (m : Memory)
      (before : Recorded n l L p) (trades : ask.Trades (l.heard ask m).1.outcome L L')
      (fits : total L' < Word.bound) :
      Recorded (n + 1) (ask.turn l m).2 L' (p.extend (l.heard ask m).1 L')
  | reset {n : Nat} {l : Tracked α} {L : Multiset Lease} {p : Period} (before : Recorded n l L p) :
      Recorded (n + 1) l.resetStats L (.fresh L)
  | others {n : Nat} {l : Tracked α} {L : Multiset Lease} {p : Period} (inner : α)
      (before : Recorded n l L p) : Recorded n { l with inner := inner } L p

theorem Recorded.books (run : Recorded n l L p) : Books n l.stats L p := by
  induction run with
  | start inner onAcquire onRelease => exact Books.fresh (s := {}) rfl (by decide)
  | call ask m before trades fits ih =>
    obtain ⟨s', noted, books⟩ := ih.call (t := (Tracked.heard _ ask m).1) trades fits
    rw [turn_eq, told_of_ok noted]
    exact books
  | reset before ih =>
    exact .fresh ih.honest.live (ih.honest.live ▸ ih.live_lt)
  | others inner before ih => exact ih

/-- **Books are exact.** In every history the live bytes are those of the leases, the peak is the
most that they have been since the last reset, and each counter has counted its calls since then.
After fewer calls than there are words, each number is a word. Nothing in the books stops a call:
it ends as the call below did. -/
theorem recorded_exact (run : Recorded n l L p) (few : n < Word.bound) :
    l.stats.Exact L p ∧ l.stats.Words ∧
      ∀ ask m L', Ask.Trades ask (l.heard ask m).1.outcome L L' → total L' < Word.bound →
        (ask.turn l m).1.outcome = (l.heard ask m).1.outcome := by
  have books := run.books
  refine ⟨books.honest, books.words few, fun ask m L' trades fits => ?_⟩
  obtain ⟨s', noted, -⟩ := books.call (t := (l.heard ask m).1) trades fits
  rw [turn_eq, told_of_ok noted]

/-- A block is older than the books. A younger one is cut short and released, a third is refused. -/
theorem recorded_exact_reset :
    ∃ (l : Tracked Arena) (old : Lease) (p : Period), Recorded 6 l {old} p ∧
      old.layout.size = 64 ∧ p.carried = {old} ∧
      l.stats = ⟨1, 1, 1, 1, 64, 96⟩ ∧ l.stats.Exact {old} p ∧ l.stats.Words := by
  let wide : Layout := ⟨64, 8, by decide, by decide⟩
  let slim : Layout := ⟨32, 8, by decide, by decide⟩
  let less : Layout := ⟨24, 8, by decide, by decide⟩
  let old : Lease := ⟨⟨4096, 64⟩, wide⟩
  let young : Lease := ⟨⟨4160, 32⟩, slim⟩
  let short : Lease := ⟨⟨4160, 24⟩, less⟩
  let l₀ : Tracked Arena :=
    ⟨{ next := 4096, limit := 8192, refuses := (· == 2) }, {}, .fresh, .stale⟩
  let l₁ : Tracked Arena := ((Ask.acquire wide).turn l₀ .zero).2
  let l₂ : Tracked Arena := ((Ask.acquire slim).turn l₁.resetStats .zero).2
  let l₃ : Tracked Arena := ((Ask.resize 4160 slim less).turn l₂ .zero).2
  let l₄ : Tracked Arena := ((Ask.acquire slim).turn l₃ .zero).2
  let l₅ : Tracked Arena := ((Ask.release 4160 less).turn l₄ .zero).2
  have first : (l₀.heard (.acquire wide) .zero).1.outcome = .ok (some old.block) := by
    decide +kernel
  have second : (l₁.resetStats.heard (.acquire slim) .zero).1.outcome =
      .ok (some young.block) := by
    dsimp only [l₁]
    decide +kernel
  have resized : (l₂.heard (.resize 4160 slim less) .zero).1.outcome =
      .ok (some short.block) := by
    dsimp only [l₂, l₁]
    decide +kernel
  have refused : (l₃.heard (.acquire slim) .zero).1.outcome =
      .error (.fault slim.outOfMemory) := by
    dsimp only [l₃, l₂, l₁]
    decide +kernel
  have released : (l₄.heard (.release 4160 less) .zero).1.outcome = .ok none := by
    dsimp only [l₄, l₃, l₂, l₁]
    decide +kernel
  have run : Recorded 1 l₁ {old} _ :=
    (Recorded.start _ _ _).call (.acquire wide) .zero (by rw [first]; exact .acquired) (by decide)
  have run : Recorded 3 l₂ (young ::ₘ {old}) _ :=
    run.reset.call (.acquire slim) .zero (by rw [second]; exact .acquired) (by decide)
  have run : Recorded 4 l₃ (short ::ₘ {old}) _ :=
    run.call (.resize 4160 slim less) .zero
      (by rw [resized]; exact Ask.Trades.resized (l := young)) (by decide)
  have run : Recorded 5 l₄ (short ::ₘ {old}) _ :=
    run.call (.acquire slim) .zero (by rw [refused]; exact .refused) (by decide)
  have run : Recorded 6 l₅ {old} _ :=
    run.call (.release 4160 less) .zero
      (by rw [released]; exact Ask.Trades.released (l := short)) (by decide)
  obtain ⟨exact, words, -⟩ := recorded_exact run (by decide)
  refine ⟨l₅, old, _, run, rfl, rfl, ?_, exact, words⟩
  dsimp only [l₅, l₄, l₃, l₂, l₁]
  decide +kernel

/-- Outstanding blocks are counted from the last reset on: of the leases that are out, the books
see as many as there are more than were carried over. They see all leases when none was carried
over, and a leak when there are more. After fewer calls than there are words, all counts that this
is read off are words. -/
theorem recorded_outstanding (run : Recorded n l L p) :
    l.stats.outstanding = L.card - p.carried.card ∧
      (l.stats.hasLeaks = true ↔ p.carried.card < L.card) ∧
      (l.stats.outstanding = L.card ↔ p.carried = 0 ∨ L = 0) ∧
      (n < Word.bound → l.stats.Words) := by
  have books := run.books
  have outstanding : l.stats.outstanding = L.card - p.carried.card := by
    have balance := books.balance
    unfold AllocStats.outstanding
    rw [books.honest.acquires, books.honest.releases]
    omega
  refine ⟨outstanding, ?_, ?_, books.words⟩
  · unfold AllocStats.hasLeaks
    rw [decide_eq_true_iff, outstanding]
    omega
  · rw [outstanding, ← Multiset.card_eq_zero, ← Multiset.card_eq_zero]
    omega

/-- A block that was carried over a reset, and one that was not. -/
theorem recorded_outstanding_two :
    ∃ (l : Tracked Arena) (old young : Lease) (p : Period), Recorded 3 l {young, old} p ∧
      p.carried = {old} ∧ l.stats.outstanding = 1 ∧ l.stats.hasLeaks = true := by
  let layout : Layout := ⟨64, 8, by decide, by decide⟩
  let l₀ : Tracked Arena := ⟨{ next := 4096, limit := 8192 }, {}, none, none⟩
  let l₁ : Tracked Arena := ((Ask.acquire layout).turn l₀ .zero).2
  have first : (l₀.heard (.acquire layout) .zero).1.outcome = .ok (some ⟨4096, 64⟩) := by
    decide +kernel
  have second : (l₁.resetStats.heard (.acquire layout) .zero).1.outcome =
      .ok (some ⟨4160, 64⟩) := by
    dsimp only [l₁]
    decide +kernel
  have run : Recorded 1 l₁ {⟨⟨4096, 64⟩, layout⟩} _ :=
    (Recorded.start _ _ _).call (.acquire layout) .zero (by rw [first]; exact .acquired) (by decide)
  have run : Recorded 3 _ {⟨⟨4160, 64⟩, layout⟩, ⟨⟨4096, 64⟩, layout⟩} _ :=
    run.reset.call (.acquire layout) .zero (by rw [second]; exact .acquired) (by decide)
  obtain ⟨outstanding, leaks, -⟩ := recorded_outstanding run
  exact ⟨_, _, _, _, run, rfl, outstanding, leaks.mpr (by decide)⟩

/-- A block is out, and the books know of none: it was acquired before they were reset. -/
theorem outstanding_forgets :
    ∃ (l : Tracked Arena) (lease : Lease) (p : Period), Recorded 2 l {lease} p ∧
      lease.Fits 0 ∧ l.stats.liveBytes = 64 ∧
      l.stats.outstanding = 0 ∧ l.stats.hasLeaks = false := by
  let layout : Layout := ⟨64, 8, by decide, by decide⟩
  let l₀ : Tracked Arena := ⟨{ next := 4096, limit := 8192 }, {}, none, none⟩
  have served : (l₀.heard (.acquire layout) .zero).1.outcome = .ok (some ⟨4096, 64⟩) := by
    decide +kernel
  have run : Recorded 1 ((Ask.acquire layout).turn l₀ .zero).2 {⟨⟨4096, 64⟩, layout⟩} _ :=
    (Recorded.start _ _ _).call (.acquire layout) .zero (by rw [served]; exact .acquired)
      (by decide)
  have fits : Lease.Fits ⟨⟨4096, 64⟩, layout⟩ 0 :=
    .alone ⟨by decide, by decide⟩ (by decide) (by decide)
  exact ⟨_, _, _, run.reset, fits, by decide +kernel, rfl, rfl⟩

end Tracked

end LayeredMemory
