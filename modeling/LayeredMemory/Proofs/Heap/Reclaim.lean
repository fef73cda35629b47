import LayeredMemory.Proofs.Heap.Session
import LayeredMemory.Proofs.Heap.Splice

/-!
# Reclaiming — which pointers a heap takes back

`tryFree` takes any address over any memory, of which registering has only laid out the segments
(`addPool_laidOut`). It looks at one segment, the one around the address, and what it finds there
decides: nothing is assumed about the rest of memory, and nothing of it changes.

* `checkLive_cases`: the check of an address, by what memory spells around it.
* `coalesce_spelled`, `release_spelled`: a walk that passes is all that joining needs. It passes
  again afterwards, and meets the same blocks but for the one that was vacated and fused.
* `tryFree_exact`: so an address is taken back exactly if it is the payload of an allocated block in
  a segment whose walk passes, and is otherwise refused for one of two reasons.
-/

namespace LayeredMemory

namespace Action

variable {σ α : Type} {s s' : Store σ} {x : Action σ α} {stop : Fault → Stop}

/-- Runs an action whose faults are stops. -/
def insist (x : Action σ α) (stop : Fault → Stop) : Action σ α := do
  match ← Action.attempt x with
  | .ok a => return a
  | .error f => Action.stop (stop f)

theorem insist_of_ok {a : α} (run : x s = .ok a s') : x.insist stop s = .ok a s' :=
  bind_of_ok (attempt_of_ok run)

theorem insist_of_fault {f : Fault} (run : x s = .error (.fault f) s') :
    x.insist stop s = .error (.stop (stop f)) s' :=
  bind_of_ok (attempt_of_fault run)

end Action

namespace Heap

variable {γ : Type} {h : Heap γ} {m : Memory} {s t : Segment} {b : BlockInfo}
  {bs xs ys : List BlockInfo} {ptr : Nat}

/-! ### Taking a block back -/

/-- **Joining needs a walk that passes**, and no more. -/
theorem coalesce_spelled (spelled : s.Spelled m (xs ++ b :: ys)) (live : b.allocated = true)
    (legal : s.Legal) : ∃ m' c,
      coalesce b.addr ⟨h, m⟩ = .ok () ⟨{ h with cursor := some c }, m'⟩ ∧
        s.Spelled m' (fuse (xs ++ ⟨b.addr, b.size, false⟩ :: ys)) ∧
        m.ChangedWithin m' s.first (s.stop + 8) := by
  have stop_lt := legal.stop_lt
  unfold Segment.Spelled at spelled ⊢
  have addr := spelled.drop.head_addr
  obtain ⟨here, pos, -, after⟩ := Spells.cons_iff.mp spelled.drop
  rw [live, ← addr] at after
  have size : Tag.size (m.readWord b.addr) = b.size := by
    rw [addr, here]
    rfl
  obtain ⟨rest, n, r, fused, n_eq, after, apart⟩ := after.behind
  obtain ⟨front, old, start, k, starts, rfl, start_eq, flag, joined⟩ :=
    spelled.before (Nat.lt_of_le_of_lt (Nat.le_add_right _ 8) stop_lt)
  have fits := after.total_eq
  have meets := starts.meets
  obtain ⟨m', run, row, head, changed⟩ :=
    coalesce_run (h := h) size n_eq starts pos (by omega)
  -- The new block, with what is behind it, in place of what is gone.
  obtain ⟨-, tagged, -⟩ := row.uncons
  have next := after.reprev changed head fun _ => apart
  have stop : start + (b.size + n + k) = b.addr + b.size + n := by omega
  have middle : Spells m' s.stop true start (⟨start, b.size + n + k, false⟩ :: rest) :=
    Spells.cons_iff.mpr ⟨(Tiled.blockAt_eq tagged).symm, tagged.pos, tagged.checked, stop ▸ next⟩
  rw [start_eq] at middle
  rw [← flag] at middle
  rw [List.append_assoc] at spelled
  have whole := spelled.graft (fun x lo hi => changed x (by omega)) middle
  rw [← start_eq] at whole
  refine ⟨m', start, run, ?_, changed.mono (by omega) (by omega)⟩
  have same : fuse ((front ++ old) ++ ⟨b.addr, b.size, false⟩ :: ys) =
      front ++ ⟨start, b.size + n + k, false⟩ :: rest := by
    have sum : k + (b.size + n) = b.size + n + k := by omega
    have here := fused b.addr b.size
    unfold fuse at here ⊢
    rw [List.foldr_append, here, joined, sum, foldr_join whole.isChain]
  rw [same]
  exact whole

/-- **Taking a block back needs a walk that passes**, and no more. -/
theorem release_spelled (spelled : s.Spelled m bs) (hb : b ∈ bs) (live : b.allocated = true)
    (legal : s.Legal) : ∃ m' c,
      release (payload b.addr) ⟨h, m⟩ = .ok () ⟨{ h with cursor := some c }, m'⟩ ∧
        s.Spelled m' (fuse (vacate (payload b.addr) bs)) ∧
        m.ChangedWithin m' s.first (s.stop + 8) := by
  obtain ⟨xs, ys, rfl⟩ := List.append_of_mem hb
  obtain ⟨lo, hi, pos⟩ := Spells.mem_bounds spelled hb
  have block : ofPayload (payload b.addr) = b.addr := Nat.add_sub_cancel ..
  rw [Spells.vacate_eq spelled]
  unfold release
  rw [Action.part_bind, block]
  by_cases pattern : h.config.deallocPattern.isSome = true
  · have size : Tag.size (m.readWord b.addr) = b.size :=
      congrArg BlockInfo.size (spelled.decoded b (List.mem_append_left _ hb))
    have room : usableSize m (payload b.addr) = .ok (b.size - 8) := by
      rw [usableSize, block, size]
      exact Word.sub_eq_ok_iff.mpr ⟨by rw [Word.bytes_eq]; omega, rfl⟩
    obtain ⟨m₁, fill, filled⟩ :=
      Pattern.fill_run h.config.deallocPattern (payload b.addr) (b.size - 8) h m
    rw [payload, Word.bytes_eq] at filled
    obtain ⟨m', c, run, fused, changed⟩ := coalesce_spelled (h := h)
      (Spells.write spelled live (filled.mono (Nat.le_refl _) (by omega))) live legal
    refine ⟨m', c, ?_, fused, (filled.mono (by omega) (by omega)).trans changed⟩
    dsimp only
    rw [if_pos pattern, Action.memory_bind, Action.lift_ok_bind room, Action.bind_of_ok fill, run]
  · dsimp only
    rw [if_neg pattern]
    exact coalesce_spelled spelled live legal

/-! ### Which addresses pass -/

/-- The address is a multiple of a granule, strictly between the first header of the segment and its
epilogue. -/
structure Placed (h : Heap γ) (ptr : Nat) (s : Segment) : Prop where
  mem : s ∈ h.segments
  aligned : granule ∣ ptr
  lo : s.first < ptr
  hi : ptr < s.stop

/-- The walk of the segment passes, and meets an allocated block with this payload. -/
structure Vouches (m : Memory) (s : Segment) (ptr : Nat) (bs : List BlockInfo) (b : BlockInfo) :
    Prop where
  walked : segmentBlocks m s = .ok bs
  mem : b ∈ bs
  live : b.allocated = true
  here : payload b.addr = ptr

/-- An address is inside one segment at most. -/
theorem Placed.unique (laid : h.LaidOut) (hs : h.Placed ptr s) (ht : h.Placed ptr t) : s = t := by
  have inside {s : Segment} (placed : h.Placed ptr s) : ptr ∈ s.extent :=
    (laid.legal s placed.mem).mem_extent (Nat.le_of_lt placed.lo)
      (Nat.lt_of_lt_of_le placed.hi (Nat.le_add_right _ 8))
  exact laid.eq_of_mem_extent hs.mem ht.mem (inside hs) (inside ht)

/-- The search for a segment finds the one around an address. -/
theorem find?_segment (h : Heap γ) (aligned : granule ∣ ptr) :
    (∃ s, (h.segments.find? fun s => s.first < ptr && ptr < s.stop) = some s ∧ h.Placed ptr s) ∨
    (h.segments.find? fun s => s.first < ptr && ptr < s.stop) = none ∧ ∀ s, ¬h.Placed ptr s := by
  cases found : h.segments.find? fun s => s.first < ptr && ptr < s.stop with
  | none =>
    refine .inr ⟨rfl, fun s placed => ?_⟩
    have off := List.find?_eq_none.mp found s placed.mem
    rw [Bool.and_eq_true, decide_eq_true_eq, decide_eq_true_eq] at off
    exact off ⟨placed.lo, placed.hi⟩
  | some s =>
    have inside := List.find?_some found
    rw [Bool.and_eq_true, decide_eq_true_eq, decide_eq_true_eq] at inside
    exact .inl ⟨s, rfl, List.mem_of_find?_eq_some found, aligned, inside.1, inside.2⟩

/-- The search for a block finds an allocated one exactly if the address is vouched for. -/
theorem find?_block (walked : segmentBlocks m s = .ok bs) (ptr : Nat) :
    (∃ b, (bs.find? fun b => payload b.addr == ptr) = some b ∧ Vouches m s ptr bs b) ∨
    (∀ b, (bs.find? fun b => payload b.addr == ptr) = some b → ¬b.allocated = true) ∧
      ∀ b, ¬Vouches m s ptr bs b := by
  cases block : bs.find? fun b => payload b.addr == ptr with
  | none =>
    refine .inr ⟨nofun, fun b vouches => ?_⟩
    exact List.find?_eq_none.mp block b vouches.mem (beq_iff_eq.mpr vouches.here)
  | some b =>
    have mem := List.mem_of_find?_eq_some block
    have matched := List.find?_some block
    have here : payload b.addr = ptr := beq_iff_eq.mp matched
    by_cases live : b.allocated = true
    · exact .inl ⟨b, rfl, walked, mem, live, here⟩
    · refine .inr ⟨?_, fun d vouches => live ?_⟩
      · rintro _ ⟨⟩
        exact live
      -- No other block has this payload.
      · rw [Spells.eq_of_addr (segmentBlocks_eq_ok_iff.mp walked) mem vouches.mem
          (Nat.add_right_cancel (here.trans vouches.here.symm))]
        exact vouches.live

/-- **The check of an address**, by what memory spells around it. -/
theorem checkLive_cases (laid : h.LaidOut) (m : Memory) (ptr : Nat) :
    (∃ s bs b, h.Placed ptr s ∧ Vouches m s ptr bs b ∧ h.checkLive m ptr = .ok ()) ∨
    (∃ s d, h.Placed ptr s ∧ segmentBlocks m s = .error d ∧
      h.checkLive m ptr = .error d.fault) ∨
    (∀ s, h.Placed ptr s → ∃ bs, segmentBlocks m s = .ok bs ∧ ∀ b, ¬Vouches m s ptr bs b) ∧
      ∃ reason, h.checkLive m ptr = .error (.invalidFree ptr reason) := by
  unfold checkLive
  by_cases aligned : Align.isMultiple ptr granule = true
  swap
  · rw [if_pos (Bool.eq_false_iff.mpr aligned)]
    refine .inr (.inr ⟨fun s placed => absurd ?_ aligned, _, rfl⟩)
    exact (Align.isMultiple_iff granule_isPowerOfTwo).mpr placed.aligned
  rw [if_neg (by rw [aligned]; nofun)]
  have aligned := (Align.isMultiple_iff granule_isPowerOfTwo).mp aligned
  rcases find?_segment h aligned with ⟨s, found, placed⟩ | ⟨found, none⟩
  swap
  · rw [found]
    exact .inr (.inr ⟨fun s placed => absurd placed (none s), _, rfl⟩)
  rw [found]
  dsimp only
  cases walked : segmentBlocks m s with
  | error d => exact .inr (.inl ⟨s, d, placed, walked, rfl⟩)
  | ok bs =>
    dsimp only
    rcases find?_block walked ptr with ⟨b, block, vouches⟩ | ⟨dead, none⟩
    · rw [block]
      exact .inl ⟨s, bs, b, placed, vouches, if_pos vouches.live⟩
    · refine .inr (.inr ⟨fun t placed' => ⟨bs, placed.unique laid placed' ▸ ⟨walked, none⟩⟩, ?_⟩)
      cases block : bs.find? fun b => payload b.addr == ptr with
      | none => exact ⟨_, rfl⟩
      | some b => exact ⟨_, if_neg (dead b block)⟩

/-! ### Taking addresses back -/

/-- Before and after the address `ptr` was taken back, the payload of one of the blocks `bs` of the
segment `s`: the walk of the segment passes again and meets the same blocks, with the one vacated
and fused; of the heap only the cursor is new, and of memory only bytes of the segment. -/
structure Reclaims (h : Heap γ) (m : Memory) (ptr : Nat) (s : Segment) (bs : List BlockInfo)
    (s' : Store (Heap γ)) : Prop where
  walked : segmentBlocks s'.memory s = .ok (fuse (vacate ptr bs))
  part : s'.part = { h with cursor := s'.part.cursor }
  inside : m.ChangedWithin s'.memory s.first (s.stop + 8)
  others : ∀ t ∈ h.segments, t ≠ s → ∀ x ∈ t.extent, s'.memory.read x = m.read x

/-- What is vouched for is taken back. -/
theorem Vouches.release (vouches : Vouches m s ptr bs b) (laid : h.LaidOut)
    (placed : h.Placed ptr s) :
    ∃ s', release ptr ⟨h, m⟩ = .ok () s' ∧ Reclaims h m ptr s bs s' := by
  have legal := laid.legal s placed.mem
  obtain ⟨walked, mem, live, rfl⟩ := vouches
  obtain ⟨m', c, run, spelled, changed⟩ :=
    release_spelled (h := h) (segmentBlocks_eq_ok_iff.mp walked) mem live legal
  refine ⟨_, run, segmentBlocks_eq_ok_iff.mpr spelled, rfl, changed, fun t ht ne x hx => ?_⟩
  refine changed x ?_
  by_contra inside
  exact ne (laid.eq_of_mem_extent ht placed.mem hx (legal.mem_extent (by omega) (by omega)))

/-- An address is taken back, or refused for one of two reasons with nothing changed. -/
theorem tryFree_outcome (laid : h.LaidOut) (m : Memory) (ptr : Nat) :
    Action.Meets (tryFree ptr) ⟨h, m⟩
      (fun _ s' => ∃ s bs b, h.Placed ptr s ∧ Vouches m s ptr bs b ∧ Reclaims h m ptr s bs s')
      (fun f s' => s' = ⟨h, m⟩ ∧ (∀ s bs b, h.Placed ptr s → ¬Vouches m s ptr bs b) ∧
        ((∃ s d, h.Placed ptr s ∧ segmentBlocks m s = .error d ∧ f = d.fault) ∨
          (∀ s, h.Placed ptr s → ∃ bs, segmentBlocks m s = .ok bs) ∧
            ∃ reason, f = .invalidFree ptr reason)) := by
  rcases checkLive_cases laid m ptr with ⟨s, bs, b, placed, vouches, check⟩ |
    ⟨s, d, placed, damaged, check⟩ | ⟨none, reason, check⟩
  · obtain ⟨s', run, reclaims⟩ := vouches.release laid placed
    exact .of_ok ((tryFree_of_ok check).trans run) ⟨s, bs, b, placed, vouches, reclaims⟩
  · refine .of_fault (tryFree_of_error check) ⟨rfl, fun t bs b placed' vouches => ?_,
      .inl ⟨s, d, placed, damaged, rfl⟩⟩
    have walked := vouches.walked
    rw [placed'.unique laid placed, damaged] at walked
    cases walked
  · refine .of_fault (tryFree_of_error check) ⟨rfl, fun t bs b placed vouches => ?_,
      .inr ⟨fun s placed => ?_, reason, rfl⟩⟩
    · obtain ⟨bs', walked, off⟩ := none t placed
      obtain rfl := Except.ok.inj (walked.symm.trans vouches.walked)
      exact off b vouches
    · obtain ⟨bs, walked, -⟩ := none s placed
      exact ⟨bs, walked⟩

/-- A heap that verifies frees insists on them. -/
theorem free_eq_insist (laid : h.LaidOut) (verifies : h.config.verifyFrees = true) :
    free ptr ⟨h, m⟩ = (tryFree ptr).insist Stop.heapFree ⟨h, m⟩ := by
  unfold free
  rw [Action.part_bind, Action.memory_bind, if_pos verifies]
  rcases checkLive_cases laid m ptr with ⟨s, bs, b, placed, vouches, check⟩ |
    ⟨_, d, -, -, check⟩ | ⟨-, reason, check⟩
  · obtain ⟨s', run, -⟩ := vouches.release laid placed
    rw [check, Action.insist_of_ok ((tryFree_of_ok check).trans run)]
    exact run
  · rw [check, Action.insist_of_fault (tryFree_of_error check)]
    rfl
  · rw [check, Action.insist_of_fault (tryFree_of_error check)]
    rfl

variable [GrowthSource γ]

/-- What a heap takes back after a run are the payloads that its clients hold, and no other address
is damage. -/
theorem Reachable.tryFree_iff {C : GrowthContract γ} {live : List Held}
    (reachable : Reachable C ⟨h, m, live⟩) :
    ((∃ s', tryFree ptr ⟨h, m⟩ = .ok () s') ↔ ∃ b ∈ live, b.ptr = ptr) ∧
      ∀ s, h.Placed ptr s → ∃ bs, segmentBlocks m s = .ok bs := by
  have lends := reachable.sound.alone.lends
  obtain ⟨parts, o, rooms⟩ := id lends
  refine ⟨⟨fun ⟨s', run⟩ => ?_, ?_⟩, fun s placed => ?_⟩
  · cases check : h.checkLive m ptr with
    | error f =>
      rw [tryFree_of_error check] at run
      cases run
    | ok u =>
      obtain ⟨e, he, rfl⟩ := o.exists_of_checkLive check
      rw [rooms] at he
      obtain ⟨b, hb, rfl⟩ := List.mem_map.mp (Multiset.mem_coe.mp he)
      exact ⟨b, hb, rfl⟩
  · rintro ⟨b, hb, rfl⟩
    obtain ⟨L, split⟩ := Multiset.exists_cons_of_mem (Session.mem_rooms (σ := ⟨h, m, live⟩) hb)
    obtain ⟨h', m', run, -⟩ := tryFree_run (split ▸ lends)
    exact ⟨_, run⟩
  · obtain ⟨t, ht, rfl⟩ := List.mem_map.mp (o.segments ▸ placed.mem : s ∈ parts.map Prod.fst)
    exact ⟨t.2, segmentBlocks_eq (o.tiled t ht)⟩

/-- **Checked frees are exact**, over any memory. An address is taken back exactly if it is a
multiple of a granule strictly inside a segment whose walk passes and meets an allocated block with
this payload. Then the walk passes again and meets the same blocks, except that this one is merged
with its free neighbours, and nothing else changes, though other segments may be damaged. Every
other address is refused with nothing changed: as corruption if it is inside a segment whose walk
fails, and as an invalid free if not. After a run what is taken back is what clients hold, and
nothing is corruption. A heap that verifies frees does the same with a stop for a fault. -/
theorem tryFree_exact (laid : h.LaidOut) (m : Memory) (ptr : Nat) :
    ((∃ s', tryFree ptr ⟨h, m⟩ = .ok () s') ↔
        ∃ s bs b, h.Placed ptr s ∧ Vouches m s ptr bs b) ∧
      (∀ s bs b s', h.Placed ptr s → Vouches m s ptr bs b →
        tryFree ptr ⟨h, m⟩ = .ok () s' → Reclaims h m ptr s bs s') ∧
      ((¬∃ s', tryFree ptr ⟨h, m⟩ = .ok () s') → ∃ f,
        tryFree ptr ⟨h, m⟩ = .error (.fault f) ⟨h, m⟩ ∧
        (∀ s, h.Placed ptr s → (¬∃ bs, segmentBlocks m s = .ok bs) →
          ∃ x details, s.first ≤ x ∧ x ≤ s.stop ∧ f = .corruptHeap "dynmem" x details) ∧
        ((∀ s, h.Placed ptr s → ∃ bs, segmentBlocks m s = .ok bs) →
          ∃ reason, f = .invalidFree ptr reason)) ∧
      (h.config.verifyFrees = true →
        free ptr ⟨h, m⟩ = (tryFree ptr).insist Stop.heapFree ⟨h, m⟩) ∧
      ∀ (C : GrowthContract γ) (live : List Held), Reachable C ⟨h, m, live⟩ →
        ((∃ s', tryFree ptr ⟨h, m⟩ = .ok () s') ↔ ∃ b ∈ live, b.ptr = ptr) ∧
        ∀ f s', tryFree ptr ⟨h, m⟩ = .error (.fault f) s' →
          ∃ reason, f = .invalidFree ptr reason := by
  have outcome := tryFree_outcome laid m ptr
  refine ⟨⟨fun ⟨s', run⟩ => ?_, fun ⟨s, bs, b, placed, vouches⟩ => ?_⟩,
    fun s bs b s' placed vouches run => ?_, fun refused => ?_, free_eq_insist laid,
    fun C live reachable => ⟨reachable.tryFree_iff.1, fun f s' run => ?_⟩⟩
  · obtain ⟨s, bs, b, placed, vouches, -⟩ := outcome.answer run
    exact ⟨s, bs, b, placed, vouches⟩
  · rcases outcome.cases with ⟨_, s', run, -⟩ | ⟨_, _, -, -, none, -⟩
    · exact ⟨s', run⟩
    · exact absurd vouches (none s bs b placed)
  · obtain ⟨t, bs', d, placed', vouches', reclaims⟩ := outcome.answer run
    obtain rfl := placed.unique laid placed'
    obtain rfl := Except.ok.inj (vouches.walked.symm.trans vouches'.walked)
    exact reclaims
  · rcases outcome.cases with ⟨_, s', run, -⟩ | ⟨f, _, run, rfl, -, why⟩
    · exact absurd ⟨s', run⟩ refused
    · refine ⟨f, run, fun s placed damaged => ?_, fun walked => ?_⟩
      · rcases why with ⟨t, d, placed', failed, rfl⟩ | ⟨walked, -⟩
        · obtain rfl := placed.unique laid placed'
          obtain ⟨x, at_tag, lo, hi⟩ := segmentBlocks_error failed
          exact ⟨x, d.details, lo, hi, at_tag.addr_eq ▸ rfl⟩
        · exact absurd (walked s placed) damaged
      · rcases why with ⟨t, d, placed, failed, -⟩ | ⟨-, reason⟩
        · obtain ⟨bs, passed⟩ := walked t placed
          cases failed.symm.trans passed
        · exact reason
  · rcases (outcome.refusal run).2.2 with ⟨s, d, placed, failed, -⟩ | ⟨-, reason⟩
    · obtain ⟨bs, walked⟩ := reachable.tryFree_iff.2 s placed
      cases failed.symm.trans walked
    · exact reason

/-- A free beside a segment that was never laid out. -/
theorem tryFree_exact_beside_damage : ∃ (h : Heap NoGrowth) (m : Memory) (s : Segment), h.LaidOut ∧
    segmentBlocks m s = .ok [⟨4104, 32, true⟩, ⟨4136, 32, false⟩] ∧
    (∃ s', tryFree 4112 ⟨h, m⟩ = .ok () s' ∧
      segmentBlocks s'.memory s = .ok [⟨4104, 64, false⟩]) ∧
    ∃ x details, tryFree 8208 ⟨h, m⟩ =
      .error (.fault (.corruptHeap "dynmem" x details)) ⟨h, m⟩ := by
  let s : Segment := ⟨⟨4096, 80⟩, 4104, 64⟩
  let t : Segment := ⟨⟨8192, 64⟩, 8200, 48⟩
  let h : Heap NoGrowth := { segments := [s, t], cursor := some 4104, growth := {} }
  let m := (((Memory.zero.writeWord 4104 (Tag.make 32 true true)).writeWord 4136
    (Tag.make 32 false true)).writeWord 4160 32).writeWord 4168 (Tag.make 0 true false)
  have legal : s.Legal :=
    ⟨⟨by decide, by decide⟩, by decide, by decide, by decide, by decide, by decide⟩
  have legal' : t.Legal :=
    ⟨⟨by decide, by decide⟩, by decide, by decide, by decide, by decide, by decide⟩
  have laid : h.LaidOut :=
    ⟨by simp [h, legal, legal'], List.pairwise_pair.mpr (.inl (by decide))⟩
  have good : (segmentBlocks m s).toOption = some [⟨4104, 32, true⟩, ⟨4136, 32, false⟩] := by
    decide +kernel
  have bad : (segmentBlocks m t).toOption = none := by decide +kernel
  have walked : segmentBlocks m s = .ok [⟨4104, 32, true⟩, ⟨4136, 32, false⟩] := by
    cases run : segmentBlocks m s with
    | error d => rw [run] at good; cases good
    | ok bs =>
      rw [run] at good
      exact congrArg Except.ok (Option.some.inj good)
  have failed : ¬∃ bs, segmentBlocks m t = .ok bs := by
    rintro ⟨bs, run⟩
    rw [run] at bad
    cases bad
  have placed : h.Placed 4112 s := ⟨by simp [h], by decide, by decide, by decide⟩
  have placed' : h.Placed 8208 t := ⟨by simp [h], by decide, by decide, by decide⟩
  have vouches : Vouches m s 4112 [⟨4104, 32, true⟩, ⟨4136, 32, false⟩] ⟨4104, 32, true⟩ :=
    ⟨walked, List.mem_cons_self, rfl, rfl⟩
  refine ⟨h, m, s, laid, walked, ?_, ?_⟩
  · obtain ⟨taken, reclaims, -⟩ := tryFree_exact laid m 4112
    obtain ⟨s', run⟩ := taken.mpr ⟨s, _, _, placed, vouches⟩
    exact ⟨s', run, (reclaims s _ _ s' placed vouches run).walked⟩
  · obtain ⟨taken, -, refused, -⟩ := tryFree_exact laid m 8208
    have off : ¬∃ s', tryFree 8208 ⟨h, m⟩ = .ok () s' := by
      intro ok
      obtain ⟨u, bs, b, placed, vouches⟩ := taken.mp ok
      obtain rfl := placed.unique laid placed'
      exact failed ⟨bs, vouches.walked⟩
    obtain ⟨f, run, corrupt, -⟩ := refused off
    obtain ⟨x, details, -, -, rfl⟩ := corrupt t placed' failed
    exact ⟨x, details, run⟩

end Heap

end LayeredMemory
