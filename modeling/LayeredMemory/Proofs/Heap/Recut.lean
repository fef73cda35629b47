import LayeredMemory.Proofs.Heap.Fit
import LayeredMemory.Proofs.Heap.Lending

/-!
# Heaps — cutting and joining blocks

The operations that change the blocks of one segment. Each replaces one row of blocks by another
(`InOrder.recut`), so what is left to prove of each is that its writes make the new row. Each spec
also says where the cursor goes, from tags alone.

* `place_spec`: a free block becomes an allocated one, and a free rest if there is room for one.
* `coalesce_spec`, `release_spec`: an allocated block and its free neighbours become one free block.
* `shrinkTo_spec`, `extendTo_spec`: an allocated block gives its end back, or takes from the free
  block behind it. What it holds stays.
-/

namespace LayeredMemory.Heap

variable {γ σ : Type} {h : Heap γ} {m : Memory} {L : Multiset Extent} {front back : List Part}
  {s : Segment} {xs ys : List BlockInfo} {b : BlockInfo} {a need total : Nat} {p q : Bool}

theorem setCursor_bind {β : Type} {c : Nat} (f : Unit → Action (Heap γ) β) :
    (setCursor c >>= f) ⟨h, m⟩ = f () ⟨{ h with cursor := some c }, m⟩ := rfl

/-! ### Tags of new rows -/

/-- An allocated block at the low end of some bytes, and a free one of the rest. -/
theorem carve_run (g : σ) (aligned : 16 ∣ need) (pos : 16 ≤ need) (whole : 16 ∣ total)
    (room : need + 16 ≤ total) (fits : a + total < Word.bound) :
    ∃ m', Tag.writeFree (Word.after a need) (total - need) true
        ⟨g, m.writeWord a (Tag.make need true q)⟩ = .ok () ⟨g, m'⟩ ∧
      Row m' q a [⟨a, need, true⟩, ⟨a + need, total - need, false⟩] false (a + total) ∧
      m.ChangedWithin m' a (a + total) ∧ ∀ x, a + 8 ≤ x → x < a + need → m'.read x = m.read x := by
  have rest : Word.after a need = a + need := Word.after_eq (by omega)
  have first := m.changedWithin_writeWord a (Tag.make need true q)
  obtain ⟨m', run, header, footer, changed⟩ :=
    Tag.writeFree_run g (m.writeWord a (Tag.make need true q)) (a + need) (total - need) true
      (by omega) (by omega) (by omega)
  have head : m'.readWord a = Tag.make need true q := by
    rw [changed.readWord (.inl (by omega)),
      Memory.readWord_writeWord (Tag.make_lt aligned (by omega))]
  have behind := Row.single (.of_free header footer (by omega) (by omega))
  have meets : a + need + (total - need) = a + total := by omega
  rw [meets] at behind
  refine ⟨m', rest ▸ run, .cons (.of_allocated head aligned pos) behind, ?_, ?_⟩
  · exact (first.mono (Nat.le_refl a) (by omega)).trans (changed.mono (by omega) (by omega))
  · intro x lo hi
    rw [changed x (by omega), first x (by omega)]

/-- An allocated block, of which the header behind it hears. -/
theorem fill_run (g : σ) (aligned : 16 ∣ need) (pos : 16 ≤ need) (fits : a + need < Word.bound) :
    ∃ m', Tag.setPrev (Word.after a need) true ⟨g, m.writeWord a (Tag.make need true q)⟩ =
        .ok () ⟨g, m'⟩ ∧
      Row m' q a [⟨a, need, true⟩] true (a + need) ∧
      m'.readWord (a + need) = Tag.withPrev (m.readWord (a + need)) true ∧
      m.ChangedWithin m' a (a + need + 8) ∧
      ∀ x, a + 8 ≤ x → x < a + need → m'.read x = m.read x := by
  have rest : Word.after a need = a + need := Word.after_eq fits
  have first := m.changedWithin_writeWord a (Tag.make need true q)
  obtain ⟨m', run, header, changed⟩ :=
    Tag.setPrev_word g (m.writeWord a (Tag.make need true q)) (a + need) true
  have head : m'.readWord a = Tag.make need true q := by
    rw [changed.readWord (.inl (by omega)),
      Memory.readWord_writeWord (Tag.make_lt aligned (by omega))]
  refine ⟨m', rest ▸ run, ?_, ?_, ?_, ?_⟩
  · exact Row.single (.of_allocated head aligned pos)
  · rw [header, first.readWord (by omega)]
  · exact (first.mono (Nat.le_refl a) (by omega)).trans (changed.mono (by omega) (by omega))
  · intro x lo hi
    rw [changed x (by omega), first x (by omega)]

/-- Two allocated blocks in place of one. -/
theorem halve_row (aligned : 16 ∣ need) (pos : 16 ≤ need) (whole : 16 ∣ total)
    (room : need + 16 ≤ total) (fits : a + total < Word.bound) :
    let m' := (m.writeWord a (Tag.make need true q)).writeWord (a + need)
      (Tag.make (total - need) true true)
    Row m' q a [⟨a, need, true⟩, ⟨a + need, total - need, true⟩] true (a + total) ∧
      m.ChangedWithin m' a (a + total) ∧ ∀ x, a + 8 ≤ x → x < a + need → m'.read x = m.read x := by
  intro m'
  have first := m.changedWithin_writeWord a (Tag.make need true q)
  have second : (m.writeWord a (Tag.make need true q)).ChangedWithin m' (a + need) (a + need + 8) :=
    Memory.changedWithin_writeWord _ _ _
  have head : m'.readWord a = Tag.make need true q := by
    rw [second.readWord (.inl (by omega)),
      Memory.readWord_writeWord (Tag.make_lt aligned (by omega))]
  have header : m'.readWord (a + need) = Tag.make (total - need) true true :=
    Memory.readWord_writeWord (Tag.make_lt (by omega) (by omega))
  have behind := Row.single (.of_allocated header (by omega) (by omega))
  have meets : a + need + (total - need) = a + total := by omega
  rw [meets] at behind
  refine ⟨.cons (.of_allocated head aligned pos) behind, ?_, ?_⟩
  · exact (first.mono (Nat.le_refl a) (by omega)).trans (second.mono (by omega) (by omega))
  · intro x lo hi
    rw [second x (by omega), first x (by omega)]

/-- A free block, of which the header behind it hears. -/
theorem join_run (g : σ) (aligned : 16 ∣ total) (pos : 16 ≤ total)
    (fits : a + total < Word.bound) :
    ∃ m₁ m', Tag.writeFree a total true ⟨g, m⟩ = .ok () ⟨g, m₁⟩ ∧
      Tag.setPrev (Word.after a total) false ⟨g, m₁⟩ = .ok () ⟨g, m'⟩ ∧
      Row m' true a [⟨a, total, false⟩] false (a + total) ∧
      m'.readWord (a + total) = Tag.withPrev (m.readWord (a + total)) false ∧
      m.ChangedWithin m' a (a + total + 8) := by
  obtain ⟨m₁, run, header, footer, first⟩ :=
    Tag.writeFree_run g m a total true aligned pos fits
  obtain ⟨m', run', second, changed⟩ := Tag.setPrev_word g m₁ (a + total) false
  refine ⟨m₁, m', run, (Word.after_eq fits).symm ▸ run', ?_, ?_, ?_⟩
  · refine Row.single (.of_free ?_ ?_ aligned pos)
    · rw [changed.readWord (by omega), header]
    · rw [changed.readWord (by omega), footer]
  · rw [second, first.readWord (.inr (Nat.le_refl _))]
  · exact (first.mono (Nat.le_refl a) (by omega)).trans (changed.mono (by omega) (Nat.le_refl _))

theorem lent_single : lent [⟨a, need, true⟩] + L = ⟨a + 8, need - 8⟩ ::ₘ L := by
  rw [lent_cons_of_allocated rfl, lent_nil, Multiset.cons_add, zero_add]
  rfl

theorem lent_carved {rest : Nat} :
    lent [⟨a, need, true⟩, ⟨a + need, rest, false⟩] + L = ⟨a + 8, need - 8⟩ ::ₘ L := by
  rw [lent_cons_of_allocated rfl, lent_cons_of_free rfl, lent_nil, Multiset.cons_add, zero_add]
  rfl

theorem lent_halved {rest : Nat} :
    lent [⟨a, need, true⟩, ⟨a + need, rest, true⟩] + L =
      ⟨a + 8, need - 8⟩ ::ₘ ⟨a + need + 8, rest - 8⟩ ::ₘ L := by
  rw [lent_cons_of_allocated rfl, Multiset.cons_add, lent_single]
  rfl

/-- One block of a heap, and what surrounds it. -/
theorem InOrder.at_cut (o : InOrder h m (front ++ (s, xs ++ ([b] ++ ys)) :: back)) :
    b.addr + b.size ≤ s.stop ∧ s.stop + 8 < Word.bound ∧
      ∃ r, Row m true s.first xs r b.addr ∧ b.Tagged m r ∧
      Tiled m s.stop b.allocated (b.addr + b.size) ys := by
  have mem : (s, xs ++ ([b] ++ ys)) ∈ front ++ (s, xs ++ ([b] ++ ys)) :: back := by simp
  have fits := (o.legal_of_mem mem : s.Legal).stop_lt
  obtain ⟨r, before, tagged, after⟩ := (o.tiled _ mem : Tiled m s.stop true s.first _).split_cons
  exact ⟨after.le, fits, r, before, tagged, after⟩

/-! ### Placing -/

/-- **Placing**: the low end of a free block is lent, and the cursor goes behind it. -/
theorem place_spec (o : InOrder h m (front ++ (s, xs ++ ([b] ++ ys)) :: back))
    (lends : lent (blocksIn (front ++ (s, xs ++ ([b] ++ ys)) :: back)) = L)
    (free : b.allocated = false) (fit : need ≤ b.size) (aligned : 16 ∣ need) (pos : 16 ≤ need) :
    ∃ h' m', place b.addr need ⟨h, m⟩ = .ok (b.addr + 8) ⟨h', m'⟩ ∧
      Turned h m L h' m' (front ++ (s, xs ++ (b.carve need ++ ys)) :: back) ∧
      lent (blocksIn (front ++ (s, xs ++ (b.carve need ++ ys)) :: back)) =
        ⟨b.addr + 8, need - 8⟩ ::ₘ L ∧
      h'.cursor = some (b.addr + need) := by
  obtain ⟨below, fits, r, before, tagged, after⟩ := o.at_cut
  have := tagged.aligned
  have lends : lent (blocksIn (front ++ (s, xs ++ ([b] ++ ys)) :: back)) = lent [b] + L := by
    rw [lends, lent_cons_of_free free, lent_nil, zero_add]
  -- What the pattern fills is in the payload that was just lent.
  have filled {h₁ : Heap γ} {m₁ : Memory} {parts : List Part} (w : Turned h m L h₁ m₁ parts)
      (lends : lent (blocksIn parts) = ⟨b.addr + 8, need - 8⟩ ::ₘ L) :
      ∃ m', h.config.allocPattern.fill (b.addr + 8) (need - 8) ⟨h₁, m₁⟩ = .ok () ⟨h₁, m'⟩ ∧
        Turned h m L h₁ m' parts := by
    obtain ⟨m', run, changed⟩ :=
      Pattern.fill_run h.config.allocPattern (b.addr + 8) (need - 8) h₁ m₁
    exact ⟨m', run,
      (w.order.write lends changed (Nat.le_refl _) (Nat.le_refl _)).after (w.became lends)⟩
  unfold place
  rw [Action.part_bind, Action.memory_bind]
  dsimp only
  rw [tagged.header, Tag.size_make tagged.aligned, Tag.isPrevAllocated_make tagged.aligned]
  by_cases room : minBlock ≤ b.size - need
  · -- The rest is a free block, which the header behind it knows already.
    have split : need + 16 ≤ b.size := by rw [minBlock_eq] at room; omega
    have carved : b.carve need = [⟨b.addr, need, true⟩, ⟨b.addr + need, b.size - need, false⟩] := by
      have stop : b.addr + b.size = b.addr + need + (b.size - need) := by omega
      rw [BlockInfo.carve, stop, gap_of_pos (by omega)]
    obtain ⟨m₁, run, row, changed, -⟩ :=
      carve_run (m := m) (a := b.addr) (q := r) h aligned pos tagged.aligned split (by omega)
    obtain ⟨w, same⟩ := o.recut lends before after (changed.mono (Nat.le_refl _) (by omega)) row
      (by rw [changed.readWord (.inr (Nat.le_refl _)), ← free, after.withPrev_self])
      (fun _ => (free ▸ after).head_allocated)
      (boundary_new ⟨_, List.mem_cons_of_mem _ List.mem_cons_self, rfl⟩)
    rw [lent_carved] at same
    obtain ⟨m', fill, w⟩ := filled w same
    rw [carved]
    refine ⟨_, m', ?_, w, same, rfl⟩
    rw [if_pos room, Action.writeWord_bind, Action.bind_of_ok run, setCursor_bind,
      Word.after_eq (by omega)]
    exact Action.bind_of_ok fill
  · -- The block is lent as it is, and the header behind it hears of that.
    obtain rfl : need = b.size := by rw [minBlock_eq] at room; omega
    have carved : b.carve b.size = [⟨b.addr, b.size, true⟩] := by rw [BlockInfo.carve, gap_self]
    obtain ⟨m₁, run, row, next, changed, -⟩ :=
      fill_run (m := m) (a := b.addr) (q := r) h aligned pos (by omega)
    obtain ⟨w, same⟩ := o.recut lends before after changed row next nofun (boundary_after after)
    rw [lent_single] at same
    obtain ⟨m', fill, w⟩ := filled w same
    rw [carved]
    refine ⟨_, m', ?_, w, same, rfl⟩
    rw [if_neg room, Action.writeWord_bind, Action.bind_of_ok run, setCursor_bind,
      Word.after_eq (by omega)]
    exact Action.bind_of_ok fill

/-- A heap that lends comes back from its search. -/
theorem Lends.seek_eq (lends : h.Lends m L) (need : Nat) :
    seek need ⟨h, m⟩ = .ok (h.findFit m need) ⟨h, m⟩ :=
  lends.elim fun _ ⟨o, _⟩ => o.seek_eq need

theorem findFit_place (lends : h.Lends m L) {need x : Nat} (found : h.findFit m need = some x)
    (aligned : 16 ∣ need) (pos : 16 ≤ need) :
    ∃ h' m', place x need ⟨h, m⟩ = .ok (x + 8) ⟨h', m'⟩ ∧
      Became h m L h' m' (⟨x + 8, need - 8⟩ ::ₘ L) ∧ h'.cursor = some (x + need) := by
  obtain ⟨parts, o, same⟩ := lends
  obtain ⟨t, ht, b, hb, rfl, free, fit⟩ := o.findFit_sound found
  obtain ⟨front, s, xs, ys, back, rfl, -⟩ := exists_cut ht hb
  obtain ⟨h', m', run, w, lends, cursor⟩ := place_spec o same free fit aligned pos
  exact ⟨h', m', run, w.became lends, cursor⟩

/-! ### Joining -/

/-- The free block behind a boundary, if there is one: its `n` bytes end where no free block
starts. -/
theorem free_behind {stop : Nat} (after : Tiled m stop true a ys) :
    ∃ old rest n q, ys = old ++ rest ∧ lent old = 0 ∧ Row m true a old q (a + n) ∧
      Tiled m stop q (a + n) rest ∧ 16 ∣ n ∧ (∀ b ∈ rest.head?, b.allocated = true) ∧
      n = if Tag.isAllocated (m.readWord a) then 0 else Tag.size (m.readWord a) := by
  obtain ⟨q, row, epilogue⟩ := after
  cases row with
  | nil =>
    refine ⟨[], [], 0, true, rfl, rfl, .nil _ _, ⟨true, .nil _ _, epilogue⟩, ⟨0, rfl⟩, nofun, ?_⟩
    rw [epilogue, Tag.isAllocated_make ⟨0, rfl⟩, if_pos rfl]
  | @cons _ _ _ b ys tagged rest =>
    rw [tagged.header, Tag.isAllocated_make tagged.aligned, Tag.size_make tagged.aligned]
    cases live : b.allocated with
    | true =>
      refine ⟨[], b :: ys, 0, true, rfl, rfl, .nil _ _, ⟨q, .cons tagged rest, epilogue⟩,
        ⟨0, rfl⟩, ?_, rfl⟩
      rintro d ⟨⟩
      exact live
    | false =>
      have behind : Tiled m stop false (b.addr + b.size) ys := ⟨q, live ▸ rest, epilogue⟩
      exact ⟨[b], ys, b.size, false, rfl, lent_cons_of_free live, live ▸ Row.single tagged, behind,
        tagged.aligned, behind.head_allocated, rfl⟩

/-- Where a block starts after it is joined with the free block before it, if there is one. -/
def joinStart (m : Memory) (a : Nat) : Nat :=
  if Tag.isPrevAllocated (m.readWord a) then a else Word.before a (m.readWord (a - Word.bytes))

/-- Joined with the free block before it, if there is one, the block at `a` starts at `start`, where
it has `k` bytes more. -/
structure StartsAt (m : Memory) (a start k : Nat) : Prop where
  found : joinStart m a = start
  meets : a = start + k
  size : k = if Tag.isPrevAllocated (m.readWord a) = true then 0 else Tag.size (m.readWord start)
  prev : Tag.isPrevAllocated (m.readWord start) = true

theorem StartsAt.self (here : Tag.isPrevAllocated (m.readWord a) = true) : StartsAt m a a 0 :=
  ⟨if_pos here, rfl, by rw [if_pos here], here⟩

/-- A free block before `a`, by its footer and its header. -/
theorem StartsAt.before {start k : Nat} (here : Tag.isPrevAllocated (m.readWord a) = false)
    (meets : a = start + k) (fits : a < Word.bound) (footer : m.readWord (a - 8) = k)
    (size : Tag.size (m.readWord start) = k)
    (prev : Tag.isPrevAllocated (m.readWord start) = true) : StartsAt m a start k := by
  refine ⟨?_, meets, by rw [here, if_neg nofun, size], prev⟩
  rw [joinStart, here, if_neg nofun, Word.bytes_eq, footer, Word.before_eq (by omega) fits]
  omega

/-- The free block before a boundary, if there is one, starts behind no free block. -/
theorem free_before {first : Nat} {r : Bool} (before : Row m true first xs r a)
    (here : Tag.isPrevAllocated (m.readWord a) = r) (fits : a < Word.bound) :
    ∃ rest old start k, xs = rest ++ old ∧ lent old = 0 ∧ Row m true first rest true start ∧
      Row m true start old r a ∧ StartsAt m a start k := by
  cases r with
  | true =>
    exact ⟨xs, [], a, 0, (List.append_nil xs).symm, rfl, before, .nil _ _, .self here⟩
  | false =>
    obtain ⟨rest, f, r, rfl, before, tagged, free, rfl⟩ := before.exists_last
    obtain rfl := tagged.apart free
    have := tagged.pos
    refine ⟨rest, [f], f.addr, f.size, rfl, lent_cons_of_free free, before,
      free ▸ Row.single tagged, .before here rfl fits ?_ ?_ ?_⟩
    · rw [Nat.add_sub_assoc (by omega), tagged.footer free]
    · rw [tagged.header, Tag.size_make tagged.aligned]
    · rw [tagged.header, Tag.isPrevAllocated_make tagged.aligned]

/-- The block behind a payload that is lent. -/
theorem Lends.cut {e : Extent} (lends : h.Lends m (e ::ₘ L)) :
    ∃ front s xs b ys back, InOrder h m (front ++ (s, xs ++ ([b] ++ ys)) :: back) ∧
      lent (blocksIn (front ++ (s, xs ++ ([b] ++ ys)) :: back)) = lent [b] + L ∧
      b.allocated = true ∧ b.room = e := by
  obtain ⟨parts, o, same⟩ := lends
  obtain ⟨t, ht, b, hb, live, rfl⟩ := exists_block (same ▸ Multiset.mem_cons_self e L)
  obtain ⟨front, s, xs, ys, back, rfl, -⟩ := exists_cut ht hb
  refine ⟨front, s, xs, b, ys, back, o, ?_, live, rfl⟩
  rw [same, lent_cons_of_allocated live, lent_nil, Multiset.cons_add, zero_add]

theorem Lends.payload_eq {e : Extent} (lends : h.Lends m L) (he : e ∈ L) :
    e.start = ofPayload e.start + 8 := by
  have := (lends.valid he).start_pos
  have := (lends.bounds he).1
  unfold ofPayload
  rw [Word.bytes_eq]
  omega

/-- The header of a payload that is lent, and the one behind it. -/
theorem Lends.headers {e : Extent} (lends : h.Lends m (e ::ₘ L)) :
    Tag.size (m.readWord (ofPayload e.start)) = e.len + 8 ∧
      Word.after (ofPayload e.start) (e.len + 8) = e.start + e.len ∧
      e.start + e.len + Tag.size (m.readWord (e.start + e.len)) < Word.bound := by
  have start := lends.payload_eq (Multiset.mem_cons_self e L)
  obtain ⟨front, s, xs, b, ys, back, o, -, live, rfl⟩ := lends.cut
  obtain ⟨below, fits, r, -, tagged, after⟩ := o.at_cut
  obtain ⟨size, allocated, header, aligned, stop_le⟩ := after.header
  have := tagged.pos
  have block : ofPayload b.room.start = b.addr := (Nat.add_right_cancel start).symm
  have len : b.room.len + 8 = b.size := by dsimp only [BlockInfo.room]; omega
  have stop : b.room.start + b.room.len = b.addr + b.size := by dsimp only [BlockInfo.room]; omega
  rw [block, len, stop, tagged.header, header, Tag.size_make tagged.aligned, Tag.size_make aligned]
  exact ⟨rfl, Word.after_eq (by omega), by omega⟩

/-- Adding the bytes of a neighbour, where there is a free one. -/
theorem add_unless_bind {β : Type} {c : Prop} [Decidable c] {size next n : Nat}
    (hn : n = if c then 0 else next) (fits : size + n < Word.bound) (f : Nat → Action σ β)
    (t : Store σ) :
    (if c then (pure size : Action σ Nat) >>= f
      else (liftM (Word.add size next) : Action σ Nat) >>= f) t =
      f (size + n) t := by
  by_cases hc : c
  · rw [if_pos hc] at hn ⊢
    rw [hn]
    rfl
  · rw [if_neg hc] at hn ⊢
    subst hn
    rw [Action.lift_ok_bind (Word.add_eq_ok_iff.mpr ⟨fits, rfl⟩)]

/-- **Joining, by what the tags say**: the bytes of a free block behind and of one before are joined
with those of the block itself. -/
theorem coalesce_run {size n k start : Nat} (here : Tag.size (m.readWord a) = size)
    (behind : n = if Tag.isAllocated (m.readWord (a + size)) = true then 0
      else Tag.size (m.readWord (a + size)))
    (before : StartsAt m a start k) (pos : 16 ≤ size) (fits : a + size + n < Word.bound) :
    ∃ m', coalesce a ⟨h, m⟩ = .ok () ⟨{ h with cursor := some start }, m'⟩ ∧
      Row m' true start [⟨start, size + n + k, false⟩] false (a + size + n) ∧
      m'.readWord (a + size + n) = Tag.withPrev (m.readWord (a + size + n)) false ∧
      m.ChangedWithin m' start (a + size + n + 8) := by
  have meets := before.meets
  have stop : a + size + n = start + (size + n + k) := by omega
  have aligned : 16 ∣ size + n + k := by
    have size_aligned : 16 ∣ size := here ▸ Tag.dvd_size _
    have n_aligned : 16 ∣ n := by
      rw [behind]
      split_ifs
      exacts [⟨0, rfl⟩, Tag.dvd_size _]
    have k_aligned : 16 ∣ k := by
      rw [before.size]
      split_ifs
      exacts [⟨0, rfl⟩, Tag.dvd_size _]
    omega
  obtain ⟨m₁, m', free_run, prev_run, row, head, changed⟩ :=
    join_run (m := m) (a := start) h aligned (by omega) (by omega)
  rw [stop]
  refine ⟨m', ?_, row, head, changed⟩
  have first := before.found
  rw [joinStart] at first
  unfold coalesce
  rw [Action.memory_bind]
  dsimp only
  rw [here, Word.after_eq (by omega), add_unless_bind behind (by omega)]
  rw [first, before.prev, add_unless_bind before.size (by omega), Action.bind_of_ok free_run,
    Action.bind_of_ok prev_run]
  rfl

/-- A free block where the joined one starts, which has all of the block at `a`. -/
structure Joined (m : Memory) (a size : Nat) (d : BlockInfo) : Prop where
  addr : d.addr = joinStart m a
  free : d.allocated = false
  le : d.addr ≤ a
  stop : a + size ≤ d.addr + d.size

/-- **Joining**: an allocated block and its free neighbours become one free block, and the cursor
goes there. -/
theorem coalesce_spec {e : Extent} (lends : h.Lends m (e ::ₘ L)) (he : e.start = a + 8) :
    ∃ h' m' parts d, coalesce a ⟨h, m⟩ = .ok () ⟨h', m'⟩ ∧ Turned h m L h' m' parts ∧
      lent (blocksIn parts) = L ∧ d ∈ blocksIn parts ∧ Joined m a (e.len + 8) d ∧
      h'.cursor = some d.addr := by
  obtain ⟨front, s, xs, b, ys, back, o, lends, live, rfl⟩ := lends.cut
  obtain rfl : b.addr = a := Nat.add_right_cancel he
  obtain ⟨below, fits, r, before, tagged, after⟩ := o.at_cut
  rw [live] at after
  obtain ⟨ys₁, ys₂, n, q, rfl, idle, next, after, n_aligned, apart, n_eq⟩ := free_behind after
  have here : Tag.size (m.readWord b.addr) = b.size := by
    rw [tagged.header, Tag.size_make tagged.aligned]
  obtain ⟨xs₁, xs₂, start, k, rfl, idle', before, prev, starts⟩ := free_before before
    (by rw [tagged.header, Tag.isPrevAllocated_make tagged.aligned]) (by omega)
  have := after.le
  have meets := starts.meets
  obtain ⟨m', run, row, head, changed⟩ :=
    coalesce_run (h := h) here n_eq starts tagged.pos (by omega)
  -- The three blocks as one row.
  have assoc : (xs₁ ++ xs₂) ++ ([b] ++ (ys₁ ++ ys₂)) = xs₁ ++ ((xs₂ ++ ([b] ++ ys₁)) ++ ys₂) := by
    simp only [List.append_assoc]
  rw [assoc] at o lends
  have old : lent (xs₂ ++ ([b] ++ ys₁)) + L = lent [b] + L := by
    rw [lent_append, lent_append, idle, idle', zero_add, add_zero]
  obtain ⟨w, same⟩ := o.recut (lends.trans old.symm) before after changed row head
    (fun _ => apart) (boundary_new ⟨_, List.mem_cons_self, rfl⟩)
  rw [lent_cons_of_free rfl, lent_nil, zero_add] at same
  refine ⟨_, m', _, ⟨start, b.size + n + k, false⟩, run, w, same, by simp [blocksIn],
    ⟨starts.found.symm, rfl, ?_, ?_⟩, rfl⟩
  · dsimp only
    omega
  · have := tagged.pos
    dsimp only [BlockInfo.room]
    omega

/-- **Releasing** a payload that is lent. -/
theorem release_spec {e : Extent} (lends : h.Lends m (e ::ₘ L)) :
    ∃ h' m' parts d, release e.start ⟨h, m⟩ = .ok () ⟨h', m'⟩ ∧ Turned h m L h' m' parts ∧
      lent (blocksIn parts) = L ∧ d ∈ blocksIn parts ∧
      Joined m (ofPayload e.start) (e.len + 8) d ∧ h'.cursor = some d.addr := by
  have mem := Multiset.mem_cons_self e L
  have start := lends.payload_eq mem
  -- The words that a join looks at lie before the payload, which the pattern fills.
  have finish {m₁ : Memory} (changed : m.ChangedWithin m₁ e.start (e.start + e.len)) :
      ∃ h' m' parts d, coalesce (ofPayload e.start) ⟨h, m₁⟩ = .ok () ⟨h', m'⟩ ∧
        Turned h m L h' m' parts ∧ lent (blocksIn parts) = L ∧ d ∈ blocksIn parts ∧
        Joined m (ofPayload e.start) (e.len + 8) d ∧ h'.cursor = some d.addr := by
    have w := lends.write changed (Nat.le_refl _) (Nat.le_refl _)
    obtain ⟨h', m', parts, d, run, w', same, hd, joined, cursor⟩ := coalesce_spec w.lends start
    have words : joinStart m₁ (ofPayload e.start) = joinStart m (ofPayload e.start) := by
      have large : 16 ≤ e.start :=
        Nat.le_of_dvd (lends.valid mem).start_pos (lends.bounds mem).1
      unfold joinStart
      rw [Word.bytes_eq, changed.readWord (.inl (by omega)), changed.readWord (.inl (by omega))]
    exact ⟨h', m', parts, d, run, w'.after w, same, hd,
      { joined with addr := joined.addr.trans words }, cursor⟩
  unfold release
  rw [Action.part_bind]
  dsimp only
  by_cases pattern : h.config.deallocPattern.isSome = true
  · obtain ⟨m₁, fill, changed⟩ := Pattern.fill_run h.config.deallocPattern e.start e.len h m
    obtain ⟨h', m', parts, d, run, w⟩ := finish changed
    refine ⟨h', m', parts, d, ?_, w⟩
    rw [if_pos pattern, Action.memory_bind, Action.lift_ok_bind (lends.usableSize_eq mem),
      Action.bind_of_ok fill, run]
  · rw [if_neg pattern]
    exact finish (.refl m _ _)

theorem release_run {e : Extent} (lends : h.Lends m (e ::ₘ L)) :
    ∃ h' m', release e.start ⟨h, m⟩ = .ok () ⟨h', m'⟩ ∧ Became h m L h' m' L ∧
      h'.cursor = some (joinStart m (ofPayload e.start)) := by
  obtain ⟨h', m', parts, d, run, w, same, -, joined, cursor⟩ := release_spec lends
  exact ⟨h', m', run, w.became same, joined.addr ▸ cursor⟩

/-- A payload that is lent is believed, whether the heap verifies it or not. -/
theorem Lends.free_eq {e : Extent} (lends : h.Lends m L) (he : e ∈ L) :
    free e.start ⟨h, m⟩ = release e.start ⟨h, m⟩ := by
  unfold free
  rw [Action.part_bind, Action.memory_bind, lends.verified he]

/-- A pointer that passes is released. -/
theorem tryFree_of_ok {ptr : Nat} (check : h.checkLive m ptr = .ok ()) :
    tryFree ptr ⟨h, m⟩ = release ptr ⟨h, m⟩ := by
  unfold tryFree
  rw [Action.part_bind, Action.memory_bind, check]

theorem tryFree_of_error {ptr : Nat} {f : Fault} (check : h.checkLive m ptr = .error f) :
    tryFree ptr ⟨h, m⟩ = .error (.fault f) ⟨h, m⟩ := by
  unfold tryFree
  rw [Action.part_bind, Action.memory_bind, check]
  rfl

theorem Lends.tryFree_eq {e : Extent} (lends : h.Lends m L) (he : e ∈ L) :
    tryFree e.start ⟨h, m⟩ = release e.start ⟨h, m⟩ :=
  tryFree_of_ok (lends.checkLive_eq he)

theorem free_run {e : Extent} (lends : h.Lends m (e ::ₘ L)) :
    ∃ h' m', free e.start ⟨h, m⟩ = .ok () ⟨h', m'⟩ ∧ Became h m L h' m' L := by
  obtain ⟨h', m', run, w, -⟩ := release_run lends
  exact ⟨h', m', (lends.free_eq (Multiset.mem_cons_self e L)).trans run, w⟩

theorem tryFree_run {e : Extent} (lends : h.Lends m (e ::ₘ L)) :
    ∃ h' m', tryFree e.start ⟨h, m⟩ = .ok () ⟨h', m'⟩ ∧ Became h m L h' m' L := by
  obtain ⟨h', m', run, w, -⟩ := release_run lends
  exact ⟨h', m', (lends.tryFree_eq (Multiset.mem_cons_self e L)).trans run, w⟩

/-! ### Resizing in place -/

theorem InOrder.exists_cursor {t : Part} {parts : List Part} (o : InOrder h m parts)
    (ht : t ∈ parts) :
    ∃ c, h.cursor = some c ∧ ∃ t ∈ parts, AtBoundary t c := by
  cases cursor : h.cursor with
  | none =>
    rw [o.idle cursor] at ht
    cases ht
  | some c => exact ⟨c, rfl, o.cursor c cursor⟩

/-- **Shrinking**: what a block does not need any more becomes free, and the cursor goes there. -/
theorem shrinkTo_spec {e : Extent} (lends : h.Lends m (e ::ₘ L)) (ha : e.start = a + 8)
    (fit : need ≤ e.len + 8) (aligned : 16 ∣ need) (pos : 16 ≤ need) :
    ∃ h' m', shrinkTo a (e.len + 8) need ⟨h, m⟩ = .ok () ⟨h', m'⟩ ∧
      Became h m (⟨e.start, need - 8⟩ ::ₘ L) h' m' (⟨e.start, need - 8⟩ ::ₘ L) ∧
      h'.cursor = if minBlock ≤ e.len + 8 - need then some (a + need) else h.cursor := by
  have whole := lends.bounds (Multiset.mem_cons_self e L)
  unfold shrinkTo
  by_cases room : minBlock ≤ e.len + 8 - need
  · have split : need + 16 ≤ e.len + 8 := by rw [minBlock_eq] at room; omega
    obtain ⟨front, s, xs, b, ys, back, o, lent_eq, live, rfl⟩ := lends.cut
    obtain rfl : b.addr = a := Nat.add_right_cancel ha
    obtain ⟨below, fits, r, before, tagged, after⟩ := o.at_cut
    rw [live] at after
    have size : b.room.len + 8 = b.size := by
      have := tagged.pos
      dsimp only [BlockInfo.room]
      omega
    rw [size] at room split ⊢
    obtain ⟨c, cursor, boundary⟩ := o.exists_cursor (t := (s, xs ++ ([b] ++ ys))) (by simp)
    -- First two allocated blocks; then the second one joins what is behind it.
    obtain ⟨row, changed, kept⟩ :=
      halve_row (m := m) (a := b.addr) (q := r) aligned pos tagged.aligned split (by omega)
    obtain ⟨w, same⟩ := o.recut lent_eq before after (changed.mono (Nat.le_refl _) (by omega)) row
      (by rw [changed.readWord (.inr (Nat.le_refl _)), after.withPrev_self]) nofun
      (boundary_kept boundary fun d hd e =>
        ⟨_, List.mem_cons_self, by rw [← e, List.mem_singleton.mp hd]⟩)
    rw [lent_halved] at same
    rw [← cursor] at w
    have w := (w.became same).and_keeps (e := ⟨b.addr + 8, need - 8⟩) fun x hx => by
      have := Extent.mem_iff.mp hx
      dsimp only at this
      exact kept x (by omega) (by omega)
    obtain ⟨h', m', parts, d, run, w', same', -, joined, cursor'⟩ :=
      coalesce_spec (Multiset.cons_swap _ _ _ ▸ w.lends) rfl
    refine ⟨h', m', ?_, w.trans (w'.became same'), ?joined⟩
    case joined =>
      -- The rest lies behind an allocated block, so it is joined with nothing before it.
      obtain ⟨-, second, -⟩ := row.uncons.2.2.uncons
      rw [cursor', joined.addr, joinStart, second.header, Tag.isPrevAllocated_make second.aligned,
        if_pos room]
      rfl
    rw [if_pos room, Action.memory_bind]
    rw [tagged.header, Tag.isPrevAllocated_make tagged.aligned, Action.writeWord_bind,
      Action.writeWord_bind, Word.after_eq (by omega), run]
  · obtain rfl : need = e.len + 8 := by rw [minBlock_eq] at room; omega
    rw [if_neg room, if_neg room, Nat.add_sub_cancel]
    exact ⟨h, m, rfl, .refl lends, rfl⟩

/-- The free block behind an allocated one. -/
theorem free_next {stop : Nat} (after : Tiled m stop true a ys)
    (free : Tag.isAllocated (m.readWord a) = false) :
    ∃ l rest, ys = l :: rest ∧ l.addr = a ∧ l.allocated = false ∧ l.Tagged m true ∧
      Tiled m stop false (a + l.size) rest := by
  obtain ⟨q, row, epilogue⟩ := after
  cases row with
  | nil =>
    rw [epilogue, Tag.isAllocated_make ⟨0, rfl⟩] at free
    cases free
  | @cons _ _ _ l rest tagged row =>
    rw [tagged.header, Tag.isAllocated_make tagged.aligned] at free
    exact ⟨l, rest, rfl, rfl, free, tagged, q, free ▸ row, epilogue⟩

/-- The block behind a payload that is lent, and the free block behind that one, as one row. -/
theorem Lends.cut_pair {e : Extent} (lends : h.Lends m (e ::ₘ L))
    (free : Tag.isAllocated (m.readWord (e.start + e.len)) = false) :
    ∃ front s xs b l ys back r, InOrder h m (front ++ (s, xs ++ ([b, l] ++ ys)) :: back) ∧
      lent (blocksIn (front ++ (s, xs ++ ([b, l] ++ ys)) :: back)) = lent [b, l] + L ∧
      b.room = e ∧ s.stop + 8 < Word.bound ∧ Row m true s.first xs r b.addr ∧ b.Tagged m r ∧
      l.Tagged m true ∧ l.addr = b.addr + b.size ∧
      Tiled m s.stop false (b.addr + (b.size + l.size)) ys := by
  obtain ⟨front, s, xs, b, ys, back, o, lent_eq, live, rfl⟩ := lends.cut
  obtain ⟨-, fits, r, before, tagged, after⟩ := o.at_cut
  have := tagged.pos
  have stop : b.room.start + b.room.len = b.addr + b.size := by dsimp only [BlockInfo.room]; omega
  rw [live] at after
  rw [stop] at free
  obtain ⟨l, ys, rfl, addr, l_free, l_tagged, after⟩ := free_next after free
  have assoc : xs ++ ([b] ++ l :: ys) = xs ++ ([b, l] ++ ys) := rfl
  rw [assoc] at o lent_eq
  have pair : lent [b, l] + L = lent [b] + L := by
    rw [lent_cons_of_allocated live, lent_cons_of_allocated live, lent_cons_of_free l_free]
  rw [Nat.add_assoc] at after
  exact ⟨front, s, xs, b, l, ys, back, r, o, lent_eq.trans pair.symm, rfl, fits, before, tagged,
    l_tagged, addr, after⟩

/-- The cursor after a block has grown over the one behind it: where that one was, it goes behind
the new end, and else it stays. -/
theorem InOrder.move_cursor {rest : List BlockInfo} {l : BlockInfo} {c stop : Nat}
    (new : List BlockInfo)
    (o : InOrder h m (front ++ (s, xs ++ ([b, l] ++ rest)) :: back)) (addr : l.addr = c)
    (start : ∃ d ∈ new, d.addr = b.addr)
    (behind : ∃ t ∈ front ++ (s, xs ++ (new ++ rest)) :: back, AtBoundary t stop) :
    ∃ k, (∃ t ∈ front ++ (s, xs ++ (new ++ rest)) :: back, AtBoundary t k) ∧
      some k = (if h.cursor = some c then some stop else h.cursor) ∧ ∀ m',
      (if h.cursor = some c then setCursor stop else pure () : Action (Heap γ) Unit) ⟨h, m'⟩ =
        .ok () ⟨{ h with cursor := some k }, m'⟩ := by
  subst addr
  by_cases absorbed : h.cursor = some l.addr
  · exact ⟨stop, behind, by rw [if_pos absorbed], fun m' => by rw [if_pos absorbed]; rfl⟩
  · obtain ⟨c, cursor, boundary⟩ := o.exists_cursor (t := (s, xs ++ ([b, l] ++ rest))) (by simp)
    refine ⟨c, boundary_kept boundary ?_, by rw [if_neg absorbed, cursor],
      fun m' => by rw [if_neg absorbed, ← cursor]; rfl⟩
    rintro d hd rfl
    rcases List.mem_pair.mp hd with rfl | rfl
    · exact start
    · exact absurd cursor absorbed

/-- **Extending**: a block takes what it needs from the free block behind it. A cursor that was
there goes behind what it took. -/
theorem extendTo_spec {e : Extent} (lends : h.Lends m (e ::ₘ L)) (ha : e.start = a + 8)
    (free : Tag.isAllocated (m.readWord (e.start + e.len)) = false)
    (ht : total = e.len + 8 + Tag.size (m.readWord (e.start + e.len)))
    (grows : e.len + 8 ≤ need) (fit : need ≤ total) (aligned : 16 ∣ need) :
    ∃ h' m', extendTo a total need ⟨h, m⟩ = .ok () ⟨h', m'⟩ ∧
      Became h m (e ::ₘ L) h' m' (⟨e.start, need - 8⟩ ::ₘ L) ∧
      h'.cursor = if h.cursor = some (e.start + e.len) then
        some (a + if minBlock ≤ total - need then need else total) else h.cursor := by
  obtain ⟨front, s, xs, b, l, ys, back, r, o, lent_eq, rfl, fits, before, tagged, l_tagged, addr,
    after⟩ := lends.cut_pair free
  obtain rfl : b.addr = a := Nat.add_right_cancel ha
  have := tagged.pos
  have := tagged.aligned
  have := l_tagged.aligned
  have size : b.room.len + 8 = b.size := by dsimp only [BlockInfo.room]; omega
  have stop : b.room.start + b.room.len = b.addr + b.size := by dsimp only [BlockInfo.room]; omega
  rw [size] at grows
  rw [size, stop, ← addr, l_tagged.header, Tag.size_make l_tagged.aligned] at ht
  rw [← ht] at after
  obtain ⟨next_size, allocated, header, next_aligned, stop_le⟩ := after.header
  have keep {m' : Memory} (kept : ∀ x, b.addr + 8 ≤ x → x < b.addr + need → m'.read x = m.read x)
      {h' : Heap γ} {L' : Multiset Extent} (w : Became h m L h' m' L') :
      Became h m (b.room ::ₘ L) h' m' L' := by
    refine w.and_keeps fun x hx => ?_
    have := Extent.mem_iff.mp hx
    dsimp only [BlockInfo.room] at this
    exact kept x (by omega) (by omega)
  unfold extendTo
  rw [Action.part_bind, Action.memory_bind]
  rw [tagged.header, Tag.size_make tagged.aligned, Tag.isPrevAllocated_make tagged.aligned,
    Word.after_eq (by omega : b.addr + b.size < Word.bound)]
  by_cases room : minBlock ≤ total - need
  · have split : need + 16 ≤ total := by rw [minBlock_eq] at room; omega
    obtain ⟨m', run, row, changed, kept⟩ :=
      carve_run (m := m) (a := b.addr) (q := r) h aligned (by omega) (by omega) split (by omega)
    -- The block behind is gone, and the cursor may have been at it.
    obtain ⟨k, boundary, moved, move⟩ :=
      o.move_cursor [⟨b.addr, need, true⟩, ⟨b.addr + need, total - need, false⟩] addr
        ⟨_, List.mem_cons_self, rfl⟩
        (boundary_new ⟨_, List.mem_cons_of_mem _ List.mem_cons_self, rfl⟩)
    obtain ⟨w, same⟩ := o.recut lent_eq before after (changed.mono (Nat.le_refl _) (by omega)) row
      (by rw [changed.readWord (.inr (Nat.le_refl _)), after.withPrev_self])
      (fun _ => after.head_allocated) boundary
    rw [lent_carved] at same
    refine ⟨_, m', ?_, keep kept (w.became same), by rw [if_pos room, stop, ← moved]⟩
    rw [if_pos room, Action.writeWord_bind, Action.bind_of_ok run, Word.after_eq (by omega), move]
  · obtain rfl : need = total := by rw [minBlock_eq] at room; omega
    obtain ⟨m', run, row, next, changed, kept⟩ :=
      fill_run (m := m) (a := b.addr) (q := r) h aligned (by omega) (by omega)
    obtain ⟨k, boundary, moved, move⟩ :=
      o.move_cursor [⟨b.addr, need, true⟩] addr ⟨_, List.mem_cons_self, rfl⟩ (boundary_after after)
    obtain ⟨w, same⟩ := o.recut lent_eq before after changed row next nofun boundary
    rw [lent_single] at same
    refine ⟨_, m', ?_, keep kept (w.became same), by rw [if_neg room, stop, ← moved]⟩
    rw [if_neg room, Action.writeWord_bind, Action.bind_of_ok run, Word.after_eq (by omega), move]

end LayeredMemory.Heap
