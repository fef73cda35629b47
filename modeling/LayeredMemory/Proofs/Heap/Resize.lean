import LayeredMemory.Proofs.Heap.Canonical
import LayeredMemory.Proofs.Heap.NextFit

/-!
# Resizing — where a block goes, and what becomes of it

What a client can see when a block is resized, in terms of the blocks that a walk meets.

* `InOrder.roomy_iff`: whether a block stays where it is depends on its own size and on the free
  block behind it.
* `Session.Resizes`: after an answer the block has its bytes, as far as there is room. If it was
  moved, the new one is as if asked for, and the old one became free and joined its neighbours.
* `Session.Retains`: after a fault the block, its bytes and all blocks of the segments are as
  before.
* `reachable_resizes`: every block that is held may be resized, with one of these two outcomes.
-/

namespace LayeredMemory.Heap

variable {γ : Type} {h h' : Heap γ} {m m' : Memory} {parts : List Part} {L : Multiset Extent}
  {e : Extent} {need : Nat}

/-- Among the blocks `bs` there is room for `need` bytes where the payload `e` is: in its own block,
or with the free one behind it. -/
def InPlace (bs : List BlockInfo) (e : Extent) (need : Nat) : Prop :=
  need ≤ e.len + 8 ∨
    ∃ d ∈ bs, d.addr = e.start + e.len ∧ d.allocated = false ∧ need ≤ e.len + 8 + d.size

/-- **Room in place** is room in the block and in the free one behind it. -/
theorem InOrder.roomy_iff (o : InOrder h m parts) (he : e ∈ lent (blocksIn parts)) :
    Roomy m e need ↔ InPlace (blocksIn parts) e need := by
  obtain ⟨t, ht, b, hb, live, rfl⟩ := exists_block he
  have size := o.mem_bounds ht hb
  have stop : b.room.start + b.room.len = b.addr + b.size := by dsimp only [BlockInfo.room]; omega
  unfold Roomy InPlace
  rw [stop]
  refine or_congr_right ⟨fun ⟨free, room⟩ => ?_, fun ⟨d, hd, addr, free, room⟩ => ?_⟩
  · obtain ⟨xs, ys, r, split, -, -, after⟩ := o.around ht hb
    rw [live] at after
    obtain ⟨l, rest, rfl, addr, vacant, tagged, -⟩ := free_next after free
    have mem : l ∈ t.2 := by rw [split]; simp
    rw [← addr, tagged.header, Tag.size_make tagged.aligned] at room
    exact ⟨l, List.mem_flatMap.mpr ⟨t, ht, mem⟩, addr, vacant, room⟩
  · obtain ⟨u, hu, hd⟩ := List.mem_flatMap.mp hd
    obtain ⟨-, -, r, -, -, tagged, -⟩ := o.around hu hd
    rw [← addr, tagged.header, Tag.size_make tagged.aligned, Tag.isAllocated_make tagged.aligned]
    exact ⟨free, room⟩

/-- A payload that the heap stands by. -/
structure Live (s : Store (Heap γ)) (e : Extent) : Prop where
  checked : s.part.checkLive s.memory e.start = .ok ()
  usable : usableSize s.memory e.start = .ok e.len

theorem Lends.live (lends : h.Lends m L) (he : e ∈ L) : Live ⟨h, m⟩ e :=
  ⟨lends.checkLive_eq he, lends.usableSize_eq he⟩

/-- Segments that are added leave the blocks of those that were there. -/
theorem Lends.blocks_append (lends : h.Lends m L) (lends' : h'.Lends m' L)
    (segments : h.segments <+: h'.segments) :
    ∃ bs more, h.blocks m = .ok bs ∧ h'.blocks m' = .ok (bs ++ more) := by
  obtain ⟨parts, o, same⟩ := lends
  obtain ⟨parts', o', same'⟩ := lends'
  obtain ⟨live, rfl⟩ : ∃ live : List Extent, (live : Multiset Extent) = L := Quot.exists_rep L
  obtain ⟨added, split⟩ := segments
  have rooms (e : Extent) : e ∈ live ↔ e ∈ lent (blocksIn parts) := by
    rw [same, Multiset.mem_coe]
  have rooms' (e : Extent) : e ∈ live ↔ e ∈ lent (blocksIn parts') := by
    rw [same', Multiset.mem_coe]
  refine ⟨arrange h.segments live, arrange added live, o.blocks_eq_arrange rooms, ?_⟩
  rw [o'.blocks_eq_arrange rooms', ← split]
  exact congrArg Except.ok List.flatMap_append

variable [GrowthSource γ]

/-- **A block that was moved** went to where a fresh one was handed out, and became free. -/
theorem Moved.spec {n q : Nat} {s' : Store (Heap γ)} (moved : Moved h m e n q s') :
    ∃ h₁ m₁ d, malloc n ⟨h, m⟩ = .ok q ⟨h₁, m₁⟩ ∧
      free e.start ⟨h₁, m₁.copy e.start q (min e.len n)⟩ = .ok () s' ∧ Absorbed s' e d := by
  obtain ⟨-, h₁, m₁, L, handed, lends, run⟩ := moved
  obtain ⟨s'', d, freed, -, joined, -⟩ := lends.malloc_freed
  have same := freed
  rw [lends.free_eq (Multiset.mem_cons_self e L), run] at same
  cases same
  exact ⟨h₁, m₁, d, handed, freed, joined⟩

namespace Session

/-- The block `b` was resized to serve `n` bytes, in a heap whose blocks were `bs`. -/
structure Resizes (σ : Session γ) (bs : List BlockInfo) (b : Held) (n q : Nat)
    (s' : Store (Heap γ)) (need : Nat) : Prop where
  fit : blockSizeFor n = some need
  /-- What is at `q` now is live, and large enough. -/
  live : ∃ e, Live s' e ∧ e.start = q ∧ n ≤ e.len
  kept : ∀ i < min b.room.len n, s'.memory.read (q + i) = σ.memory.read (b.ptr + i)
  others : ∀ d ∈ σ.live, d.ptr ≠ b.ptr →
    Live s' d.room ∧ ∀ x ∈ d.room, s'.memory.read x = σ.memory.read x
  in_place : q = b.ptr ↔ InPlace bs b.room need
  /-- A block that is moved is handed out, written and freed. -/
  moved : q ≠ b.ptr → ∃ h₁ m₁ d, malloc n ⟨σ.heap, σ.memory⟩ = .ok q ⟨h₁, m₁⟩ ∧
    free b.ptr ⟨h₁, m₁.copy b.ptr q (min b.room.len n)⟩ = .ok () s' ∧ Absorbed s' b.room d

/-- The block `b` could not be resized to serve `n` bytes, in a heap whose blocks were `bs`. -/
structure Retains (σ : Session γ) (bs : List BlockInfo) (b : Held) (n : Nat) (f : Fault)
    (s' : Store (Heap γ)) : Prop where
  fault : f = refusal n
  tight : 0 < n → ∀ need, blockSizeFor n = some need → ¬InPlace bs b.room need
  /-- Nor is there room elsewhere: what fails is the request for a fresh block. -/
  nowhere : malloc n ⟨σ.heap, σ.memory⟩ = .error (.fault f) s'
  held : ∀ d ∈ σ.live, Live s' d.room
  /-- No byte of the segments is another. -/
  kept : ∀ f ∈ σ.heap.extents, ∀ x ∈ f, s'.memory.read x = σ.memory.read x
  /-- The blocks of segments that were added come behind those that were there. -/
  blocks : ∃ more, s'.part.blocks s'.memory = .ok (bs ++ more)

variable {C : GrowthContract γ} {σ : Session γ} {b : Held} {n : Nat}

/-- A held block may be resized. -/
theorem Sound.resize (sound : σ.Sound C 0) (hb : b ∈ σ.live)
    (o : InOrder σ.heap σ.memory parts) (rooms : lent (blocksIn parts) = σ.rooms) (n : Nat) :
    Action.Meets (realloc b.ptr n) ⟨σ.heap, σ.memory⟩
      (fun q s' => ∃ need, σ.Resizes (blocksIn parts) b n q s' need)
      (σ.Retains (blocksIn parts) b n) := by
  obtain ⟨d, hd, start, others, same⟩ := exists_held ⟨b, hb, rfl⟩ 0
  obtain rfl : d = b := List.inj_on_of_nodup_map sound.ptr_nodup hd hb start
  have all : σ.heap.Lends σ.memory (σ.rooms + 0) := sound.serves.lends
  have mem : d.room ∈ lent (blocksIn parts) := rooms ▸ mem_rooms hb
  refine (realloc_outcome (same ▸ sound.serves) n).mono ?_ ?_
  · rintro q s' ⟨need, w⟩
    obtain ⟨-, room, -⟩ := blockSizeFor_spec w.fit
    have lends := w.served.serves.lends
    refine ⟨need, w.fit, ⟨_, lends.live (Multiset.mem_cons_self _ _), rfl, by dsimp only; omega⟩,
      w.kept, fun k hk ne => ?_, ?_, fun ne => ?_⟩
    · have rest :
          k.room ∈ ((σ.without d.ptr).map Held.room : List Extent) + (0 : Multiset Extent) :=
        Multiset.mem_add.mpr (.inl (Multiset.mem_coe.mpr (List.mem_map_of_mem (others k hk ne))))
      exact ⟨lends.live (Multiset.mem_cons_of_mem rest), w.served.keeps _ rest⟩
    · rw [← o.roomy_iff mem]
      rcases w.place with ⟨roomy, here⟩ | ⟨tight, moved⟩
      · exact ⟨fun _ => roomy, fun _ => here⟩
      · exact ⟨fun here => absurd here moved.1, fun roomy => absurd roomy tight⟩
    · rcases w.place with ⟨-, here⟩ | ⟨-, moved⟩
      · exact absurd here ne
      · exact moved.spec
  · intro f s' w
    have served := same ▸ w.refused.served
    refine ⟨w.refused.fault, fun pos need fit => ?_, w.nowhere, fun k hk => ?_, fun f hf => ?_, ?_⟩
    · rw [← o.roomy_iff mem]
      exact w.tight pos need fit
    · exact served.serves.lends.live (Multiset.mem_add.mpr (.inl (mem_rooms hk)))
    · exact w.refused.keeps f (Multiset.mem_coe.mpr hf)
    · obtain ⟨bs, more, run, run'⟩ := all.blocks_append served.serves.lends served.segments
      rw [o.blocks_eq] at run
      cases run
      exact ⟨more, run'⟩

end Session

/-- **Resizing keeps what it must.** After every run every held block may be resized. If that
succeeds, the block has what it held as far as there is room, and the other held blocks are as they
were; it is where it was exactly if there is room in its own block or with the free one behind it,
and otherwise it was moved to where a fresh one is handed out, and became free where it was. If that
fails, no held block is another, nor any byte or block of the segments; there was no room in place,
and a fresh block is refused just so. -/
theorem reachable_resizes {C : GrowthContract γ} {σ : Session γ} (reachable : Reachable C σ) :
    ∃ bs, σ.heap.blocks σ.memory = .ok bs ∧ ∀ b ∈ σ.live,
      b.room.block ∈ bs ∧ usableSize σ.memory b.ptr = .ok b.room.len ∧
      ∀ n, Action.Meets (realloc b.ptr n) ⟨σ.heap, σ.memory⟩
        (fun q s' => ∃ need, σ.Resizes bs b n q s' need) (σ.Retains bs b n) := by
  have sound := reachable.sound
  obtain ⟨parts, o, rooms⟩ := sound.alone.lends
  refine ⟨_, o.blocks_eq, fun b hb => ⟨?_, ?_, fun n => sound.resize hb o rooms n⟩⟩
  · obtain ⟨t, ht, d, hd, live, here⟩ := exists_block (rooms ▸ Session.mem_rooms hb)
    rw [← here, BlockInfo.block_room live (o.mem_bounds ht hd).2.2.1]
    exact List.mem_flatMap.mpr ⟨t, ht, hd⟩
  · have usable := sound.alone.lends.usableSize_eq (Session.mem_rooms hb)
    exact usable

theorem reachable_resizes_two : ∃ σ : Session NoGrowth, σ.live = [⟨4144, 8⟩, ⟨4112, 24⟩] ∧
    ∃ s', realloc 4112 8 ⟨σ.heap, σ.memory⟩ = .ok 4112 s' ∧
      (∀ i < 8, s'.memory.read (4112 + i) = σ.memory.read (4112 + i)) ∧
      usableSize s'.memory 4144 = .ok 8 := by
  obtain ⟨σ, reachable, live, -⟩ := exists_reachable_two
  obtain ⟨bs, -, resized⟩ := reachable_resizes reachable
  obtain ⟨-, -, resize⟩ := resized ⟨4112, 24⟩ (by rw [live]; decide)
  have fit : blockSizeFor 8 = some 16 := by decide
  have roomy : InPlace bs (⟨4112, 24⟩ : Held).room 16 := .inl (by decide)
  rcases (resize 8).cases with ⟨q, s', run, need, w⟩ | ⟨f, s', -, w⟩
  · obtain rfl := Option.some.inj (fit.symm.trans w.fit)
    obtain rfl : q = 4112 := w.in_place.mpr roomy
    have other := (w.others ⟨4144, 8⟩ (by rw [live]; decide) (by decide)).1.usable
    have room : (⟨4144, 8⟩ : Held).room = ⟨4144, 8⟩ := by decide
    rw [room] at other
    have len : (⟨4112, 24⟩ : Held).room.len = 24 := by decide
    exact ⟨σ, live, s', run, fun i hi => w.kept i (by rw [len]; omega), other⟩
  · exact absurd roomy (w.tight (by decide) 16 fit)

end LayeredMemory.Heap
