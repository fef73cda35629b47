import LayeredMemory.Proofs.Heap.Session
import Mathlib.Algebra.BigOperators.Group.Multiset.Basic
import Mathlib.Order.Bounds.Basic

/-!
# Thrift — no block is larger than it must be

A held block has the least size that serves what it was last asked for, whatever came before: splits,
merges and blocks that grew in place leave nothing behind.

* `blockSizeFor_isLeast`: the size of the block for a request is the least possible one.
* `Sound.block_mem`, `Sound.allocatedBytes_eq`: held blocks have it, and their sizes add up to what
  is allocated.
* `Lends.cutsClean`: so where a block is cut, what is left over is a block, or nothing.
* `reachable_thrifty`: all this after every run.
-/

namespace LayeredMemory

/-- **The size of a block** is the least multiple of a granule with room for the header. -/
theorem blockSizeFor_isLeast {n size : Nat} (fit : blockSizeFor n = some size) :
    IsLeast {k | granule ∣ k ∧ n + 8 ≤ k} size := by
  obtain ⟨rfl, -⟩ := blockSizeFor_eq_some_iff.mp fit
  rw [granule_eq]
  refine ⟨⟨?_, ?_⟩, fun k ⟨aligned, room⟩ => ?_⟩ <;> omega

namespace Heap

variable {γ : Type} {h : Heap γ} {m : Memory} {L : Multiset Extent} {bs : List BlockInfo}
  {size need : Nat}

/-- A block of `size` bytes, cut to `need`, leaves a block over, or nothing. -/
def CutsClean (size need : Nat) : Prop :=
  need ≤ size ∧ (size = need ∨ minBlock ≤ size - need)

theorem cutsClean_of_dvd (whole : 16 ∣ size) (aligned : 16 ∣ need) (room : need ≤ size) :
    CutsClean size need := by
  refine ⟨room, ?_⟩
  rw [minBlock_eq]
  omega

/-- **What the search finds** is cut clean. -/
theorem Lends.cutsClean {x : Nat} (lends : h.Lends m L) (aligned : 16 ∣ need)
    (found : h.findFit m need = some x) : CutsClean (Tag.size (m.readWord x)) need := by
  obtain ⟨parts, o, -⟩ := lends
  obtain ⟨t, ht, b, hb, rfl, -, room⟩ := o.findFit_sound found
  obtain ⟨-, -, r, -, -, tagged, -⟩ := o.around ht hb
  rw [tagged.header, Tag.size_make tagged.aligned]
  exact cutsClean_of_dvd tagged.aligned aligned room

/-- The sizes of allocated blocks are those of their payloads and a header each. -/
theorem sum_sizes_eq (pos : ∀ b ∈ bs, 16 ≤ b.size) :
    (sizes true bs).sum = ((lent bs).map fun e => e.len + 8).sum := by
  induction bs with
  | nil => rfl
  | cons b bs ih =>
    have here := pos b List.mem_cons_self
    have ih := ih fun d hd => pos d (List.mem_cons_of_mem b hd)
    cases live : b.allocated with
    | true =>
      have len : b.room.len + 8 = b.size := by dsimp only [BlockInfo.room]; omega
      rw [sizes_cons_same live, List.sum_cons, lent_cons_of_allocated live, Multiset.map_cons,
        Multiset.sum_cons, len, ih]
    | false => rw [sizes_cons_other live, lent_cons_of_free live, ih]

variable [GrowthSource γ] {C : GrowthContract γ} {σ : Session γ}

namespace Session

/-- A held block is an allocated one of the size that its last request takes. -/
theorem Sound.block_mem {parts : List Part} {b : Held} (sound : σ.Sound C 0)
    (rooms : lent (blocksIn parts) = σ.rooms) (o : σ.heap.InOrder σ.memory parts)
    (hb : b ∈ σ.live) (fit : blockSizeFor b.size = some size) :
    ⟨ofPayload b.ptr, size, true⟩ ∈ blocksIn parts ∧
      usableSize σ.memory b.ptr = .ok (size - 8) := by
  have room : b.room = ⟨b.ptr, size - 8⟩ := Held.room_eq fit
  have mem := mem_rooms hb
  have usable := sound.alone.lends.usableSize_eq mem
  rw [← rooms] at mem
  obtain ⟨t, ht, d, hd, live, same⟩ := exists_block mem
  have large := (o.mem_bounds ht hd).2.2.1
  obtain ⟨-, -, pos, -⟩ := blockSizeFor_spec fit
  rw [room] at usable same
  obtain ⟨start, len⟩ : d.addr + 8 = b.ptr ∧ d.size - 8 = size - 8 := by
    simpa [BlockInfo.room] using same
  refine ⟨?_, usable⟩
  have : (⟨ofPayload b.ptr, size, true⟩ : BlockInfo) = d := by
    rw [BlockInfo.mk.injEq, ofPayload, Word.bytes_eq]
    exact ⟨by omega, by omega, live.symm⟩
  exact this ▸ List.mem_flatMap.mpr ⟨t, ht, hd⟩

/-- What is allocated is what the held blocks take. -/
theorem Sound.allocatedBytes_eq {parts : List Part} (sound : σ.Sound C 0)
    (rooms : lent (blocksIn parts) = σ.rooms) (o : σ.heap.InOrder σ.memory parts) :
    (sizes true (blocksIn parts)).sum =
      (σ.live.map fun b => (blockSizeFor b.size).getD 0).sum := by
  rw [sum_sizes_eq fun b hb => ?large, rooms, Session.rooms, Multiset.map_coe, Multiset.sum_coe,
    List.map_map]
  case large =>
    obtain ⟨t, ht, hb⟩ := List.mem_flatMap.mp hb
    exact (o.mem_bounds ht hb).2.2.1
  refine congrArg List.sum (List.map_congr_left fun b hb => ?_)
  obtain ⟨size, fit⟩ := sound.sized b hb
  obtain ⟨-, -, pos, -⟩ := blockSizeFor_spec fit
  rw [Function.comp_apply, Held.room_eq fit, fit, Option.getD_some]
  exact Nat.sub_add_cancel (by omega)

end Session

/-- **No bytes are wasted.** After every run each held block is as large as the least multiple of a
granule with room for a header and what was last asked for, and the bytes that validation reports as
allocated are these sizes together. Wherever a request would cut a block, one that the search
finds, before or after growth, or the client's own, alone or with the free one behind it, what is
left over is a block or nothing. -/
theorem reachable_thrifty (reachable : Reachable C σ) :
    ∃ bs report, σ.heap.blocks σ.memory = .ok bs ∧ σ.heap.validate σ.memory = .ok report ∧
      (∀ b ∈ σ.live, ∃ size, blockSizeFor b.size = some size ∧
        IsLeast {k | granule ∣ k ∧ b.size + 8 ≤ k} size ∧
        ⟨ofPayload b.ptr, size, true⟩ ∈ bs ∧ usableSize σ.memory b.ptr = .ok (size - 8)) ∧
      report.allocatedBytes = (σ.live.map fun b => (blockSizeFor b.size).getD 0).sum ∧
      ∀ n need, n ≠ 0 → blockSizeFor n = some need →
        (∀ x, σ.heap.findFit σ.memory need = some x →
          CutsClean (Tag.size (σ.memory.readWord x)) need) ∧
        (∀ s' x, grow n need ⟨σ.heap, σ.memory⟩ = .ok () s' →
          s'.part.findFit s'.memory need = some x →
            CutsClean (Tag.size (s'.memory.readWord x)) need) ∧
        ∀ b ∈ σ.live, ∃ size, Tag.size (σ.memory.readWord (ofPayload b.ptr)) = size ∧
          (need ≤ size → CutsClean size need) ∧
          ∀ next, σ.memory.readWord (Word.after (ofPayload b.ptr) size) = next →
            need ≤ size + Tag.size next → CutsClean (size + Tag.size next) need := by
  have sound := reachable.sound
  have serves := sound.alone
  obtain ⟨parts, o, rooms⟩ := serves.lends
  have validated : σ.heap.validate σ.memory = .ok (σ.heap.report (blocksIn parts)) := by
    rw [validate_of_blocks o.blocks_eq, if_pos o.cursorFound]
  refine ⟨_, _, o.blocks_eq, validated, fun b hb => ?_, sound.allocatedBytes_eq rooms o,
    fun n need pos fit => ⟨fun x => ?_, fun s' x grew => ?_, fun b hb => ?_⟩⟩
  · obtain ⟨size, fit⟩ := sound.sized b hb
    exact ⟨size, fit, blockSizeFor_isLeast fit, sound.block_mem rooms o hb fit⟩
  · exact serves.lends.cutsClean (blockSizeFor_spec fit).1
  · have grown := (grow_spec serves (Nat.pos_of_ne_zero pos) fit).answer grew
    exact grown.2.1.serves.lends.cutsClean (blockSizeFor_spec fit).1
  · have aligned := (blockSizeFor_spec fit).1
    refine ⟨_, rfl, cutsClean_of_dvd (Tag.dvd_size _) aligned, fun next _ => ?_⟩
    exact cutsClean_of_dvd (Nat.dvd_add (Tag.dvd_size _) (Tag.dvd_size _)) aligned

theorem reachable_thrifty_two : ∃ σ : Session NoGrowth, σ.live = [⟨4144, 8⟩, ⟨4112, 24⟩] ∧
    ∃ report, σ.heap.validate σ.memory = .ok report ∧ report.allocatedBytes = 48 ∧
      usableSize σ.memory 4112 = .ok 24 := by
  obtain ⟨σ, reachable, live, -⟩ := exists_reachable_two
  obtain ⟨_, report, -, run, blocks, bytes, -⟩ := reachable_thrifty reachable
  rw [live] at blocks bytes
  obtain ⟨size, fit, -, -, usable⟩ := blocks ⟨4112, 24⟩ (by decide)
  obtain rfl : 32 = size := Option.some.inj fit
  exact ⟨σ, live, report, run, bytes, usable⟩

end Heap

end LayeredMemory
