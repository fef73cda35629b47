import LayeredMemory.Heap.Exchange
import LayeredMemory.Proofs.Extent
import LayeredMemory.Proofs.Heap.Tag
import Mathlib.Data.List.Pairwise

/-!
# Segments — what a heap uses of an extent

A segment is `Legal` when its blocks and its epilogue lie inside its extent and its payloads sit on
multiples of the granule. `Segment.of?_eq_some_iff` says which segment a heap makes of an extent,
and `overlapsAny_eq` when it refuses an extent because of those it has.
-/

namespace LayeredMemory

/-- The blocks and the epilogue lie inside a valid extent, payloads at multiples of the granule. -/
structure Segment.Legal (s : Segment) : Prop where
  valid : s.extent.Valid
  start_le : s.extent.start ≤ s.first
  stop_le : s.stop + 8 ≤ s.extent.start + s.extent.len
  first_mod : s.first % 16 = 8
  usable_dvd : 16 ∣ s.usable
  usable_pos : 16 ≤ s.usable

namespace Segment

variable {e : Extent} {s : Segment}

theorem Legal.stop_lt (h : s.Legal) : s.stop + 8 < Word.bound :=
  Nat.lt_of_le_of_lt h.stop_le h.valid.fits

/-- The tags and blocks of a segment lie in its extent. -/
theorem Legal.mem_extent {x : Nat} (h : s.Legal) (lo : s.first ≤ x) (hi : x < s.stop + 8) :
    x ∈ s.extent := by
  have := h.start_le
  have := h.stop_le
  exact Extent.mem_iff.mpr ⟨by omega, by omega⟩

/-- Where the first header goes: one word below the first granule with room for a header. -/
def firstFor (e : Extent) : Nat :=
  (e.start + 23) / 16 * 16 - 8

/-- **The segment of an extent**: the first possible header, and then as many granules as leave room
for the epilogue, if that is at least one. -/
theorem of?_eq_some_iff (h : e.Valid) :
    of? e = some s ↔
      firstFor e + 24 ≤ e.start + e.len ∧
        s = ⟨e, firstFor e, (e.start + e.len - (firstFor e + 8)) / 16 * 16⟩ := by
  have pos := h.start_pos
  have fits := h.fits
  have bound := Word.bound_eq
  unfold firstFor
  unfold of?
  rw [Option.bind_eq_bind, ← Option.bind_assoc, ceil_behind_header]
  by_cases near : e.start + 23 < Word.bound
  · rw [if_pos near, Option.bind_some, Word.bytes_eq, minBlock_eq]
    dsimp only
    rw [Align.floorMask_eq granule_isPowerOfTwo (by omega) (by decide), granule_eq]
    split
    · exact ⟨nofun, fun h => absurd h.1 (by omega)⟩
    · have room : e.len - ((e.start + 23) / 16 * 16 - 8 - e.start + 8) =
          e.start + e.len - ((e.start + 23) / 16 * 16 - 8 + 8) := by omega
      rw [room]
      split
      · exact ⟨nofun, fun h => absurd h.1 (by omega)⟩
      · rw [Option.some_inj]
        exact ⟨fun h => ⟨by omega, h.symm⟩, fun h => h.2.symm⟩
  · rw [if_neg near, Option.bind_none]
    exact ⟨nofun, fun h => absurd h.1 (by omega)⟩

theorem legal_of_of? (h : e.Valid) (hs : of? e = some s) : s.Legal ∧ s.extent = e := by
  obtain ⟨room, rfl⟩ := (of?_eq_some_iff h).mp hs
  have := h.start_pos
  unfold firstFor at room ⊢
  refine ⟨⟨h, ?_, ?_, ?_, ?_, ?_⟩, rfl⟩ <;> dsimp only [stop] <;> omega

/-- Segments have at least a byte each for blocks, and no more than their extents have. -/
theorem total_bounds {segments : List Segment} (legal : ∀ s ∈ segments, s.Legal) :
    segments.length ≤ total segments ∧
      total segments ≤ ((segments.map (·.extent)).map Extent.len).sum := by
  induction segments with
  | nil => exact ⟨Nat.le_refl 0, Nat.le_refl 0⟩
  | cons s segments ih =>
    obtain ⟨some, most⟩ := ih fun t ht => legal t (List.mem_cons_of_mem s ht)
    have here := legal s List.mem_cons_self
    have := here.usable_pos
    have := here.start_le
    have := here.stop_le
    have stop : s.stop = s.first + s.usable := rfl
    rw [List.length_cons, total, List.map_cons, List.map_cons, List.sum_cons]
    omega

end Segment

namespace Heap

/-- The segments of the heap are legal, and no two of them share an address. Memory plays no part
in it. -/
structure LaidOut {γ : Type} (h : Heap γ) : Prop where
  legal : ∀ s ∈ h.segments, s.Legal
  apart : h.segments.Pairwise fun s t => s.extent.Apart t.extent

/-- An address is in one segment at most. -/
theorem LaidOut.eq_of_mem_extent {γ : Type} {h : Heap γ} {s t : Segment} {x : Nat}
    (laid : h.LaidOut) (hs : s ∈ h.segments) (ht : t ∈ h.segments) (in_s : x ∈ s.extent)
    (in_t : x ∈ t.extent) : s = t := by
  have : Std.Symm fun s t : Segment => s.extent.Apart t.extent :=
    ⟨fun _ _ => Extent.Apart.symm⟩
  by_contra ne
  exact (laid.apart.forall hs ht ne).not_mem in_s in_t

/-- All bytes of a heap together are fewer than there are words. -/
theorem LaidOut.total_lt {γ : Type} {h : Heap γ} (laid : h.LaidOut) :
    Segment.total h.segments < Word.bound := by
  have apart : (h.segments.map (·.extent)).Pairwise Extent.Apart := List.pairwise_map.mpr laid.apart
  refine Nat.lt_of_le_of_lt (Segment.total_bounds laid.legal).2 (Extent.sum_len_lt ?_ apart)
  intro e he
  obtain ⟨s, hs, rfl⟩ := List.mem_map.mp he
  exact (laid.legal s hs).valid

/-- The extent overlaps one of a segment. -/
theorem overlapsAny_eq {e : Extent} (he : e.Valid) :
    ∀ {segments : List Segment}, (∀ s ∈ segments, s.extent.Valid) →
      ∃ answer, overlapsAny e segments = .ok answer ∧
        (answer = false ↔ ∀ s ∈ segments, s.extent.Apart e)
  | [], _ => ⟨false, rfl, by simp⟩
  | s :: rest, valid => by
    have hs := valid s List.mem_cons_self
    obtain ⟨answer, run, spec⟩ := overlapsAny_eq he fun t ht => valid t (List.mem_cons_of_mem s ht)
    have apart : s.extent.Apart e ↔
        ¬(e.start < s.extent.start + s.extent.len ∧ s.extent.start < e.start + e.len) := by
      unfold Extent.Apart
      omega
    have go : overlapsAny e (s :: rest) =
        if e.start < s.extent.start + s.extent.len ∧ s.extent.start < e.start + e.len then .ok true
        else .ok answer := by
      unfold overlapsAny
      rw [hs.stop_eq, he.stop_eq]
      show (if e.start < s.extent.start + s.extent.len then
          (if s.extent.start < e.start + e.len then Except.ok true else overlapsAny e rest)
        else overlapsAny e rest) = _
      rw [run]
      by_cases h₁ : e.start < s.extent.start + s.extent.len
      · by_cases h₂ : s.extent.start < e.start + e.len
        · rw [if_pos h₁, if_pos h₂, if_pos ⟨h₁, h₂⟩]
        · rw [if_pos h₁, if_neg h₂, if_neg (h₂ ·.2)]
      · rw [if_neg h₁, if_neg (h₁ ·.1)]
    by_cases h : e.start < s.extent.start + s.extent.len ∧ s.extent.start < e.start + e.len
    · rw [if_pos h] at go
      exact ⟨true, go, by simp [apart, h]⟩
    · rw [if_neg h] at go
      exact ⟨answer, go, by simp [apart, h, spec]⟩

end Heap

end LayeredMemory
