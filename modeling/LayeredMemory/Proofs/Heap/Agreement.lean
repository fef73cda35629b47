import LayeredMemory.Proofs.Heap.Recut

/-!
# Agreement — two memories with the same blocks

Heaps in order with the same parts agree on every word that is a header, an epilogue or the footer
of a free block, whatever else is in their memories: the blocks say what these words are. Nothing
else is ever looked at. So the search, the join and the check of a pointer come to the same end in
both (`InOrder.findFit_agree`, `InOrder.joinStart_agree`, `InOrder.checkLive_agree`).
-/

namespace LayeredMemory

variable {m n : Memory} {p q q' : Bool} {a c c' stop : Nat} {bs : List BlockInfo}

/-! ### Tags of the same blocks -/

/-- Rows of the same blocks have the same headers. -/
theorem Row.agree (h : Row m p a bs q c) (h' : Row n p a bs q' c') :
    ∀ b ∈ bs, n.readWord b.addr = m.readWord b.addr := by
  induction h with
  | nil => nofun
  | cons tagged rest ih =>
    obtain ⟨-, tagged', rest'⟩ := h'.uncons
    exact List.forall_mem_cons.mpr ⟨tagged'.header.trans tagged.header.symm, ih rest'⟩

/-- Segments of the same blocks have the same headers, that of the epilogue included. -/
theorem Tiled.agree (h : Tiled m stop p a bs) (h' : Tiled n stop p a bs)
    (hc : c = stop ∨ ∃ b ∈ bs, b.addr = c) : n.readWord c = m.readWord c := by
  obtain ⟨q, row, epilogue⟩ := h
  obtain ⟨q', row', epilogue'⟩ := h'
  rcases hc with rfl | ⟨b, hb, rfl⟩
  · rw [epilogue, epilogue', row.flag_eq, row'.flag_eq]
  · exact row.agree row' b hb

namespace Heap

variable {γ δ : Type} {h : Heap γ} {k : Heap δ} {parts : List Part} {t : Part} {b : BlockInfo}
  {need x : Nat}

namespace InOrder

section Agreement

variable (o : InOrder h m parts) (o' : InOrder k n parts)

include o o'

theorem segments_agree : k.segments = h.segments :=
  o'.segments.symm.trans o.segments

theorem readWord_agree (ht : t ∈ parts) (boundary : AtBoundary t a) :
    n.readWord a = m.readWord a :=
  (o.tiled t ht).agree (o'.tiled t ht) boundary

/-- Where a block ends, the next one or the epilogue starts. -/
theorem behind_agree (ht : t ∈ parts) (hb : b ∈ t.2) :
    n.readWord (b.addr + b.size) = m.readWord (b.addr + b.size) := by
  obtain ⟨xs, ys, r, split, -, -, after⟩ := o.around ht hb
  refine o.readWord_agree o' ht (after.start_mem.imp_right ?_)
  rintro ⟨d, hd, here⟩
  exact ⟨d, split ▸ List.mem_append_right _ (List.mem_cons_of_mem b hd), here⟩

/-- **A join** goes to the same block. -/
theorem joinStart_agree (ht : t ∈ parts) (hb : b ∈ t.2) :
    joinStart n b.addr = joinStart m b.addr := by
  have header := o.readWord_agree o' ht (.inr ⟨b, hb, rfl⟩)
  obtain ⟨xs, ys, r, split, before, tagged, -⟩ := o.around ht hb
  unfold joinStart
  rw [header, tagged.header, Tag.isPrevAllocated_make tagged.aligned]
  cases r with
  | true => rfl
  | false =>
    -- The free block before it has its footer where the join looks.
    obtain ⟨front, f, q, rfl, -, left, free, meets⟩ := before.exists_last
    obtain ⟨_, _, q', -, -, left', -⟩ := o'.around ht (b := f) (by rw [split]; simp)
    have := left.pos
    have here : b.addr - Word.bytes = f.addr + (f.size - 8) := by rw [Word.bytes_eq]; omega
    rw [here, left.footer free, left'.footer free]

/-- **The search** finds the same block. -/
theorem findFit_agree (cursor : k.cursor = h.cursor) : k.findFit n need = h.findFit m need := by
  rw [o'.findFit_eq, o.findFit_eq, cursor]

theorem checkLive_agree (ptr : Nat) : k.checkLive n ptr = h.checkLive m ptr := by
  unfold checkLive
  rw [o.segments_agree o']
  cases found : h.segments.find? fun s => s.first < ptr && ptr < s.stop with
  | none => rfl
  | some s =>
    obtain ⟨t, ht, rfl⟩ := List.mem_map.mp (o.segments ▸ List.mem_of_find?_eq_some found)
    dsimp only
    rw [segmentBlocks_eq (o.tiled t ht), segmentBlocks_eq (o'.tiled t ht)]

end Agreement

end InOrder

end Heap

end LayeredMemory
