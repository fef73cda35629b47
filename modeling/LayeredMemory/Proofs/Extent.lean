import LayeredMemory.Extent
import LayeredMemory.Proofs.Memory
import Mathlib.Algebra.GroupWithZero.Nat
import Mathlib.Algebra.Order.Group.Multiset
import Mathlib.Data.List.Nodup
import Mathlib.Data.List.Perm.Subperm

/-!
# Extents — their addresses and their bytes

An extent that somebody may hand over is `Valid`: it does not start at zero and ends at a word. Two
extents are `Apart` when one ends before the other starts; then they share no address.

Whoever works on memory leaves most of it alone. `Memory.Keeps` names extents whose bytes stay, and
`Memory.ChangedIn` names the only extents whose bytes may change.
-/

namespace LayeredMemory

namespace Extent

instance : Membership Nat Extent where
  mem e a := e.start ≤ a ∧ a < e.start + e.len

theorem mem_iff {e : Extent} {a : Nat} : a ∈ e ↔ e.start ≤ a ∧ a < e.start + e.len :=
  Iff.rfl

theorem covers_iff {e : Extent} {a : Nat} : e.covers a = true ↔ a ∈ e :=
  decide_eq_true_iff

/-- An extent of real memory: no address is zero, and its end is a word. -/
structure Valid (e : Extent) : Prop where
  start_pos : 0 < e.start
  fits : e.start + e.len < Word.bound

theorem Valid.stop_eq {e : Extent} (h : e.Valid) : e.stop = .ok (e.start + e.len) :=
  Word.add_eq_ok_iff.mpr ⟨h.fits, rfl⟩

/-- One extent ends before the other starts. -/
def Apart (e f : Extent) : Prop :=
  e.start + e.len ≤ f.start ∨ f.start + f.len ≤ e.start

theorem Apart.symm {e f : Extent} (h : e.Apart f) : f.Apart e :=
  Or.symm h

theorem Apart.not_mem {e f : Extent} (h : e.Apart f) {a : Nat} (he : a ∈ e) : a ∉ f := by
  intro hf
  rw [mem_iff] at he hf
  unfold Apart at h
  omega

/-- **Extents that are apart** have no more bytes together than there are addresses. -/
theorem sum_len_lt {es : List Extent} (valid : ∀ e ∈ es, e.Valid) (apart : es.Pairwise Apart) :
    (es.map len).sum < Word.bound := by
  let addresses := es.flatMap fun e => List.range' e.start e.len
  have mem {e : Extent} {a : Nat} : a ∈ List.range' e.start e.len ↔ a ∈ e := by
    rw [List.mem_range'_1, mem_iff]
  have nodup : addresses.Nodup := by
    refine List.nodup_flatMap.mpr ⟨fun e _ => List.nodup_range', apart.imp fun off a he hf => ?_⟩
    exact off.not_mem (mem.mp he) (mem.mp hf)
  have words : addresses ⊆ List.range' 1 (Word.bound - 1) := by
    intro a ha
    obtain ⟨e, he, inside⟩ := List.mem_flatMap.mp ha
    have := (valid e he).start_pos
    have := (valid e he).fits
    have := mem_iff.mp (mem.mp inside)
    exact List.mem_range'_1.mpr ⟨by omega, by omega⟩
  have le := (List.subperm_of_subset nodup words).length_le
  have length : addresses.length = (es.map len).sum := by
    rw [List.length_flatMap]
    simp only [List.length_range']
  rw [length, List.length_range'] at le
  exact Nat.lt_of_le_of_lt le (by decide)

end Extent

namespace Memory

variable {m m' m'' : Memory} {K K' es es' : Multiset Extent}

/-- The bytes of these extents stay. -/
def Keeps (m m' : Memory) (K : Multiset Extent) : Prop :=
  ∀ e ∈ K, ∀ x ∈ e, m'.read x = m.read x

theorem Keeps.refl (m : Memory) (K : Multiset Extent) : m.Keeps m K :=
  fun _ _ _ _ => rfl

theorem Keeps.trans (h : m.Keeps m' K) (h' : m'.Keeps m'' K) : m.Keeps m'' K :=
  fun e he x hx => (h' e he x hx).trans (h e he x hx)

theorem Keeps.mono (h : m.Keeps m' K) (sub : K' ⊆ K) : m.Keeps m' K' :=
  fun e he => h e (sub he)

theorem Keeps.add (h : m.Keeps m' K) (h' : m.Keeps m' K') : m.Keeps m' (K + K') :=
  fun e he => (Multiset.mem_add.mp he).elim (h e) (h' e)

/-- No byte outside these extents changes. -/
def ChangedIn (m m' : Memory) (es : Multiset Extent) : Prop :=
  ∀ x, (∀ e ∈ es, x ∉ e) → m'.read x = m.read x

theorem ChangedIn.refl (m : Memory) (es : Multiset Extent) : m.ChangedIn m es :=
  fun _ _ => rfl

theorem ChangedIn.trans (h : m.ChangedIn m' es) (h' : m'.ChangedIn m'' es) : m.ChangedIn m'' es :=
  fun x hx => (h' x hx).trans (h x hx)

theorem ChangedIn.mono (h : m.ChangedIn m' es) (sub : es ⊆ es') : m.ChangedIn m' es' :=
  fun x hx => h x fun e he => hx e (sub he)

/-- Writing inside an interval of an extent changes nothing outside the extent. -/
theorem ChangedWithin.changedIn {lo hi : Nat} {e : Extent} (h : m.ChangedWithin m' lo hi)
    (he : e ∈ es)
    (le : e.start ≤ lo) (le' : hi ≤ e.start + e.len) : m.ChangedIn m' es := by
  intro x hx
  apply h
  have := hx e he
  rw [Extent.mem_iff] at this
  omega

end Memory

end LayeredMemory
