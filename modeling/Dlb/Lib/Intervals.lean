import Mathlib.Algebra.Order.BigOperators.Group.Finset
import Mathlib.Order.Interval.Finset.Nat
import Mathlib.Algebra.GroupWithZero.Nat

/-!
# Lists of intervals of time

An interval is half open and made of ticks. What a list of intervals covers is a finite set (`cover`), and its cardinality is
a duration. The lengths of the intervals add up to it if they are one behind the other (`Separated`, `sum_length`), and then
there is no other such list with the same cover (`Separated.eq_of_cover`). Durations of disjoint covers add up to no more
than the time they lie in (`sum_card_le`).
-/

namespace Lib

open List

structure Interval where
  start : ℕ
  finish : ℕ
deriving DecidableEq

namespace Interval

def points (i : Interval) : Finset ℕ := Finset.Ico i.start i.finish

def length (i : Interval) : ℕ := i.finish - i.start

def cover (l : List Interval) : Finset ℕ := l.foldr (fun i s => i.points ∪ s) ∅

/-- Each interval ends before the next one starts. -/
def Separated (l : List Interval) : Prop := l.Pairwise fun a b => a.finish < b.start

variable {i j : Interval} {l l' : List Interval} {t : ℕ}

theorem mem_points : t ∈ i.points ↔ i.start ≤ t ∧ t < i.finish := Finset.mem_Ico

@[simp] theorem cover_nil : cover [] = ∅ := rfl

@[simp] theorem cover_cons : cover (i :: l) = i.points ∪ cover l := rfl

theorem mem_cover : t ∈ cover l ↔ ∃ i ∈ l, i.start ≤ t ∧ t < i.finish := by
  induction l with
  | nil => simp
  | cons i l ih => simp [ih, mem_points]

theorem cover_congr (h : ∀ i, i ∈ l ↔ i ∈ l') : cover l = cover l' := by
  ext t
  simp only [mem_cover, h]

theorem points_union (hle : i.start ≤ j.start) (htouch : j.start ≤ i.finish) :
    i.points ∪ j.points = points { start := i.start, finish := max i.finish j.finish } := by
  ext t
  simp only [Finset.mem_union, mem_points]
  omega

theorem Separated.disjoint (h : Separated (i :: l)) : Disjoint i.points (cover l) := by
  refine Finset.disjoint_left.mpr fun t hi hl => ?_
  obtain ⟨j, hj, hle, -⟩ := mem_cover.mp hl
  have hlt := (pairwise_cons.mp h).1 j hj
  have := (mem_points.mp hi).2
  omega

theorem sum_length (h : Separated l) : (l.map length).sum = (cover l).card := by
  induction l with
  | nil => rfl
  | cons i l ih =>
    rw [map_cons, sum_cons, ih (pairwise_cons.mp h).2, cover_cons, Finset.card_union_of_disjoint h.disjoint]
    exact congrArg (· + _) (Nat.card_Ico i.start i.finish).symm

theorem Separated.cover_tail (h : Separated (i :: l)) : cover l = cover (i :: l) \ i.points := by
  rw [cover_cons, Finset.union_sdiff_left, Finset.sdiff_eq_self_of_disjoint h.disjoint.symm]

theorem Separated.head_le (hi : i.start < i.finish) (h' : Separated (j :: l')) (hvalid : ∀ k ∈ j :: l', k.start < k.finish)
    (h : cover (i :: l) = cover (j :: l')) : j.start ≤ i.start ∧ (i.start = j.start → i.finish ≤ j.finish) := by
  have hpoint (t : ℕ) (ht : i.start ≤ t ∧ t < i.finish) : t ∈ cover (j :: l') := h ▸ mem_cover.mpr ⟨i, mem_cons_self, ht⟩
  have hnext := (pairwise_cons.mp h').1
  have hj := hvalid j mem_cons_self
  constructor
  · obtain ⟨k, hk, hle, -⟩ := mem_cover.mp (hpoint i.start ⟨Nat.le_refl _, hi⟩)
    rcases mem_cons.mp hk with rfl | hk
    · exact hle
    · have := hnext k hk
      omega
  · intro hstart
    by_contra hlt
    obtain ⟨k, hk, hle, hfinish⟩ := mem_cover.mp (hpoint j.finish (by omega))
    rcases mem_cons.mp hk with rfl | hk
    · omega
    · have := hnext k hk
      omega

theorem Separated.eq_of_cover (h : Separated l) (h' : Separated l') (hvalid : ∀ i ∈ l, i.start < i.finish)
    (hvalid' : ∀ i ∈ l', i.start < i.finish) (hcover : cover l = cover l') : l = l' := by
  have hempty (i : Interval) (l : List Interval) (hi : i.start < i.finish) : cover (i :: l) ≠ ∅ :=
    Finset.ne_empty_of_mem (mem_cover.mpr ⟨i, mem_cons_self, Nat.le_refl _, hi⟩)
  induction l generalizing l' with
  | nil =>
    cases l' with
    | nil => rfl
    | cons j l' => exact absurd hcover.symm (hempty j l' (hvalid' j mem_cons_self))
  | cons i l ih =>
    cases l' with
    | nil => exact absurd hcover (hempty i l (hvalid i mem_cons_self))
    | cons j l' =>
      obtain ⟨hle, hfinish⟩ := head_le (hvalid i mem_cons_self) h' hvalid' hcover
      obtain ⟨hle', hfinish'⟩ := head_le (hvalid' j mem_cons_self) h hvalid hcover.symm
      have hstart : i.start = j.start := Nat.le_antisymm hle' hle
      obtain rfl : i = j := by
        cases i
        cases j
        exact Interval.mk.injEq .. ▸ ⟨hstart, Nat.le_antisymm (hfinish hstart) (hfinish' hstart.symm)⟩
      have htail : cover l = cover l' := by rw [h.cover_tail, h'.cover_tail, hcover]
      rw [ih (pairwise_cons.mp h).2 (pairwise_cons.mp h').2 (forall_mem_cons.mp hvalid).2
        (forall_mem_cons.mp hvalid').2 htail]

theorem sum_card_le {ι : Type*} [DecidableEq ι] (s : Finset ι) (f : ι → Finset ℕ) {first last : ℕ}
    (hdisjoint : ∀ i ∈ s, ∀ j ∈ s, i ≠ j → Disjoint (f i) (f j)) (hwithin : ∀ i ∈ s, f i ⊆ Finset.Ico first last) :
    ∑ i ∈ s, (f i).card ≤ last - first := by
  rw [← Finset.card_biUnion hdisjoint, ← Nat.card_Ico]
  exact Finset.card_le_card (Finset.biUnion_subset.mpr hwithin)

end Interval

end Lib
