import Mathlib.Data.List.Sort

/-!
# The contract of the C library's `qsort`

`qsort` rearranges the array. It orders it only when the comparison function is consistent on the elements
(`Consistent`); equal elements come in any order. `Qsort` is every function with this contract, so what is proved for
all of them holds for every C library; `insertionQsort` is one that computes.

`StrictQsort` is for comparison functions that find one of two equal elements greater, whichever is asked first. Which
element is less is all that such a function tells (`WeakOrder`), and all that merge sort or insertion sort need.
-/

namespace Lib

open List

/-- A comparison function that is a total preorder on the elements of `l`. -/
structure Consistent {α : Type} (cmp : α → α → ℤ) (l : List α) : Prop where
  total : ∀ a ∈ l, ∀ b ∈ l, cmp a b ≤ 0 ∨ cmp b a ≤ 0
  trans : ∀ a ∈ l, ∀ b ∈ l, ∀ c ∈ l, cmp a b ≤ 0 → cmp b c ≤ 0 → cmp a c ≤ 0

/-- A sorting function with the contract of `qsort`. -/
structure Qsort where
  sort : {α : Type} → (α → α → ℤ) → List α → List α
  perm : ∀ {α : Type} (cmp : α → α → ℤ) (l : List α), (sort cmp l).Perm l
  sorted : ∀ {α : Type} (cmp : α → α → ℤ) (l : List α), Consistent cmp l →
    (sort cmp l).Pairwise fun a b => cmp a b ≤ 0

/-- Insertion sort on the members of `l`. -/
def insertionSort {α : Type} (cmp : α → α → ℤ) (l : List α) : List α :=
  (l.attach.insertionSort fun a b => cmp a.1 b.1 ≤ 0).map Subtype.val

theorem insertionSort_perm {α : Type} (cmp : α → α → ℤ) (l : List α) : (insertionSort cmp l).Perm l := by
  have h := (perm_insertionSort (fun a b : {x // x ∈ l} => cmp a.1 b.1 ≤ 0) l.attach).map Subtype.val
  rwa [attach_map_subtype_val] at h

theorem insertionSort_sorted {α : Type} (cmp : α → α → ℤ) (l : List α) (h : Consistent cmp l) :
    (insertionSort cmp l).Pairwise fun a b => cmp a b ≤ 0 := by
  have : Std.Total (fun a b : {x // x ∈ l} => cmp a.1 b.1 ≤ 0) := ⟨fun a b => h.total a.1 a.2 b.1 b.2⟩
  have : IsTrans {x // x ∈ l} (fun a b => cmp a.1 b.1 ≤ 0) :=
    ⟨fun a b c => h.trans a.1 a.2 b.1 b.2 c.1 c.2⟩
  exact pairwise_map.mpr (pairwise_insertionSort _ l.attach)

def insertionQsort : Qsort where
  sort := insertionSort
  perm := insertionSort_perm
  sorted := insertionSort_sorted

/-- A comparison function that tells which of two elements of `l` is less, up to ties. -/
structure WeakOrder {α : Type} (cmp : α → α → ℤ) (l : List α) : Prop where
  asymm : ∀ a ∈ l, ∀ b ∈ l, cmp a b ≤ 0 → 0 ≤ cmp b a
  trans : ∀ a ∈ l, ∀ b ∈ l, ∀ c ∈ l, 0 ≤ cmp b a → 0 ≤ cmp c b → 0 ≤ cmp c a

/-- A sorting function that puts no element before one that is less, as long as there is an order. -/
structure StrictQsort extends Qsort where
  ordered : ∀ {α : Type} (cmp : α → α → ℤ) (l : List α), WeakOrder cmp l →
    (sort cmp l).Pairwise fun a b => 0 ≤ cmp b a

theorem orderedInsert_ordered {α : Type} {r le : α → α → Prop} [DecidableRel r] (hle : ∀ a b, r a b → le a b)
    (hgt : ∀ a b, ¬r a b → le b a) (htrans : ∀ a b c, le a b → le b c → le a c) (a : α) {l : List α}
    (hl : l.Pairwise le) : (l.orderedInsert r a).Pairwise le := by
  induction l with
  | nil => exact pairwise_singleton le a
  | cons b l ih =>
    obtain ⟨hb, hrest⟩ := pairwise_cons.mp hl
    rw [orderedInsert_cons]
    split
    · rename_i hab
      refine pairwise_cons.mpr ⟨fun x hx => ?_, hl⟩
      rcases mem_cons.mp hx with rfl | hx
      · exact hle _ _ hab
      · exact htrans _ _ _ (hle _ _ hab) (hb x hx)
    · rename_i hab
      refine pairwise_cons.mpr ⟨fun x hx => ?_, ih hrest⟩
      rcases (mem_orderedInsert r).mp hx with rfl | hx
      · exact hgt _ _ hab
      · exact hb x hx

theorem insertionSort_ordered {α : Type} (cmp : α → α → ℤ) (l : List α) (h : WeakOrder cmp l) :
    (insertionSort cmp l).Pairwise fun a b => 0 ≤ cmp b a := by
  refine pairwise_map.mpr ?_
  induction l.attach with
  | nil => exact List.Pairwise.nil
  | cons a rest ih =>
    refine orderedInsert_ordered (fun a b hab => h.asymm a.1 a.2 b.1 b.2 hab) (fun a b hab => ?_)
      (fun a b c => h.trans a.1 a.2 b.1 b.2 c.1 c.2) a ih
    exact (not_le.mp hab).le

def insertionStrictQsort : StrictQsort where
  toQsort := insertionQsort
  ordered := insertionSort_ordered

end Lib
