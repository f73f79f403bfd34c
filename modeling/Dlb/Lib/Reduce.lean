import Mathlib.Algebra.BigOperators.Ring.List
import Mathlib.Algebra.Order.BigOperators.Group.List
import Mathlib.Algebra.Order.Field.Basic
import Mathlib.Data.List.Induction

/-!
# Reductions

A collective reduction combines the contributions of its participants with a binary operation. The participants are in
a fixed order, and how the combinations are nested is up to the implementation: `Reduces op l x` says that `x` is the
result of some nesting. Where the operation is declared to be commutative, the order is up to the implementation as
well (`ReducesComm`).

What does not depend on the choice is found from what one combination does to a field:

* `Reduces.closed`: what holds of every contribution and is kept by a combination holds of the result;
* `Reduces.view`, `Reduces.viewOn`: a field that combinations combine is itself reduced;
* `Reduces.eq_sum`, `Reduces.le_iff`: sums and maxima;
* `Reduces.leastNonzero`: a minimum that takes zero as absent (`LeastNonzero.iff_someNonzero`);
* `exists_div_le_mean`: the least of some quotients is not above their weighted mean.
-/

namespace Lib

open List

variable {α β : Type*} {op : α → α → α} {k : β → β → β} {l : List α} {x : α} {f : α → β}

/-- `x` is a result of combining the members of the list in their order. -/
inductive Reduces (op : α → α → α) : List α → α → Prop where
  | single (a : α) : Reduces op [a] a
  | combine {l r : List α} {a b : α} : Reduces op l a → Reduces op r b → Reduces op (l ++ r) (op a b)

/-- `x` is a result of combining the members of the list in any order. -/
def ReducesComm (op : α → α → α) (l : List α) (x : α) : Prop := ∃ m, m.Perm l ∧ Reduces op m x

theorem Reduces.ne_nil (h : Reduces op l x) : l ≠ [] := by
  induction h with
  | single a => exact cons_ne_nil a []
  | combine _ _ ihl _ => exact append_ne_nil_of_left_ne_nil ihl _

theorem ReducesComm.ne_nil (h : ReducesComm op l x) : l ≠ [] := by
  obtain ⟨m, hm, hr⟩ := h
  rintro rfl
  exact hr.ne_nil (perm_nil.mp hm)

theorem Reduces.foldl (op : α → α → α) (a : α) (l : List α) : Reduces op (a :: l) (l.foldl op a) := by
  induction l using reverseRecOn with
  | nil => exact .single a
  | append_singleton l b ih => simpa using Reduces.combine ih (.single b)

theorem Reduces.comm (h : Reduces op l x) : ReducesComm op l x := ⟨l, .refl l, h⟩

/-! ## Fields -/

theorem Reduces.closed {P : α → Prop} (h : Reduces op l x) (hop : ∀ a b, P a → P b → P (op a b))
    (hl : ∀ a ∈ l, P a) : P x := by
  induction h with
  | single a => exact hl a mem_cons_self
  | combine _ _ ihl ihr =>
    exact hop _ _ (ihl fun a ha => hl a (mem_append_left _ ha))
      (ihr fun a ha => hl a (mem_append_right _ ha))

theorem Reduces.viewOn {P : α → Prop} (h : Reduces op l x) (hP : ∀ a b, P a → P b → P (op a b))
    (hl : ∀ a ∈ l, P a) (hop : ∀ a b, P a → P b → f (op a b) = k (f a) (f b)) :
    Reduces k (l.map f) (f x) := by
  induction h with
  | single a => exact .single (f a)
  | combine hleft hright ihl ihr =>
    obtain ⟨hll, hlr⟩ := forall_mem_append.mp hl
    rw [map_append, hop _ _ (hleft.closed hP hll) (hright.closed hP hlr)]
    exact .combine (ihl hll) (ihr hlr)

theorem Reduces.view (h : Reduces op l x) (hop : ∀ a b, f (op a b) = k (f a) (f b)) :
    Reduces k (l.map f) (f x) :=
  h.viewOn (P := fun _ => True) (fun _ _ _ _ => trivial) (fun _ _ => trivial) fun a b _ _ => hop a b

theorem ReducesComm.view (h : ReducesComm op l x) (hop : ∀ a b, f (op a b) = k (f a) (f b)) :
    ReducesComm k (l.map f) (f x) := by
  obtain ⟨m, hm, hr⟩ := h
  exact ⟨m.map f, hm.map f, hr.view hop⟩

/-! ## Sums and maxima -/

theorem Reduces.eq_sum [AddMonoid α] (h : Reduces (· + ·) l x) : x = l.sum := by
  induction h with
  | single a => simp
  | combine _ _ ihl ihr => rw [sum_append, ihl, ihr]

theorem ReducesComm.eq_sum [AddCommMonoid α] (h : ReducesComm (· + ·) l x) : x = l.sum := by
  obtain ⟨m, hm, hr⟩ := h
  rw [hr.eq_sum, hm.sum_eq]

theorem Reduces.le_iff [SemilatticeSup α] (h : Reduces (· ⊔ ·) l x) (c : α) : x ≤ c ↔ ∀ a ∈ l, a ≤ c := by
  induction h with
  | single a => simp
  | combine _ _ ihl ihr => rw [sup_le_iff, ihl, ihr, forall_mem_append]

theorem ReducesComm.le_iff [SemilatticeSup α] (h : ReducesComm (· ⊔ ·) l x) (c : α) :
    x ≤ c ↔ ∀ a ∈ l, a ≤ c := by
  obtain ⟨m, hm, hr⟩ := h
  rw [hr.le_iff]
  exact forall_congr' fun a => imp_congr_left hm.mem_iff

/-! ## A minimum without zeros -/

section Nonzero

variable [Zero α] [LinearOrder α]

/-- The minimum of two values, where zero stands for an absent one. -/
def minNonzero (a b : α) : α := if a = 0 then b else if b = 0 then a else min a b

/-- `x` is the least nonzero member of the list, or zero where there is none. -/
def LeastNonzero (l : List α) (x : α) : Prop :=
  (x = 0 ∧ ∀ s ∈ l, s = 0) ∨ (x ≠ 0 ∧ x ∈ l ∧ ∀ s ∈ l, s ≠ 0 → x ≤ s)

/-- Some nonzero member of the list, if there is any, satisfies `p`. -/
def SomeNonzero (l : List α) (p : α → Prop) : Prop := (∀ s ∈ l, s = 0) ∨ ∃ s ∈ l, s ≠ 0 ∧ p s

theorem LeastNonzero.append {l r : List α} {x y : α} (hx : LeastNonzero l x) (hy : LeastNonzero r y) :
    LeastNonzero (l ++ r) (minNonzero x y) := by
  unfold LeastNonzero
  rw [forall_mem_append, forall_mem_append, mem_append]
  obtain ⟨rfl, hl⟩ | ⟨hx0, hxl, hl⟩ := hx
  · rw [minNonzero, if_pos rfl]
    obtain ⟨rfl, hr⟩ | ⟨hy0, hyr, hr⟩ := hy
    · exact .inl ⟨rfl, hl, hr⟩
    · exact .inr ⟨hy0, .inr hyr, fun s hs hs0 => absurd (hl s hs) hs0, hr⟩
  · rw [minNonzero, if_neg hx0]
    obtain ⟨rfl, hr⟩ | ⟨hy0, hyr, hr⟩ := hy
    · rw [if_pos rfl]
      exact .inr ⟨hx0, .inl hxl, hl, fun s hs hs0 => absurd (hr s hs) hs0⟩
    · rw [if_neg hy0]
      have hmem : min x y ∈ l ∨ min x y ∈ r := by
        rcases min_choice x y with h | h <;> rw [h]
        exacts [.inl hxl, .inr hyr]
      have hne : min x y ≠ 0 := by rcases min_choice x y with h | h <;> rwa [h]
      exact .inr ⟨hne, hmem, fun s hs hs0 => (min_le_left x y).trans (hl s hs hs0),
        fun s hs hs0 => (min_le_right x y).trans (hr s hs hs0)⟩

theorem Reduces.leastNonzero {l : List α} {x : α} (h : Reduces minNonzero l x) : LeastNonzero l x := by
  induction h with
  | single a =>
    by_cases ha : a = 0
    · exact .inl ⟨ha, by simp [ha]⟩
    · exact .inr ⟨ha, by simp, by simp⟩
  | combine _ _ ihl ihr => exact ihl.append ihr

theorem LeastNonzero.congr {l m : List α} {x : α} (h : LeastNonzero l x) (hm : ∀ s, s ≠ 0 → (s ∈ m ↔ s ∈ l)) :
    LeastNonzero m x := by
  obtain ⟨rfl, hl⟩ | ⟨hx, hmem, hl⟩ := h
  · refine .inl ⟨rfl, fun s hs => ?_⟩
    by_contra hs0
    exact hs0 (hl s ((hm s hs0).mp hs))
  · exact .inr ⟨hx, (hm x hx).mpr hmem, fun s hs hs0 => hl s ((hm s hs0).mp hs) hs0⟩

theorem ReducesComm.leastNonzero {l : List α} {x : α} (h : ReducesComm minNonzero l x) : LeastNonzero l x := by
  obtain ⟨m, hm, hr⟩ := h
  exact hr.leastNonzero.congr fun s _ => hm.mem_iff.symm

theorem LeastNonzero.iff_someNonzero {l : List α} {x : α} {p : α → Prop} (h : LeastNonzero l x)
    (hp : ∀ a b, a ≤ b → p b → p a) (h0 : p 0) : p x ↔ SomeNonzero l p := by
  obtain ⟨rfl, hl⟩ | ⟨hx, hmem, hl⟩ := h
  · exact iff_of_true h0 (.inl hl)
  · refine ⟨fun h => .inr ⟨x, hmem, hx, h⟩, ?_⟩
    rintro (hall | ⟨s, hs, hs0, hps⟩)
    · exact absurd (hall x hmem) hx
    · exact hp x s (hl s hs hs0) hps

end Nonzero

/-! ## Means -/

theorem exists_div_le_mean {ι K : Type*} [Field K] [LinearOrder K] [IsStrictOrderedRing K] {l : List ι} {m w : ι → K}
    (hl : l ≠ []) (hw : ∀ i ∈ l, 0 < w i) : ∃ i ∈ l, m i / w i ≤ (l.map m).sum / (l.map w).sum := by
  by_contra hall
  push Not at hall
  have hsum : 0 < (l.map w).sum :=
    sum_pos _ (fun x hx => by obtain ⟨i, hi, rfl⟩ := mem_map.mp hx; exact hw i hi) (by simpa using hl)
  have hlt : (l.map fun i => (l.map m).sum / (l.map w).sum * w i).sum < (l.map m).sum :=
    sum_lt_sum_of_ne_nil hl _ _ fun i hi => (lt_div_iff₀ (hw i hi)).mp (hall i hi)
  rw [sum_map_mul_left, div_mul_cancel₀ _ hsum.ne'] at hlt
  exact lt_irrefl _ hlt

end Lib
