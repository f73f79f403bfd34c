import Mathlib.Algebra.BigOperators.Group.Finset.Piecewise
import Mathlib.Algebra.Order.BigOperators.Group.Finset
import Mathlib.Tactic.Abel

/-!
# Tables of slots

A table is a total function from slot numbers; a scan visits the slots below a bound in order.

* `scan n p` is the first slot below `n` that meets `p` (`scan_some`, `scan_none`, `scan_of_unique`);
* a total over the slots changes by the written slot only (`sum_update`, `sum_update_le`);
* a total over a list of slots, of what some of them have (`sum_map_mem`, `sum_filterMap`).
-/

namespace Lib

open List

variable {α : Type*}

/-! ## Scanning -/

/-- The first slot below `n` that meets `p`. -/
def scan (n : ℕ) (p : ℕ → Bool) : Option ℕ := (range n).find? p

theorem scan_some {n i : ℕ} {p : ℕ → Bool} (h : scan n p = some i) :
    i < n ∧ p i = true ∧ ∀ j, j < i → p j = false := by
  obtain ⟨hp, as, bs, hr, has⟩ := find?_eq_some_iff_append.mp h
  have hi : as.length = i := by
    have hl : as.length < n := by
      have := congrArg length hr
      simp only [length_range, length_append, length_cons] at this
      omega
    have := congrArg (·[as.length]?) hr
    simpa [getElem?_range hl] using this
  have hmem : i ∈ range n := by rw [hr]; simp
  refine ⟨mem_range.mp hmem, hp, fun j hj => ?_⟩
  have hja : j ∈ as := by
    have hget : (range n)[j]? = as[j]? := by rw [hr, getElem?_append_left (by omega)]
    rw [getElem?_range (by have := mem_range.mp hmem; omega)] at hget
    exact mem_of_getElem? hget.symm
  simpa using has j hja

theorem scan_none {n : ℕ} {p : ℕ → Bool} (h : scan n p = none) {j : ℕ} (hj : j < n) : p j = false := by
  have := find?_eq_none.mp h j (mem_range.mpr hj)
  simpa using this

theorem scan_of_unique {n i : ℕ} {p : ℕ → Bool} (hi : i < n) (hp : p i = true)
    (hu : ∀ j, p j = true → j = i) : scan n p = some i := by
  cases h : scan n p with
  | none => rw [scan_none h hi] at hp; cases hp
  | some j => rw [hu j (scan_some h).2.1]

/-! ## Totals -/

theorem sum_update_mem {ι : Type*} [DecidableEq ι] (s : Finset ι) (f : ι → α) (g : α → ℕ) (v : α) {i : ι}
    (hi : i ∈ s) : ∑ j ∈ s, g (Function.update f i v j) + g (f i) = ∑ j ∈ s, g (f j) + g v := by
  have hnew := Finset.sum_update_of_mem hi (g ∘ f) (g v)
  have hold := Finset.sum_eq_add_sum_sdiff_singleton_of_mem hi (g ∘ f)
  simp only [← Function.comp_update, Function.comp_apply] at hnew hold
  omega

theorem sum_map_mem {ι M : Type*} [DecidableEq ι] [AddCommMonoid M] {slots some : List ι} (hslots : slots.Nodup)
    (hsome : some.Nodup) (hsub : some ⊆ slots) (g : ι → M) :
    (slots.map fun i => if i ∈ some then g i else 0).sum = (some.map g).sum := by
  rw [← sum_toFinset _ hslots, ← sum_toFinset _ hsome]
  have hfilter : slots.toFinset.filter (· ∈ some) = some.toFinset := by
    ext i
    simp only [Finset.mem_filter, mem_toFinset]
    exact ⟨And.right, fun hi => ⟨hsub hi, hi⟩⟩
  rw [← Finset.sum_filter, hfilter]

theorem sum_filterMap {ι M : Type*} [AddCommMonoid M] (slots : List ι) (f : ι → Option α) (g : α → M) :
    ((slots.filterMap f).map g).sum = (slots.map fun i => ((f i).map g).getD 0).sum := by
  induction slots with
  | nil => rfl
  | cons i slots ih =>
    rw [map_cons, sum_cons, ← ih]
    cases h : f i with
    | none => rw [filterMap_cons_none h]; exact (zero_add _).symm
    | some a => rw [filterMap_cons_some h]; rfl

theorem sum_update_sub {ι M : Type*} [DecidableEq ι] [AddCommGroup M] (s : Finset ι) (f : ι → α) (g : α → M) (v : α)
    {i : ι} (hi : i ∈ s) : ∑ j ∈ s, g (Function.update f i v j) = ∑ j ∈ s, g (f j) + (g v - g (f i)) := by
  have hnew := Finset.sum_update_of_mem hi (g ∘ f) (g v)
  have hold := Finset.sum_eq_add_sum_sdiff_singleton_of_mem hi (g ∘ f)
  simp only [← Function.comp_update, Function.comp_apply] at hnew hold
  rw [hnew, hold]
  abel

theorem sum_update (f : ℕ → α) (g : α → ℕ) (i : ℕ) (v : α) {n : ℕ} (hi : i < n) :
    ∑ j ∈ Finset.range n, g (Function.update f i v j) + g (f i) = ∑ j ∈ Finset.range n, g (f j) + g v :=
  sum_update_mem _ f g v (Finset.mem_range.mpr hi)

theorem sum_update_le (f : ℕ → α) (g : ℕ → α → ℕ) (i : ℕ) (v : α) {k : ℕ} (n : ℕ) (h : g i v ≤ g i (f i) + k) :
    ∑ j ∈ Finset.range n, g j (Function.update f i v j) ≤ ∑ j ∈ Finset.range n, g j (f j) + k := by
  have hslot : ∀ j ∈ Finset.range n, g j (Function.update f i v j) ≤ g j (f j) + if j = i then k else 0 := by
    intro j _
    by_cases hj : j = i
    · rwa [hj, Function.update_self, if_pos rfl]
    · rw [Function.update_of_ne hj, if_neg hj, Nat.add_zero]
  have hone : ∑ j ∈ Finset.range n, (if j = i then k else 0) ≤ k := by
    rw [Finset.sum_ite_eq']
    split
    · exact Nat.le_refl k
    · exact Nat.zero_le k
  calc ∑ j ∈ Finset.range n, g j (Function.update f i v j)
      ≤ ∑ j ∈ Finset.range n, (g j (f j) + if j = i then k else 0) := Finset.sum_le_sum hslot
    _ = ∑ j ∈ Finset.range n, g j (f j) + ∑ j ∈ Finset.range n, (if j = i then k else 0) := Finset.sum_add_distrib
    _ ≤ ∑ j ∈ Finset.range n, g j (f j) + k := Nat.add_le_add_left hone _

theorem le_sum (f : ℕ → ℕ) {i n : ℕ} (hi : i < n) : f i ≤ ∑ j ∈ Finset.range n, f j :=
  Finset.single_le_sum (fun _ _ => Nat.zero_le _) (Finset.mem_range.mpr hi)

theorem sum_extend (f : ℕ → ℕ) {m n : ℕ} (h : ∀ j, m ≤ j → f j = 0) (hmn : m ≤ n) :
    ∑ j ∈ Finset.range n, f j = ∑ j ∈ Finset.range m, f j := by
  refine (Finset.sum_subset (Finset.range_mono hmn) fun j _ hj => h j ?_).symm
  simpa using hj

end Lib
