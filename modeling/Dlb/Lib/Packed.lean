import Mathlib.Data.List.Basic

/-!
# Packed arrays

An array of a fixed length that holds its entries one behind the other and then a null element: `packed z l n` is the
list `l` with `n` nulls behind it. An entry is added at the first null (`packed_set`); to remove one, the rest moves up
(`packed_eraseIdx`). A search stops at what it looks for or at the first null (`search`), and finds exactly the entries
(`packed_getElem?_search`).
-/

namespace Lib

open List

variable {α : Type*} [DecidableEq α] {z x : α} {l : List α} {n : ℕ}

/-- The entries and then `n` nulls. -/
def packed (z : α) (l : List α) (n : ℕ) : List α := l ++ replicate n z

/-- The first place that holds `x` or the null, or the place behind the last one. -/
def search (z x : α) (l : List α) : ℕ := (l.findIdx? fun y => y = z ∨ y = x).getD l.length

omit [DecidableEq α] in
theorem packed_length : (packed z l n).length = l.length + n := by
  rw [packed, length_append, length_replicate]

omit [DecidableEq α] in
theorem mem_packed (hx : x ≠ z) : x ∈ packed z l n ↔ x ∈ l := by
  rw [packed, mem_append]
  exact or_iff_left fun h => hx (eq_of_mem_replicate h)

theorem packed_findIdx (hz : z ∉ l) : (packed z l n).findIdx (· = z) = l.length := by
  induction l with
  | nil => cases n <;> simp [packed, replicate_succ, findIdx_cons]
  | cons y l ih =>
    obtain ⟨hy, hl⟩ := ne_and_not_mem_of_not_mem_cons hz
    rw [packed, cons_append, findIdx_cons, decide_eq_false (Ne.symm hy), cond_false, length_cons]
    exact congrArg (· + 1) (ih hl)

omit [DecidableEq α] in
theorem packed_set : (packed z l (n + 1)).set l.length x = packed z (l ++ [x]) n := by
  rw [packed, set_append_right _ _ (Nat.le_refl _), Nat.sub_self, replicate_succ, set_cons_zero, packed,
    append_assoc, singleton_append]

theorem search_cons_self : search z x (x :: l) = 0 := by
  rw [search, findIdx?_cons, decide_eq_true (.inr rfl)]
  rfl

theorem search_cons_of_ne {y : α} (hyz : y ≠ z) (hyx : y ≠ x) : search z x (y :: l) = search z x l + 1 := by
  rw [search, search, findIdx?_cons, decide_eq_false (not_or.mpr ⟨hyz, hyx⟩), length_cons,
    if_neg Bool.false_ne_true]
  cases findIdx? (fun y => decide (y = z ∨ y = x)) l <;> rfl

theorem packed_getElem?_search (hz : z ∉ l) (hx : x ≠ z) :
    (packed z l n)[search z x (packed z l n)]? = some x ↔ x ∈ l := by
  induction l with
  | nil =>
    refine iff_of_false (fun h => ?_) not_mem_nil
    exact hx (eq_of_mem_replicate (mem_of_getElem? h))
  | cons y l ih =>
    obtain ⟨hy, hl⟩ := ne_and_not_mem_of_not_mem_cons hz
    rw [packed, cons_append]
    by_cases hyx : y = x
    · subst hyx
      rw [search_cons_self]
      simp
    · rw [search_cons_of_ne (Ne.symm hy) hyx, getElem?_cons_succ, mem_cons]
      exact (ih hl).trans (or_iff_right (Ne.symm hyx)).symm

theorem packed_eraseIdx [BEq α] [LawfulBEq α] (hz : z ∉ l) (hx : x ∈ l) :
    (packed z l n).eraseIdx (search z x (packed z l n)) ++ [z] = packed z (l.erase x) (n + 1) := by
  induction l with
  | nil => exact absurd hx not_mem_nil
  | cons y l ih =>
    obtain ⟨hy, hl⟩ := ne_and_not_mem_of_not_mem_cons hz
    rw [packed, cons_append]
    by_cases hyx : y = x
    · subst hyx
      rw [search_cons_self, eraseIdx_cons_zero, erase_cons_head, packed, append_assoc,
        replicate_succ']
    · have hmem : x ∈ l := (mem_cons.mp hx).resolve_left (Ne.symm hyx)
      rw [search_cons_of_ne (Ne.symm hy) hyx, eraseIdx_cons_succ, erase_cons_tail (by simpa using hyx),
        cons_append, packed, cons_append]
      exact congrArg (y :: ·) (ih hl hmem)

end Lib
