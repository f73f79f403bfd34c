import Mathlib.Order.Lattice

/-!
# Sorted lists as maps

`Entries l m`: the list `l` holds what the map `m` says, in the order of the keys. An entry is put in, or taken out, where
the keys before it are less and those behind it greater.
-/

namespace Lib

open Function List

variable {κ υ : Type*} [LinearOrder κ] {l before between behind : List (κ × υ)} {m : κ → Option υ} {k : κ}

/-- The entries of a map, sorted by their keys. -/
structure Entries (l : List (κ × υ)) (m : κ → Option υ) : Prop where
  sorted : l.Pairwise fun a b => a.1 < b.1
  mem_iff : ∀ k v, (k, v) ∈ l ↔ m k = some v

/-- Where a key belongs in a list of entries: `between` are the entries of the key itself. -/
structure At (k : κ) (before between behind : List (κ × υ)) : Prop where
  less : ∀ e ∈ before, e.1 < k
  same : ∀ e ∈ between, e.1 = k
  greater : ∀ e ∈ behind, k < e.1

namespace Entries

theorem nil : Entries ([] : List (κ × υ)) fun _ => none := ⟨Pairwise.nil, by simp⟩

theorem mem_around (h : Entries (before ++ (between ++ behind)) m) (hat : At k before between behind) {k' : κ}
    (hk : k' ≠ k) (v : υ) : (k', v) ∈ before ∨ (k', v) ∈ behind ↔ m k' = some v := by
  have hnot : (k', v) ∉ between := fun hmem => hk (hat.same _ hmem)
  rw [← h.mem_iff]
  simp [hnot]

theorem sorted_around (h : Entries (before ++ (between ++ behind)) m) :
    (before ++ behind).Pairwise fun a b => a.1 < b.1 :=
  h.sorted.sublist (sublist_append_right between behind |>.append_left before)

theorem put (h : Entries (before ++ (between ++ behind)) m) (hat : At k before between behind) (v : υ) :
    Entries (before ++ (k, v) :: behind) (update m k (some v)) where
  sorted := by
    obtain ⟨hbefore, hbehind, hacross⟩ := pairwise_append.mp h.sorted_around
    refine pairwise_append.mpr ⟨hbefore, pairwise_cons.mpr ⟨hat.greater, hbehind⟩, fun a ha b hb => ?_⟩
    rcases mem_cons.mp hb with rfl | hb
    · exact hat.less a ha
    · exact hacross a ha b hb
  mem_iff k' w := by
    by_cases hk : k' = k
    · subst hk
      have hbefore : (k', w) ∉ before := fun hmem => lt_irrefl _ (hat.less _ hmem)
      have hbehind : (k', w) ∉ behind := fun hmem => lt_irrefl _ (hat.greater _ hmem)
      simp [hbefore, hbehind, eq_comm]
    · rw [update_of_ne hk, ← h.mem_around hat hk]
      simp [hk]

theorem cut (h : Entries (before ++ (between ++ behind)) m) (hat : At k before between behind) :
    Entries (before ++ behind) (update m k none) where
  sorted := h.sorted_around
  mem_iff k' w := by
    rw [mem_append]
    by_cases hk : k' = k
    · subst hk
      have hbefore : (k', w) ∉ before := fun hmem => lt_irrefl _ (hat.less _ hmem)
      have hbehind : (k', w) ∉ behind := fun hmem => lt_irrefl _ (hat.greater _ hmem)
      simp [hbefore, hbehind]
    · rw [update_of_ne hk, ← h.mem_around hat hk]

theorem eq_none (h : Entries (before ++ ([] ++ behind)) m) (hat : At k before [] behind) : m k = none := by
  by_contra hne
  obtain ⟨v, hv⟩ := Option.ne_none_iff_exists'.mp hne
  rcases mem_append.mp ((h.mem_iff k v).mpr hv) with hmem | hmem
  · exact lt_irrefl _ (hat.less _ hmem)
  · exact lt_irrefl _ (hat.greater _ hmem)

end Entries

end Lib
