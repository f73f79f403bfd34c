import Mathlib.Data.Finset.Card

/-!
# Numbering the elements of a set

A function of `0, 1, 2, …` numbers the elements of a finite set in an order if it gives each of them once, the earlier
ones first, and nothing after the last one (`Numbers`). The places of a list without repetitions do (`Numbers.of_list`).
-/

namespace Lib

variable {α : Type*} {f : ℕ → Option α} {s : Finset α} {r : α → α → Prop} {l : List α}

/-- `f` gives the elements of `s` one by one in the order `r`, and then nothing. -/
structure Numbers (f : ℕ → Option α) (s : Finset α) (r : α → α → Prop) : Prop where
  bijOn : Set.BijOn f (Set.Iio s.card) (some '' (s : Set α))
  ordered : ∀ m n a b, m < n → f m = some a → f n = some b → r a b
  beyond : ∀ n, s.card ≤ n → f n = none

theorem card_eq_length_of_mem_iff (hl : l.Nodup) (hs : ∀ a, a ∈ l ↔ a ∈ s) : s.card = l.length := by
  classical
  have heq : l.toFinset = s := Finset.ext fun a => List.mem_toFinset.trans (hs a)
  rw [← heq]
  exact List.toFinset_card_of_nodup hl

theorem Numbers.of_list (hl : l.Nodup) (hs : ∀ a, a ∈ l ↔ a ∈ s) (hr : l.Pairwise r) (hf : ∀ n, f n = l[n]?) :
    Numbers f s r := by
  have hcard : s.card = l.length := card_eq_length_of_mem_iff hl hs
  refine ⟨⟨fun n hn => ?_, fun m hm n hn heq => ?_, fun a ha => ?_⟩, fun m n a b hmn hm hn => ?_, fun n hn => ?_⟩
  · have hlt : n < l.length := hcard ▸ hn
    exact ⟨l[n], (hs _).mp (List.getElem_mem hlt), by rw [hf, List.getElem?_eq_getElem hlt]⟩
  · have hlt : m < l.length := hcard ▸ hm
    rw [hf, hf] at heq
    exact (List.getElem?_inj hlt hl).mp heq
  · obtain ⟨c, hc, rfl⟩ := ha
    obtain ⟨n, hlt, hget⟩ := List.getElem_of_mem ((hs c).mpr hc)
    exact ⟨n, hcard ▸ hlt, by rw [hf, List.getElem?_eq_getElem hlt, hget]⟩
  · rw [hf] at hm hn
    obtain ⟨hltm, rfl⟩ := List.getElem?_eq_some_iff.mp hm
    obtain ⟨hltn, rfl⟩ := List.getElem?_eq_some_iff.mp hn
    exact List.pairwise_iff_getElem.mp hr m n hltm hltn hmn
  · rw [hf]
    exact List.getElem?_eq_none (hcard ▸ hn)

end Lib
