import Mathlib.Data.Finset.Basic

/-!
# Partitions of a set among holders

`IsPartition U own` says that every element of `U` has exactly one holder. Moving elements from one holder to another
keeps it (`IsPartition.move`).
-/

namespace Lib

variable {ι α : Type*} {U m : Finset α} {own own' : ι → Finset α} {x y : ι}

/-- Every element of `U` has exactly one holder. -/
structure IsPartition (U : Finset α) (own : ι → Finset α) : Prop where
  disjoint : ∀ x y, x ≠ y → Disjoint (own x) (own y)
  cover : ∀ c, c ∈ U ↔ ∃ x, c ∈ own x

theorem IsPartition.subset (h : IsPartition U own) (x : ι) : own x ⊆ U := fun c hc => (h.cover c).mpr ⟨x, hc⟩

theorem IsPartition.notMem (h : IsPartition U own) (hxy : x ≠ y) {c : α} (hc : c ∈ own x) : c ∉ own y :=
  Finset.disjoint_left.mp (h.disjoint x y hxy) hc

theorem IsPartition.move [DecidableEq α] (h : IsPartition U own) (hxy : x ≠ y) (hm : m ⊆ own x) (hx : own' x = own x \ m)
    (hy : own' y = own y ∪ m) (hz : ∀ z, z ≠ x → z ≠ y → own' z = own z) : IsPartition U own' := by
  classical
  -- an element is held by `z` afterwards iff it moved to `z`, or stayed there
  have hmem : ∀ z c, c ∈ own' z ↔ (c ∈ m ∧ z = y) ∨ (c ∉ m ∧ c ∈ own z) := by
    intro z c
    by_cases hzx : z = x
    · subst hzx
      rw [hx, Finset.mem_sdiff]
      tauto
    by_cases hzy : z = y
    · subst hzy
      rw [hy, Finset.mem_union]
      tauto
    · have : c ∈ m → c ∉ own z := fun hc => h.notMem (fun e => hzx e.symm) (hm hc)
      rw [hz z hzx hzy]
      tauto
  constructor
  · intro a b hab
    refine Finset.disjoint_left.mpr fun c hca hcb => ?_
    rw [hmem] at hca hcb
    rcases hca with ⟨hc, rfl⟩ | ⟨hc, hca⟩
    · rcases hcb with ⟨-, rfl⟩ | ⟨hc', -⟩
      · exact hab rfl
      · exact hc' hc
    · rcases hcb with ⟨hc', -⟩ | ⟨-, hcb⟩
      · exact hc hc'
      · exact h.notMem hab hca hcb
  · intro c
    simp only [hmem]
    constructor
    · intro hc
      by_cases hcm : c ∈ m
      · exact ⟨y, .inl ⟨hcm, rfl⟩⟩
      · obtain ⟨z, hz⟩ := (h.cover c).mp hc
        exact ⟨z, .inr ⟨hcm, hz⟩⟩
    · rintro ⟨z, ⟨hc, -⟩ | ⟨-, hc⟩⟩
      · exact h.subset x (hm hc)
      · exact h.subset z hc

theorem IsPartition.congr (h : IsPartition U own) (he : ∀ z, own' z = own z) : IsPartition U own' := by
  have : own' = own := funext he
  rwa [this]

end Lib
