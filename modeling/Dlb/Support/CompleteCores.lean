import Dlb.Support.SystemFilesSpec
import Mathlib.Data.List.GetD

/-!
# Complete cores

`mu_count_cores`, `mu_get_last_coreid` and `mu_take_last_coreid` work on the cores that are in a mask with all their
CPUs. They take an unused slot of the table for such a core, since the empty mask is a subset of every mask.

* `takes_end`: taking one core after the other, the cores run out.
-/

namespace Dlb

open List

variable (S : System) (mask : CpuSet)

/-- `mu_xor` -/
def muXor (result mask1 mask2 : CpuSet) : CpuSet := S.write result (symmDiff mask1 mask2)

/-- `core_masks_by_coreid[coreid]` -/
def coreMask (coreid : ℕ) : CpuSet := S.cores.getD coreid ∅

/-- `mu_get_last_coreid`; `none` is `-1`. -/
def muGetLastCoreid : Option ℕ :=
  (range S.cores.length).reverse.find? fun coreid => muIsSubset S (coreMask S coreid) mask

/-- `mu_take_last_coreid`, with the mask that it leaves. -/
def muTakeLastCoreid : Option ℕ × CpuSet :=
  match muGetLastCoreid S mask with
  | none => (none, mask)
  | some coreid => (some coreid, muXor S mask mask (coreMask S coreid))

/-- The ids of the cores that are in the mask with all their CPUs. -/
def completeCores : Finset ℕ := {i ∈ Finset.range S.cores.length | (coreMask S i).Nonempty ∧ coreMask S i ⊆ mask}

/-- The mask after some calls of `mu_take_last_coreid`. -/
def takes (n : ℕ) : CpuSet := (fun mask => (muTakeLastCoreid S mask).2)^[n] mask

/-- The functions count, find and remove the complete cores: a call takes the last one, and after as many calls as there
are complete cores they return `-1`. -/
structure CoreArithmetic : Prop where
  count : muCountCores S mask = (completeCores S mask).card
  take : completeCores S mask = ∅ ∧ muTakeLastCoreid S mask = (none, mask) ∨
    ∃ i, IsGreatest (completeCores S mask : Set ℕ) i ∧ muTakeLastCoreid S mask = (some i, mask \ coreMask S i) ∧
      muCountCores S (mask \ coreMask S i) + 1 = muCountCores S mask
  ends : ∀ n, (muTakeLastCoreid S (takes S mask n)).1 = none ↔ muCountCores S mask ≤ n

section Cores

variable {S mask}

theorem find?_reverse_range {p : ℕ → Bool} {n i : ℕ} (h : (range n).reverse.find? p = some i) :
    i < n ∧ p i ∧ ∀ j < n, p j → j ≤ i := by
  induction n with
  | zero => simp at h
  | succ n ih =>
    rw [range_succ, reverse_append, reverse_singleton, singleton_append, find?_cons] at h
    cases hp : p n with
    | true =>
      rw [hp] at h
      obtain rfl := Option.some.inj h
      exact ⟨Nat.lt_succ_self _, hp, fun j hj _ => Nat.le_of_lt_succ hj⟩
    | false =>
      rw [hp] at h
      obtain ⟨hi, hpi, hmax⟩ := ih h
      refine ⟨hi.trans (Nat.lt_succ_self n), hpi, fun j hj hpj => ?_⟩
      rcases Nat.lt_succ_iff_lt_or_eq.mp hj with hj | rfl
      · exact hmax j hj hpj
      · rw [hp] at hpj
        cases hpj

theorem length_filter_eq_card {α : Type*} (l : List α) (d : α) (p : α → Bool) :
    (l.filter p).length = {i ∈ Finset.range l.length | p (l.getD i d)}.card := by
  have hl : l = (range l.length).map fun i => l.getD i d := by
    refine ext_getElem (by simp) fun i hi _ => ?_
    simp [hi]
  have hp : (fun i => decide (p (l.getD i d) = true)) = p ∘ fun i => l.getD i d := funext fun _ => Bool.decide_eq_true
  conv_lhs => rw [hl, filter_map, length_map, ← hp]
  rfl

theorem coreMask_subset {i : ℕ} (hi : i < S.cores.length) : coreMask S i ⊆ S.sysMask := by
  rw [coreMask, getD_eq_getElem _ _ hi]
  exact S.covered _ (getElem_mem hi)

theorem muIsSubset_core {i : ℕ} (hi : i < S.cores.length) : muIsSubset S (coreMask S i) mask = decide (coreMask S i ⊆ mask) := by
  have hfits : {c ∈ coreMask S i | c < S.bits} = coreMask S i :=
    Finset.filter_true_of_mem fun c hc => System.lt_bits (coreMask_subset hi hc)
  rw [muIsSubset, hfits]

theorem coreMask_disjoint {i j : ℕ} (hi : i < S.cores.length) (hj : j < S.cores.length) (hne : i ≠ j) :
    Disjoint (coreMask S i) (coreMask S j) := by
  have hpair := pairwise_iff_getElem.mp S.disjoint
  rw [coreMask, coreMask, getD_eq_getElem _ _ hi, getD_eq_getElem _ _ hj]
  rcases Nat.lt_or_gt_of_ne hne with hlt | hgt
  · exact hpair i j hi hj hlt
  · exact (hpair j i hj hi hgt).symm

theorem muCountCores_eq : muCountCores S mask = {i ∈ Finset.range S.cores.length | coreMask S i ⊆ mask}.card := by
  rw [muCountCores, length_filter_eq_card S.cores ∅]
  refine congrArg Finset.card (Finset.filter_congr fun i hi => ?_)
  rw [← coreMask, muIsSubset_core (Finset.mem_range.mp hi), decide_eq_true_eq]

theorem mem_completeCores {i : ℕ} :
    i ∈ completeCores S mask ↔ i < S.cores.length ∧ (coreMask S i).Nonempty ∧ coreMask S i ⊆ mask := by
  rw [completeCores, Finset.mem_filter, Finset.mem_range]

theorem muCountCores_eq_card_iff : muCountCores S mask = (completeCores S mask).card ↔ ∅ ∉ S.cores := by
  have hsub : completeCores S mask ⊆ {i ∈ Finset.range S.cores.length | coreMask S i ⊆ mask} := fun i hi => by
    have h := mem_completeCores.mp hi
    exact Finset.mem_filter.mpr ⟨Finset.mem_range.mpr h.1, h.2.2⟩
  rw [muCountCores_eq]
  constructor
  · intro hcard hempty
    obtain ⟨i, hi, heq⟩ := mem_iff_getElem.mp hempty
    have hmask : coreMask S i = ∅ := by rw [coreMask, getD_eq_getElem _ _ hi, heq]
    have hmem : i ∈ ({i ∈ Finset.range S.cores.length | coreMask S i ⊆ mask} : Finset ℕ) :=
      Finset.mem_filter.mpr ⟨Finset.mem_range.mpr hi, hmask ▸ Finset.empty_subset _⟩
    rw [← Finset.eq_of_subset_of_card_le hsub hcard.le, mem_completeCores, hmask] at hmem
    exact Finset.not_nonempty_empty hmem.2.1
  · intro hused
    refine congrArg Finset.card (Finset.Subset.antisymm (fun i hi => ?_) hsub)
    obtain ⟨hi, hin⟩ := Finset.mem_filter.mp hi
    rw [Finset.mem_range] at hi
    refine mem_completeCores.mpr ⟨hi, Finset.nonempty_iff_ne_empty.mpr fun hempty => hused ?_, hin⟩
    rw [← hempty, coreMask, getD_eq_getElem _ _ hi]
    exact getElem_mem hi

variable (hused : ∅ ∉ S.cores)

include hused in
theorem coreMask_nonempty {i : ℕ} (hi : i < S.cores.length) : (coreMask S i).Nonempty := by
  refine Finset.nonempty_iff_ne_empty.mpr fun hempty => hused ?_
  rw [← hempty, coreMask, getD_eq_getElem _ _ hi]
  exact getElem_mem hi

theorem completeCores_sdiff {i : ℕ} (hi : i ∈ completeCores S mask) :
    completeCores S (mask \ coreMask S i) = (completeCores S mask).erase i := by
  obtain ⟨hlen, -, -⟩ := mem_completeCores.mp hi
  ext j
  rw [Finset.mem_erase, mem_completeCores, mem_completeCores]
  constructor
  · rintro ⟨hj, hne, hsub⟩
    refine ⟨?_, hj, hne, hsub.trans Finset.sdiff_subset⟩
    rintro rfl
    obtain ⟨c, hc⟩ := hne
    exact (Finset.mem_sdiff.mp (hsub hc)).2 hc
  · rintro ⟨hji, hj, hne, hsub⟩
    exact ⟨hj, hne, Finset.subset_sdiff.mpr ⟨hsub, coreMask_disjoint hj hlen hji⟩⟩

include hused in
theorem muTakeLastCoreid_takes : completeCores S mask = ∅ ∧ muTakeLastCoreid S mask = (none, mask) ∨
    ∃ i, IsGreatest (completeCores S mask : Set ℕ) i ∧ muTakeLastCoreid S mask = (some i, mask \ coreMask S i) ∧
      muCountCores S (mask \ coreMask S i) + 1 = muCountCores S mask := by
  have hmem {i : ℕ} (hi : i < S.cores.length) : muIsSubset S (coreMask S i) mask = true ↔ i ∈ completeCores S mask := by
    rw [muIsSubset_core hi, decide_eq_true_eq, mem_completeCores]
    exact ⟨fun h => ⟨hi, coreMask_nonempty hused hi, h⟩, fun h => h.2.2⟩
  unfold muTakeLastCoreid
  cases hlast : muGetLastCoreid S mask with
  | none =>
    refine .inl ⟨Finset.eq_empty_of_forall_notMem fun i hi => ?_, rfl⟩
    have hlen := (mem_completeCores.mp hi).1
    have hno := find?_eq_none.mp hlast i (mem_reverse.mpr (mem_range.mpr hlen))
    exact hno ((hmem hlen).mpr hi)
  | some i =>
    obtain ⟨hlen, hsub, hmax⟩ := find?_reverse_range hlast
    have hi := (hmem hlen).mp hsub
    refine .inr ⟨i, ⟨hi, fun j hj => ?_⟩, ?_, ?_⟩
    · have hj' := (mem_completeCores.mp hj).1
      exact hmax j hj' ((hmem hj').mpr hj)
    · have hin : coreMask S i ⊆ mask := (mem_completeCores.mp hi).2.2
      refine Prod.ext rfl ?_
      ext c
      have hbits : c ∈ coreMask S i → c < S.bits := fun hc => System.lt_bits (coreMask_subset hlen hc)
      simp only [muXor, System.write, Finset.mem_union, Finset.mem_filter, Finset.mem_symmDiff, Finset.mem_sdiff]
      have hcases : c < S.bits ∨ S.bits ≤ c := lt_or_ge c S.bits
      have hnot : c < S.bits → ¬S.bits ≤ c := not_le_of_gt
      tauto
    · rw [muCountCores_eq_card_iff.mpr hused, muCountCores_eq_card_iff.mpr hused, completeCores_sdiff hi,
        Finset.card_erase_add_one hi]

include hused in
theorem takes_end (n : ℕ) : (muTakeLastCoreid S (takes S mask n)).1 = none ↔ muCountCores S mask ≤ n := by
  induction n generalizing mask with
  | zero =>
    rw [takes, Function.iterate_zero_apply, Nat.le_zero]
    have htakes := @muTakeLastCoreid_takes S mask hused
    rcases htakes with ⟨hempty, htake⟩ | ⟨i, -, htake, hcount⟩
    · rw [htake, muCountCores_eq_card_iff.mpr hused, hempty]
      simp
    · rw [htake]
      refine iff_of_false (fun h => nomatch h) (by omega)
  | succ n ih =>
    rw [takes, Function.iterate_succ_apply, ← takes]
    have htakes := @muTakeLastCoreid_takes S mask hused
    rcases htakes with ⟨hempty, htake⟩ | ⟨i, -, htake, hcount⟩
    · have hzero : muCountCores S mask = 0 := by rw [muCountCores_eq_card_iff.mpr hused, hempty, Finset.card_empty]
      rw [htake, ih, hzero]
      simp
    · rw [htake, ih]
      dsimp only
      omega

end Cores

/-- **Complete cores.** Counting, finding and removing them is right for a mask if and only if no slot of the table of
cores is empty. -/
theorem coreArithmetic_iff (S : System) (mask : CpuSet) : CoreArithmetic S mask ↔ ∅ ∉ S.cores :=
  ⟨fun h => muCountCores_eq_card_iff.mp h.count, fun hused =>
    ⟨muCountCores_eq_card_iff.mpr hused, muTakeLastCoreid_takes hused, takes_end hused⟩⟩

theorem nodeZero_ids : ∀ n ∈ ({0} : Finset ℕ), n ≤ 1024 := by decide

/-- Two cores, with the core ids `0` and `2`. -/
def spacedIds : Topology 4 where
  cpus := Finset.range 4
  nonempty := by decide
  fits := by decide
  coreId := fun c => c / 2 * 2
  siblings := fun c => {c / 2 * 2, c / 2 * 2 + 1}
  self := by decide
  inside := by decide
  share := by decide
  nodes := {0}
  nodeMask := fun _ => Finset.range 4
  nodeIds := nodeZero_ids

/-- The system with the table of cores of that machine. -/
def spacedCores : System where
  sysMask := spacedIds.cpus
  cores := [{0, 1}, ∅, {2, 3}]
  disjoint := by decide
  covered := by decide

/-- The table is read from the system files, and the empty slot counts as a core. -/
theorem empty_slot_counts :
    (parseCores 4 spacedIds.system Lib.insertionStrictQsort ([0, 1, 2, 3].map spacedIds.cpuDir)).map (·.set) =
      spacedCores.cores ∧ ¬CoreArithmetic spacedCores {0, 1, 2, 3} := by
  refine ⟨by decide, fun h => ?_⟩
  exact absurd h.count (by decide)

end Dlb
