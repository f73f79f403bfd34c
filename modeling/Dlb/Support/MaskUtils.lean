import Mathlib.Order.Lattice.Nat

/-!
# CPU masks and the system topology

`mask_utils.c`: a `cpu_set_t` is a finite set of CPU ids. The `mu_*` functions read and write only the words that the
system needs (`System.bits`); what a result holds beyond them stays there. On masks inside the system they are the
set operations (`muAnd_of_fits`, `muOr_of_fits`, `muSubtract_of_fits`), and `mu_get_last_cpu` finds a CPU in every
mask that has one (`muGetLastCpu_some`).
-/

namespace Dlb

/-- `cpu_set_t` -/
abbrev CpuSet := Finset ℕ

/-- `mu_system_loc_t`: the CPUs of the system, its cores by core id and its NUMA nodes. A core id that is not used has
no CPU, and a CPU id may be of no core. -/
structure System where
  sysMask : CpuSet
  cores : List CpuSet
  disjoint : cores.Pairwise Disjoint
  covered : ∀ k ∈ cores, k ⊆ sysMask
  nodes : List CpuSet := []

-- the tables of cores of the systems that the examples are about
theorem pairwise_singles : ([{0}, {1}] : List CpuSet).Pairwise Disjoint := by decide

theorem subset_of_singles : ∀ k ∈ ([{0}, {1}] : List CpuSet), k ⊆ {0, 1} := by decide

theorem pairwise_pairs : ([{0, 1}, {2, 3}] : List CpuSet).Pairwise Disjoint := by decide

theorem subset_of_pairs : ∀ k ∈ ([{0, 1}, {2, 3}] : List CpuSet), k ⊆ {0, 1, 2, 3} := by decide

theorem pairwise_three : ([{0}, {1}, {2}] : List CpuSet).Pairwise Disjoint := by decide

theorem subset_of_three : ∀ k ∈ ([{0}, {1}, {2}] : List CpuSet), k ⊆ {0, 1, 2} := by decide

/-- `CPUS_PER_ULONG` -/
def cpusPerUlong : ℕ := 64

namespace System

/-- `mu_get_system_size`: one more than the last CPU. -/
def size (S : System) : ℕ := S.sysMask.sup (· + 1)

/-- `mu_cpuset_num_ulongs` -/
def numUlongs (S : System) : ℕ := (S.size + (cpusPerUlong - 1)) / cpusPerUlong

/-- The bits of the words that the `mu_*` functions work on. -/
def bits (S : System) : ℕ := cpusPerUlong * S.numUlongs

variable {S : System} {c : ℕ}

theorem lt_size (h : c ∈ S.sysMask) : c < S.size := Finset.le_sup (f := (· + 1)) h

theorem size_le_bits (S : System) : S.size ≤ S.bits := by
  unfold bits numUlongs cpusPerUlong
  omega

theorem lt_bits (h : c ∈ S.sysMask) : c < S.bits := (lt_size h).trans_le S.size_le_bits

end System

/-- All CPUs of the mask are in the words that the `mu_*` functions work on. -/
def Fits (S : System) (mask : CpuSet) : Prop := ∀ c ∈ mask, c < S.bits

section Ops

variable (S : System) (result mask1 mask2 : CpuSet)

/-- The words of the system are written, the others stay. -/
def System.write (mask : CpuSet) : CpuSet := {c ∈ mask | c < S.bits} ∪ {c ∈ result | S.bits ≤ c}

/-- `mu_and` -/
def muAnd : CpuSet := S.write result (mask1 ∩ mask2)

/-- `mu_or` -/
def muOr : CpuSet := S.write result (mask1 ∪ mask2)

/-- `mu_subtract` -/
def muSubtract : CpuSet := S.write result (mask1 \ mask2)

/-- `mu_is_subset` -/
def muIsSubset : Bool := {c ∈ mask1 | c < S.bits} ⊆ mask2

/-- `mu_is_proper_subset` -/
def muIsProperSubset : Bool :=
  muIsSubset S mask1 mask2 && !decide ({c ∈ mask1 | c < S.bits} = {c ∈ mask2 | c < S.bits})

/-- `mu_is_proper_superset` -/
def muIsProperSuperset : Bool :=
  muIsSubset S mask2 mask1 && !decide ({c ∈ mask1 | c < S.bits} = {c ∈ mask2 | c < S.bits})

/-- `mu_intersects` -/
def muIntersects : Bool := 0 < {c ∈ mask1 ∩ mask2 | c < S.bits}.card

/-- `mu_count` -/
def muCount : ℕ := {c ∈ mask1 | c < S.bits}.card

/-- `mu_count_cores` -/
def muCountCores : ℕ := (S.cores.filter fun core => muIsSubset S core mask1).length

def word (mask : CpuSet) (i : ℕ) : CpuSet := {c ∈ mask | c / cpusPerUlong = i}

/-- The last CPU of a word, if it has any bit set. -/
def lastBit (bits : CpuSet) : Option ℕ := if h : bits.Nonempty then some (bits.max' h) else none

/-- `mu_get_last_cpu`: from the last word down, the last bit of the first word that is not empty. -/
def muGetLastCpu (mask : CpuSet) : Option ℕ := (List.range S.numUlongs).reverse.findSome? fun i => lastBit (word mask i)

/-- `mu_get_core_mask` -/
def muGetCoreMask (cpuid : ℕ) : Option CpuSet := if S.size ≤ cpuid then none else S.cores.find? (cpuid ∈ ·)

/-- `mu_get_core_id`; `none` is `-1`. -/
def muGetCoreId (cpuid : ℕ) : Option ℕ := if S.size ≤ cpuid then none else S.cores.findIdx? (cpuid ∈ ·)

/-- `mu_get_core_mask_by_coreid` -/
def muGetCoreMaskByCoreid (coreId : ℕ) : Option CpuSet := S.cores[coreId]?

/-- `mu_get_num_cores`: the core ids that are used. -/
def muGetNumCores : ℕ := (S.cores.filter (0 < ·.card)).length

/-- `mu_system_has_smt`: the core with id `0` decides. -/
def muSystemHasSmt : Bool := match S.cores with
  | [] => false
  | core :: _ => 1 < core.card

/-- `mu_get_nodes_subset_of_cpuset` -/
def muGetNodesSubsetOfCpuset (cpuset : CpuSet) : CpuSet :=
  (S.nodes.filter fun node => muIsSubset S node cpuset).foldl (· ∪ ·) ∅

/-- The CPUs that `mu_get_first_cpu` and `mu_get_next_cpu` visit, in order. -/
def muCpus (mask : CpuSet) : List ℕ := (List.range S.bits).filter (· ∈ mask)

end Ops

/-! ## On masks inside the system -/

section Fits

variable {S : System} {result mask mask1 mask2 : CpuSet}

theorem fits_of_subset (h : mask ⊆ S.sysMask) : Fits S mask := fun _ hc => System.lt_bits (h hc)

theorem write_of_fits (hr : Fits S result) (hm : Fits S mask) : S.write result mask = mask := by
  unfold System.write
  rw [Finset.filter_true_of_mem hm, Finset.filter_false_of_mem fun c hc => (hr c hc).not_ge, Finset.union_empty]

theorem muAnd_of_fits (hr : Fits S result) (h1 : Fits S mask1) : muAnd S result mask1 mask2 = mask1 ∩ mask2 :=
  write_of_fits hr fun c hc => h1 c (Finset.mem_inter.mp hc).1

theorem muOr_of_fits (hr : Fits S result) (h1 : Fits S mask1) (h2 : Fits S mask2) :
    muOr S result mask1 mask2 = mask1 ∪ mask2 :=
  write_of_fits hr fun c hc => (Finset.mem_union.mp hc).elim (h1 c) (h2 c)

theorem muSubtract_of_fits (hr : Fits S result) (h1 : Fits S mask1) :
    muSubtract S result mask1 mask2 = mask1 \ mask2 :=
  write_of_fits hr fun c hc => h1 c (Finset.mem_sdiff.mp hc).1

theorem muSubtract_self (h2 : Fits S mask2) : muSubtract S mask1 mask1 mask2 = mask1 \ mask2 := by
  ext c
  have hc : c ∈ mask2 → c < S.bits := h2 c
  simp only [muSubtract, System.write, Finset.mem_union, Finset.mem_filter, Finset.mem_sdiff]
  by_cases hin : c < S.bits
  · have hnot : ¬S.bits ≤ c := by omega
    tauto
  · have hout : S.bits ≤ c := by omega
    tauto

theorem muSubtract_subset : muSubtract S mask1 mask1 mask2 ⊆ mask1 := by
  intro c hc
  simp only [muSubtract, System.write, Finset.mem_union, Finset.mem_filter, Finset.mem_sdiff] at hc
  tauto

theorem muGetLastCpu_mem {c : ℕ} (h : muGetLastCpu S mask = some c) : c ∈ mask := by
  obtain ⟨i, -, hi⟩ := List.exists_of_findSome?_eq_some h
  unfold lastBit at hi
  split at hi
  · rename_i hne
    have := Finset.max'_mem _ hne
    rw [Option.some.inj hi] at this
    exact (Finset.mem_filter.mp this).1
  · cases hi

theorem muGetLastCpu_some (hm : Fits S mask) (hne : mask.Nonempty) : ∃ c ∈ mask, muGetLastCpu S mask = some c := by
  cases h : muGetLastCpu S mask with
  | some c => exact ⟨c, muGetLastCpu_mem h, rfl⟩
  | none =>
    obtain ⟨c, hc⟩ := hne
    have hlt : c / cpusPerUlong < S.numUlongs := by
      have := hm c hc
      exact Nat.div_lt_of_lt_mul this
    have hnone := List.findSome?_eq_none_iff.mp h (c / cpusPerUlong) (by simpa using hlt)
    have hw : (word mask (c / cpusPerUlong)).Nonempty := ⟨c, Finset.mem_filter.mpr ⟨hc, rfl⟩⟩
    simp [lastBit, hw] at hnone

end Fits

/-! ## Whole cores -/

section Cores

variable {S : System} {mask mask1 mask2 core : CpuSet}

def WholeCores (S : System) (mask : CpuSet) : Prop := ∀ c ∈ mask, ∃ core ∈ S.cores, c ∈ core ∧ core ⊆ mask

def coresIn (S : System) (mask : CpuSet) : Finset CpuSet := {core ∈ S.cores.toFinset | core.Nonempty ∧ core ⊆ mask}

theorem mem_coresIn : core ∈ coresIn S mask ↔ core ∈ S.cores ∧ core.Nonempty ∧ core ⊆ mask := by
  simp [coresIn]

theorem WholeCores.fits (h : WholeCores S mask) : Fits S mask := by
  intro c hc
  obtain ⟨core, hcore, hmem, -⟩ := h c hc
  exact System.lt_bits (S.covered core hcore hmem)

theorem wholeCores_empty : WholeCores S ∅ := nofun

theorem core_unique {k1 k2 : CpuSet} (h1 : k1 ∈ S.cores) (h2 : k2 ∈ S.cores) {c : ℕ} (hc1 : c ∈ k1) (hc2 : c ∈ k2) :
    k1 = k2 := by
  by_contra hne
  exact Finset.disjoint_left.mp (S.disjoint.forall h1 h2 hne) hc1 hc2

theorem muGetCoreMask_of_mem (hk : core ∈ S.cores) {c : ℕ} (hc : c ∈ core) : muGetCoreMask S c = some core := by
  unfold muGetCoreMask
  rw [if_neg (System.lt_size (S.covered core hk hc)).not_ge]
  cases h : S.cores.find? (c ∈ ·) with
  | none => simpa [hc] using List.find?_eq_none.mp h core hk
  | some k =>
    have hck : c ∈ k := by simpa using List.find?_some h
    rw [core_unique (List.mem_of_find?_eq_some h) hk hck hc]

theorem WholeCores.sdiff (h : WholeCores S mask) (hk : core ∈ S.cores) : WholeCores S (mask \ core) := by
  intro c hc
  obtain ⟨hcm, hcc⟩ := Finset.mem_sdiff.mp hc
  obtain ⟨k, hkc, hck, hkm⟩ := h c hcm
  refine ⟨k, hkc, hck, fun x hx => Finset.mem_sdiff.mpr ⟨hkm hx, fun hxc => ?_⟩⟩
  exact hcc (core_unique hkc hk hx hxc ▸ hck)

theorem WholeCores.union (h1 : WholeCores S mask1) (h2 : WholeCores S mask2) : WholeCores S (mask1 ∪ mask2) := by
  intro c hc
  rcases Finset.mem_union.mp hc with hc | hc
  · obtain ⟨k, hk, hck, hsub⟩ := h1 c hc
    exact ⟨k, hk, hck, hsub.trans Finset.subset_union_left⟩
  · obtain ⟨k, hk, hck, hsub⟩ := h2 c hc
    exact ⟨k, hk, hck, hsub.trans Finset.subset_union_right⟩

theorem wholeCores_core (hk : core ∈ S.cores) : WholeCores S core := fun _ hc => ⟨core, hk, hc, subset_rfl⟩

theorem card_coresIn_union (h1 : WholeCores S mask1) (h2 : WholeCores S mask2) (hd : Disjoint mask1 mask2) :
    (coresIn S (mask1 ∪ mask2)).card = (coresIn S mask1).card + (coresIn S mask2).card := by
  have hunion : coresIn S (mask1 ∪ mask2) = coresIn S mask1 ∪ coresIn S mask2 := by
    ext k
    rw [Finset.mem_union, mem_coresIn, mem_coresIn, mem_coresIn]
    constructor
    · rintro ⟨hk, ⟨c, hc⟩, hsub⟩
      rcases Finset.mem_union.mp (hsub hc) with hm | hm
      · obtain ⟨k', hk', hck', hsub'⟩ := h1 c hm
        exact Or.inl ⟨hk, ⟨c, hc⟩, core_unique hk hk' hc hck' ▸ hsub'⟩
      · obtain ⟨k', hk', hck', hsub'⟩ := h2 c hm
        exact Or.inr ⟨hk, ⟨c, hc⟩, core_unique hk hk' hc hck' ▸ hsub'⟩
    · rintro (⟨hk, hne, hsub⟩ | ⟨hk, hne, hsub⟩)
      · exact ⟨hk, hne, hsub.trans Finset.subset_union_left⟩
      · exact ⟨hk, hne, hsub.trans Finset.subset_union_right⟩
  rw [hunion, Finset.card_union_of_disjoint]
  refine Finset.disjoint_left.mpr fun k hk1 hk2 => ?_
  obtain ⟨-, ⟨c, hc⟩, hsub1⟩ := mem_coresIn.mp hk1
  obtain ⟨-, -, hsub2⟩ := mem_coresIn.mp hk2
  exact Finset.disjoint_left.mp hd (hsub1 hc) (hsub2 hc)

theorem card_coresIn_core (hk : core ∈ S.cores) (hne : core.Nonempty) : (coresIn S core).card = 1 := by
  rw [Finset.card_eq_one]
  refine ⟨core, Finset.ext fun k => ?_⟩
  rw [mem_coresIn, Finset.mem_singleton]
  constructor
  · rintro ⟨hk', ⟨c, hc⟩, hsub⟩
    exact core_unique hk' hk hc (hsub hc)
  · rintro rfl
    exact ⟨hk, hne, subset_rfl⟩

theorem WholeCores.card_pos (h : WholeCores S mask) : 0 < (coresIn S mask).card ↔ mask.Nonempty := by
  rw [Finset.card_pos]
  constructor
  · rintro ⟨k, hk⟩
    obtain ⟨-, hne, hsub⟩ := mem_coresIn.mp hk
    exact hne.mono hsub
  · rintro ⟨c, hc⟩
    obtain ⟨k, hk, hck, hsub⟩ := h c hc
    exact ⟨k, mem_coresIn.mpr ⟨hk, ⟨c, hck⟩, hsub⟩⟩

end Cores

end Dlb
