import Dlb.Lib.Numbering
import Dlb.Omptm.FreeAgents
import Dlb.Support.CompleteCores

/-!
# Walking over the cores of a mask

`mu_get_cpu_next_core` goes on to the next CPU whose core id is greater. From the first CPU of a mask on, that visits a
CPU exactly if all the CPUs before it are of cores with smaller ids (`mem_coreWalk`), so no core twice
(`coreWalk_increasing`), and a core at all exactly if those with greater ids start behind it (`visited_iff`).
-/

namespace Dlb.Omptm

open List

variable (S : System) (mask : CpuSet)

/-- The loop of `mu_get_cpu_next_core`. -/
def nextCoreFrom (prevCore : ℤ) (prev : ℕ) : Option ℕ :=
  match _h : muGetNextCpu S mask (prev : ℤ) with
  | some next => if coreIdOf S (some next) ≤ prevCore then nextCoreFrom prevCore next else some next
  | none => none
termination_by S.bits - prev
decreasing_by
  have := muGetNextCpu_after S _h
  omega

/-- `mu_get_cpu_next_core` -/
def muGetCpuNextCore (prevCpu : ℕ) : Option ℕ :=
  (nextCoreFrom S mask (coreIdOf S (some prevCpu)) prevCpu).filter (· < S.size)

/-- The CPUs that are in the core of one of them. -/
def cpuCore (cpuid : ℕ) : CpuSet := (muGetCoreMask S cpuid).getD ∅

variable {S mask}

theorem muGetCoreId_none (cpuid : ℕ) (h : muGetCoreId S cpuid = none) : coreIdOf S (some cpuid) = -1 := by
  rw [coreIdOf, Option.bind_some, h]
  rfl

theorem neg_one_le_coreIdOf (cpuid : Option ℕ) : -1 ≤ coreIdOf S cpuid := by
  unfold coreIdOf
  cases cpuid.bind (muGetCoreId S) with
  | none => exact le_refl _
  | some i => exact (by decide : (-1 : ℤ) ≤ 0).trans (Int.natCast_nonneg i)

theorem coreIdOf_of_mem {i c : ℕ} (hi : i < S.cores.length) (hc : c ∈ coreMask S i) : coreIdOf S (some c) = i := by
  have hlt : c < S.size := System.lt_size (coreMask_subset hi hc)
  have hid : muGetCoreId S c = some i := by
    rw [muGetCoreId, if_neg hlt.not_ge, findIdx?_eq_some_iff_getElem]
    rw [coreMask, getD_eq_getElem _ _ hi] at hc
    refine ⟨hi, decide_eq_true hc, fun j hj => ?_⟩
    have hdisjoint := pairwise_iff_getElem.mp S.disjoint j i (hj.trans hi) hi hj
    rw [Bool.not_eq_true, decide_eq_false_iff_not]
    exact fun hcj => Finset.disjoint_left.mp hdisjoint hcj hc
  rw [coreIdOf, Option.bind_some, hid]
  rfl

theorem mem_of_coreIdOf {i c : ℕ} (h : coreIdOf S (some c) = i) : i < S.cores.length ∧ c ∈ coreMask S i := by
  cases hid : muGetCoreId S c with
  | none =>
    rw [muGetCoreId_none c hid] at h
    exact absurd h (by omega)
  | some j =>
    have hj : j = i := by
      rw [coreIdOf, Option.bind_some, hid] at h
      exact Int.ofNat_inj.mp h
    subst hj
    unfold muGetCoreId at hid
    split_ifs at hid
    obtain ⟨hlt, hmem, -⟩ := findIdx?_eq_some_iff_getElem.mp hid
    exact ⟨hlt, by rw [coreMask, getD_eq_getElem _ _ hlt]; exact of_decide_eq_true hmem⟩

theorem cpuCore_of_mem {i c : ℕ} (hi : i < S.cores.length) (hc : c ∈ coreMask S i) : cpuCore S c = coreMask S i := by
  have hmem : coreMask S i ∈ S.cores := by
    rw [coreMask, getD_eq_getElem _ _ hi]
    exact getElem_mem hi
  rw [cpuCore, muGetCoreMask_of_mem hmem hc, Option.getD_some]

theorem WholeCores.coreId {mask : CpuSet} (h : WholeCores S mask) {c : ℕ} (hc : c ∈ mask) :
    ∃ i ∈ completeCores S mask, c ∈ coreMask S i := by
  obtain ⟨core, hcore, hin, hsub⟩ := h c hc
  obtain ⟨i, hi, heq⟩ := mem_iff_getElem.mp hcore
  have hmask : coreMask S i = core := by rw [coreMask, getD_eq_getElem _ _ hi, heq]
  exact ⟨i, mem_completeCores.mpr ⟨hi, hmask ▸ ⟨c, hin⟩, hmask ▸ hsub⟩, hmask ▸ hin⟩

/-! ## One step -/

theorem nextCoreFrom_finds (mask : CpuSet) (prevCore : ℤ) (prev : ℕ) :
    Finds (fun x => x ∈ mask ∧ x < S.bits ∧ prev < x ∧ prevCore < coreIdOf S (some x))
      (nextCoreFrom S mask prevCore prev) := by
  fun_induction nextCoreFrom S mask prevCore prev with
  | case1 prev next hnext hle ih =>
    have hfinds := muGetNextCpu_finds S mask prev
    rw [hnext] at hfinds
    obtain ⟨⟨-, hlt, -⟩, hleast⟩ := hfinds
    refine ih.congr fun x => ⟨fun ⟨hx, hbits, hnx, hcore⟩ => ⟨hx, hbits, hlt.trans hnx, hcore⟩, ?_⟩
    rintro ⟨hx, hbits, hpx, hcore⟩
    refine ⟨hx, hbits, (hleast x ⟨hx, hpx, hbits⟩).lt_of_ne fun heq => ?_, hcore⟩
    rw [← heq] at hcore
    exact hcore.not_ge hle
  | case2 prev next hnext hgt =>
    have hfinds := muGetNextCpu_finds S mask prev
    rw [hnext] at hfinds
    obtain ⟨⟨hmem, hlt, hbits⟩, hleast⟩ := hfinds
    exact ⟨⟨hmem, hbits, hlt, not_le.mp hgt⟩, fun x ⟨hx, hbx, hpx, _⟩ => hleast x ⟨hx, hpx, hbx⟩⟩
  | case3 prev hnone =>
    have hfinds := muGetNextCpu_finds S mask prev
    rw [hnone] at hfinds
    exact fun x ⟨hx, hbx, hpx, _⟩ => hfinds x ⟨hx, hpx, hbx⟩

theorem muGetCpuNextCore_finds (mask : CpuSet) (prevCpu : ℕ) :
    Finds (fun x => x ∈ mask ∧ prevCpu < x ∧ coreIdOf S (some prevCpu) < coreIdOf S (some x))
      (muGetCpuNextCore S mask prevCpu) := by
  have hsize : ∀ x, coreIdOf S (some prevCpu) < coreIdOf S (some x) → x < S.size := fun x hcore => by
    have hnonneg : 0 ≤ coreIdOf S (some x) := by
      have := neg_one_le_coreIdOf (S := S) (some prevCpu)
      omega
    obtain ⟨hlt, hmem⟩ := mem_of_coreIdOf (Int.toNat_of_nonneg hnonneg).symm
    exact System.lt_size (coreMask_subset hlt hmem)
  have hfinds := nextCoreFrom_finds (S := S) mask (coreIdOf S (some prevCpu)) prevCpu
  unfold muGetCpuNextCore
  cases hnext : nextCoreFrom S mask (coreIdOf S (some prevCpu)) prevCpu with
  | none =>
    rw [hnext] at hfinds
    exact fun x ⟨hx, hpx, hcore⟩ => hfinds x ⟨hx, (hsize x hcore).trans_le S.size_le_bits, hpx, hcore⟩
  | some next =>
    rw [hnext] at hfinds
    obtain ⟨⟨hmem, -, hlt, hcore⟩, hleast⟩ := hfinds
    have hfilter : (some next).filter (· < S.size) = some next := Option.filter_eq_some_iff.mpr
      ⟨rfl, decide_eq_true (hsize next hcore)⟩
    rw [hfilter]
    exact ⟨⟨hmem, hlt, hcore⟩, fun x ⟨hx, hpx, hcx⟩ => hleast x ⟨hx, (hsize x hcx).trans_le S.size_le_bits, hpx, hcx⟩⟩

theorem muGetCpuNextCore_after {prevCpu next : ℕ} (h : muGetCpuNextCore S mask prevCpu = some next) :
    prevCpu < next ∧ next < S.size := by
  have hfinds := muGetCpuNextCore_finds (S := S) mask prevCpu
  rw [h] at hfinds
  exact ⟨hfinds.1.2.1, of_decide_eq_true (Option.filter_eq_some_iff.mp h).2⟩

/-! ## The walk -/

variable (S mask) in
/-- The CPUs that the loop of `compute_cpu_bindings` visits, from one of them on. -/
def coreWalkFrom (cpuid : ℕ) : List ℕ :=
  match _h : muGetCpuNextCore S mask cpuid with
  | some next => cpuid :: coreWalkFrom next
  | none => [cpuid]
termination_by S.size - cpuid
decreasing_by
  have := muGetCpuNextCore_after _h
  omega

variable (S mask) in
/-- The CPUs that the loop of `compute_cpu_bindings` visits. -/
def coreWalk : List ℕ :=
  match muGetFirstCpu S mask with
  | some cpuid => coreWalkFrom S mask cpuid
  | none => []

theorem mem_coreWalkFrom {cpuid c : ℕ} : c ∈ coreWalkFrom S mask cpuid ↔
    c = cpuid ∨ c ∈ mask ∧ cpuid < c ∧ coreIdOf S (some cpuid) < coreIdOf S (some c) ∧
      ∀ x ∈ mask, cpuid < x → x < c → coreIdOf S (some x) < coreIdOf S (some c) := by
  fun_induction coreWalkFrom S mask cpuid with
  | case1 cpuid next hnext ih =>
    have hfinds := muGetCpuNextCore_finds (S := S) mask cpuid
    rw [hnext] at hfinds
    obtain ⟨⟨hmem, hlt, hcore⟩, hleast⟩ := hfinds
    -- the CPUs that the step leaves out
    have hskipped : ∀ x ∈ mask, cpuid < x → x < next → coreIdOf S (some x) ≤ coreIdOf S (some cpuid) := fun x hx hcx hxn =>
      not_lt.mp fun hgt => absurd (hleast x ⟨hx, hcx, hgt⟩) hxn.not_ge
    rw [mem_cons, ih]
    refine or_congr_right ⟨?_, ?_⟩
    · rintro (rfl | ⟨hc, hnc, hidc, hbefore⟩)
      · exact ⟨hmem, hlt, hcore, fun x hx hcx hxn => (hskipped x hx hcx hxn).trans_lt hcore⟩
      · refine ⟨hc, hlt.trans hnc, hcore.trans hidc, fun x hx hcx hxc => ?_⟩
        rcases Nat.lt_trichotomy x next with hxn | rfl | hnx
        · exact (hskipped x hx hcx hxn).trans_lt (hcore.trans hidc)
        · exact hidc
        · exact hbefore x hx hnx hxc
    · rintro ⟨hc, hcc, hidc, hbefore⟩
      rcases (hleast c ⟨hc, hcc, hidc⟩).eq_or_lt with heq | hnc
      · exact .inl heq.symm
      · exact .inr ⟨hc, hnc, hbefore next hmem hlt hnc, fun x hx hnx hxc => hbefore x hx (hlt.trans hnx) hxc⟩
  | case2 cpuid hnone =>
    have hfinds := muGetCpuNextCore_finds (S := S) mask cpuid
    rw [hnone] at hfinds
    rw [mem_singleton]
    exact (or_iff_left fun ⟨hc, hcc, hidc, _⟩ => hfinds c ⟨hc, hcc, hidc⟩).symm

theorem coreWalkFrom_increasing (cpuid : ℕ) :
    (coreWalkFrom S mask cpuid).Pairwise fun c c' => coreIdOf S (some c) < coreIdOf S (some c') := by
  fun_induction coreWalkFrom S mask cpuid with
  | case1 cpuid next hnext ih =>
    have hfinds := muGetCpuNextCore_finds (S := S) mask cpuid
    rw [hnext] at hfinds
    refine pairwise_cons.mpr ⟨fun c hc => ?_, ih⟩
    rcases mem_coreWalkFrom.mp hc with rfl | ⟨-, -, hidc, -⟩
    · exact hfinds.1.2.2
    · exact hfinds.1.2.2.trans hidc
  | case2 cpuid hnone => exact pairwise_singleton _ _

theorem coreWalk_increasing (mask : CpuSet) :
    (coreWalk S mask).Pairwise fun c c' => coreIdOf S (some c) < coreIdOf S (some c') := by
  unfold coreWalk
  split
  · exact coreWalkFrom_increasing _
  · exact List.Pairwise.nil

theorem mem_coreWalk (hmask : Fits S mask) {c : ℕ} :
    c ∈ coreWalk S mask ↔ c ∈ mask ∧ ∀ x ∈ mask, x < c → coreIdOf S (some x) < coreIdOf S (some c) := by
  have hfinds := muGetFirstCpu_finds S mask
  unfold coreWalk
  cases hfirst : muGetFirstCpu S mask with
  | none =>
    rw [hfirst] at hfinds
    exact iff_of_false not_mem_nil fun ⟨hc, _⟩ => hfinds c ⟨hc, hmask c hc⟩
  | some first =>
    rw [hfirst] at hfinds
    obtain ⟨⟨hmem, -⟩, hleast⟩ := hfinds
    rw [mem_coreWalkFrom]
    constructor
    · rintro (rfl | ⟨hc, hfc, hidc, hbefore⟩)
      · exact ⟨hmem, fun x hx hxc => absurd (hleast x ⟨hx, hmask x hx⟩) hxc.not_ge⟩
      · refine ⟨hc, fun x hx hxc => ?_⟩
        rcases (hleast x ⟨hx, hmask x hx⟩).eq_or_lt with rfl | hfx
        · exact hidc
        · exact hbefore x hx hfx hxc
    · rintro ⟨hc, hbefore⟩
      rcases (hleast c ⟨hc, hmask c hc⟩).eq_or_lt with heq | hfc
      · exact .inl heq.symm
      · exact .inr ⟨hc, hfc, hbefore first hmem hfc, fun x hx _ hxc => hbefore x hx hxc⟩

/-! ## Which cores are visited -/

variable (S mask) in
/-- The complete cores of a mask start in the order of their ids. -/
def CoresInOrder : Prop :=
  ∀ i ∈ completeCores S mask, ∀ j ∈ completeCores S mask, i < j → (coreMask S i).min < (coreMask S j).min

theorem visited_iff (hmask : WholeCores S mask) {i : ℕ} (hi : i ∈ completeCores S mask) :
    (∃ c ∈ coreWalk S mask, c ∈ coreMask S i) ↔
      ∀ j ∈ completeCores S mask, i < j → (coreMask S i).min < (coreMask S j).min := by
  obtain ⟨hlt, hne, hsub⟩ := mem_completeCores.mp hi
  constructor
  · rintro ⟨c, hwalk, hc⟩ j hj hij
    obtain ⟨hltj, hnej, hsubj⟩ := mem_completeCores.mp hj
    have hmin := Finset.min'_mem _ hnej
    obtain ⟨-, hbefore⟩ := (mem_coreWalk hmask.fits).mp hwalk
    rw [← Finset.coe_min' hne, ← Finset.coe_min' hnej, WithTop.coe_lt_coe]
    refine (Finset.min'_le _ c hc).trans_lt (not_le.mp fun hle => ?_)
    rcases hle.eq_or_lt with heq | hbelow
    · exact Finset.disjoint_left.mp (coreMask_disjoint hlt hltj hij.ne) hc (heq ▸ hmin)
    · have hid := hbefore _ (hsubj hmin) hbelow
      rw [coreIdOf_of_mem hltj hmin, coreIdOf_of_mem hlt hc] at hid
      omega
  · intro horder
    have hmin := Finset.min'_mem _ hne
    refine ⟨_, (mem_coreWalk hmask.fits).mpr ⟨hsub hmin, fun x hx hbelow => ?_⟩, hmin⟩
    obtain ⟨j, hj, hxj⟩ := WholeCores.coreId hmask hx
    obtain ⟨hltj, hnej, -⟩ := mem_completeCores.mp hj
    rw [coreIdOf_of_mem hltj hxj, coreIdOf_of_mem hlt hmin, Int.ofNat_lt]
    by_contra hge
    rcases (Nat.not_lt.mp hge).eq_or_lt with rfl | hij
    · exact hbelow.not_ge (Finset.min'_le _ x hxj)
    · have hstart := horder j hj hij
      rw [← Finset.coe_min' hne, ← Finset.coe_min' hnej, WithTop.coe_lt_coe] at hstart
      exact (hstart.trans_le (Finset.min'_le _ x hxj)).asymm hbelow

theorem coresInOrder_iff (hmask : WholeCores S mask) :
    CoresInOrder S mask ↔ ∀ i ∈ completeCores S mask, ∃ c ∈ coreWalk S mask, c ∈ coreMask S i :=
  forall₂_congr fun _ hi => (visited_iff hmask hi).symm

end Dlb.Omptm
