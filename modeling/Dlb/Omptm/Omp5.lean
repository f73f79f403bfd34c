import Dlb.Omptm.CoreWalk

/-!
# The thread manager of OpenMP

`omptm_omp5.c`: the CPUs of threads are computed from `active_mask` at each callback of LeWI and DROM, as many as
`num_omp_threads_per_core` of each core that the walk over the mask visits. The number of threads is computed apart.

* `mem_cpuBindings`, `bindings_of_visited`: what the list of CPUs has.
-/

namespace Dlb.Omptm

open List

/-- The static variables that the callbacks use, and the number of threads that OpenMP was told last. -/
structure Omp5 where
  processMask : CpuSet
  activeMask : CpuSet
  cpuBindings : List ℕ := []
  numThreads : ℕ := 0

inductive Omp5Event where
  | enableCpu (cpuid : ℕ)
  | enableCpuSet (cpuSet : CpuSet)
  | disableCpu (cpuid : ℕ)
  | disableCpuSet (cpuSet : CpuSet)
  | setProcessMask (mask : CpuSet)

variable (S : System) (Q : Lib.Qsort)

/-- `mu_get_system_hwthreads_per_core`; `none` is a fatal error. -/
def muGetSystemHwthreadsPerCore : Option ℕ := if (coreMask S 0).card = 0 then none else some (coreMask S 0).card

/-- `mu_get_cores_intersecting_with_cpuset` -/
def muGetCoresIntersectingWithCpuset (cpuset : CpuSet) : CpuSet :=
  (S.cores.filter fun core => muIntersects S core cpuset).foldl (· ∪ ·) ∅

/-- The inner loop of `compute_cpu_bindings`, after `numAddedCpus` CPUs. -/
def pushCpus (numOmpThreadsPerCore : ℕ) : List ℕ → ℕ → List ℕ
  | [], _ => []
  | cpuid :: cpus, numAddedCpus =>
    cpuid :: if numAddedCpus + 1 = numOmpThreadsPerCore then [] else pushCpus numOmpThreadsPerCore cpus (numAddedCpus + 1)

/-- The CPUs that the inner loop adds for a CPU that the walk visits. -/
def coreThreads (numOmpThreadsPerCore cpuid : ℕ) : List ℕ := pushCpus numOmpThreadsPerCore (muCpus S (cpuCore S cpuid)) 0

namespace Omp5

variable (numOmpThreadsPerCore hwthreadsPerCore : ℕ) (s : Omp5)

/-- `compute_cpu_bindings` -/
def computeCpuBindings : Omp5 :=
  { s with
    cpuBindings := Q.sort (fun c c' => muCmpCpuidsByOwnership S s.processMask (some c) (some c'))
      ((coreWalk S s.activeMask).flatMap (coreThreads S numOmpThreadsPerCore)) }

/-- `set_num_threads_from_active_mask` -/
def setNumThreadsFromActiveMask : Omp5 :=
  { s with
    numThreads :=
      if numOmpThreadsPerCore = hwthreadsPerCore then s.activeMask.card
      else (muGetCoresIntersectingWithCpuset S s.activeMask).card / hwthreadsPerCore * numOmpThreadsPerCore }

def setMasks : Omp5Event → Omp5
  | .enableCpu cpuid => { s with activeMask := insert cpuid s.activeMask }
  | .enableCpuSet cpuSet => { s with activeMask := s.activeMask ∪ cpuSet }
  | .disableCpu cpuid => { s with activeMask := s.activeMask.erase cpuid }
  | .disableCpuSet cpuSet => { s with activeMask := muSubtract S s.activeMask s.activeMask cpuSet }
  | .setProcessMask mask =>
    { s with
      processMask := mask
      activeMask := mask }

/-- The callbacks of `omptm_omp5.c`. -/
def callback (e : Omp5Event) : Omp5 :=
  ((s.setMasks S e).setNumThreadsFromActiveMask S numOmpThreadsPerCore hwthreadsPerCore).computeCpuBindings S Q
    numOmpThreadsPerCore

/-- `omptm_omp5__init` when LeWI or DROM is on, up to the number of threads. `lend` is the CPU of the calling thread if the
process lends from the beginning. -/
def init (processMask : CpuSet) (lend : Option ℕ) : Omp5 :=
  -- `num_omp_threads_per_core` is still 0
  let s := computeCpuBindings S Q 0 { processMask := processMask, activeMask := processMask }
  match lend with
  | some cpuid => computeCpuBindings S Q numOmpThreadsPerCore { s with numThreads := 1, activeMask := {cpuid} }
  | none => s.setNumThreadsFromActiveMask S numOmpThreadsPerCore hwthreadsPerCore

/-- `omptm_omp5__init` and then callbacks. -/
def run (processMask : CpuSet) (lend : Option ℕ) (events : List Omp5Event) : Option Omp5 :=
  (muGetSystemHwthreadsPerCore S).map fun hwthreadsPerCore =>
    events.foldl (callback S Q numOmpThreadsPerCore hwthreadsPerCore)
      (init S Q numOmpThreadsPerCore hwthreadsPerCore processMask lend)

/-- `get_thread_binding` -/
def getThreadBinding (index : ℕ) : Option ℕ := s.cpuBindings[index % s.cpuBindings.length]?

/-- The list has each active core `numOmpThreadsPerCore` times and nothing else, fits in its array, and gives each of the
threads a CPU of its own. -/
structure Covers : Prop where
  nodup : s.cpuBindings.Nodup
  active : ∀ c ∈ s.cpuBindings, c ∈ s.activeMask
  cores : ∀ i ∈ completeCores S s.activeMask, {c ∈ coreMask S i | c ∈ s.cpuBindings}.card = numOmpThreadsPerCore
  capacity : s.cpuBindings.length ≤ S.size
  length : s.cpuBindings.length = s.numThreads
  distinct : ∀ i < s.numThreads, ∃ c, s.getThreadBinding i = some c ∧
    ∀ j < s.numThreads, s.getThreadBinding j = some c → j = i

end Omp5

/-! ## The inputs -/

/-- The cores partition the CPUs, with as many hardware threads each. -/
structure Regular (hwthreads : ℕ) : Prop where
  card : ∀ i < S.cores.length, (coreMask S i).Nonempty → (coreMask S i).card = hwthreads
  covers : ∀ c ∈ S.sysMask, ∃ i < S.cores.length, c ∈ coreMask S i

def Omp5Event.Inside : Omp5Event → Prop
  | .enableCpu cpuid => cpuid ∈ S.sysMask
  | .enableCpuSet cpuSet => cpuSet ⊆ S.sysMask
  | .disableCpu _ => True
  | .disableCpuSet _ => True
  | .setProcessMask mask => mask ⊆ S.sysMask

/-- What a callback says about the active CPUs. -/
def Omp5Event.active (mask : CpuSet) : Omp5Event → CpuSet
  | .enableCpu cpuid => insert cpuid mask
  | .enableCpuSet cpuSet => mask ∪ cpuSet
  | .disableCpu cpuid => mask.erase cpuid
  | .disableCpuSet cpuSet => mask \ cpuSet
  | .setProcessMask mask => mask

/-- The CPUs that are active after some callbacks. -/
def activeAfter (processMask : CpuSet) (lend : Option ℕ) (events : List Omp5Event) : CpuSet :=
  events.foldl Omp5Event.active (lend.elim processMask ({·}))

variable {S Q} {T k hw : ℕ} {mask : CpuSet} {s : Omp5}

/-! ## The CPUs of a core -/

theorem pushCpus_of_lt {limit : ℕ} (cpus : List ℕ) {n : ℕ} (hn : n < limit) :
    pushCpus limit cpus n = cpus.take (limit - n) := by
  induction cpus generalizing n with
  | nil => rw [pushCpus, take_nil]
  | cons cpuid cpus ih =>
    have hsucc : limit - n = (limit - (n + 1)) + 1 := by omega
    rw [pushCpus, hsucc, take_succ_cons]
    split
    · rename_i hlast
      have hzero : limit - (n + 1) = 0 := by omega
      rw [hzero, take_zero]
    · rw [ih (by omega)]

theorem pushCpus_zero (cpus : List ℕ) (n : ℕ) : pushCpus 0 cpus n = cpus := by
  induction cpus generalizing n with
  | nil => rfl
  | cons cpuid cpus ih => rw [pushCpus, if_neg (Nat.succ_ne_zero n), ih]

/-- The limit of the inner loop; there is none before `num_omp_threads_per_core` is known. -/
def coreLimit (limit card : ℕ) : ℕ := if limit = 0 then card else min limit card

theorem muCpus_length (hmask : Fits S mask) : (muCpus S mask).length = mask.card := by
  refine (Lib.card_eq_length_of_mem_iff (nodup_range.filter _) fun c => ?_).symm
  rw [mem_filter, mem_range, decide_eq_true_eq]
  exact and_iff_right_of_imp (hmask c)

theorem coreThreads_of_mem (limit : ℕ) {i c : ℕ} (hi : i < S.cores.length) (hc : c ∈ coreMask S i) :
    (coreThreads S limit c).Nodup ∧ (∀ c' ∈ coreThreads S limit c, c' ∈ coreMask S i) ∧
      (coreThreads S limit c).length = coreLimit limit (coreMask S i).card := by
  have hfits : Fits S (coreMask S i) := fits_of_subset (coreMask_subset hi)
  have hnodup : (muCpus S (coreMask S i)).Nodup := nodup_range.filter _
  have hmem : ∀ c' ∈ muCpus S (coreMask S i), c' ∈ coreMask S i := fun c' hc' =>
    of_decide_eq_true (mem_filter.mp hc').2
  unfold coreThreads coreLimit
  rw [cpuCore_of_mem hi hc]
  rcases Nat.eq_zero_or_pos limit with rfl | hpos
  · rw [pushCpus_zero, if_pos rfl]
    exact ⟨hnodup, hmem, muCpus_length hfits⟩
  · rw [pushCpus_of_lt _ hpos, if_neg hpos.ne', Nat.sub_zero, length_take, muCpus_length hfits]
    exact ⟨hnodup.sublist (take_sublist _ _), fun c' hc' => hmem c' (mem_of_mem_take hc'), rfl⟩

/-! ## The list of the CPUs -/

/-- `cpu_bindings` before it is sorted. -/
def boundThreads (S : System) (limit : ℕ) (mask : CpuSet) : List ℕ := (coreWalk S mask).flatMap (coreThreads S limit)

theorem computeCpuBindings_perm (s : Omp5) (limit : ℕ) :
    (s.computeCpuBindings S Q limit).cpuBindings.Perm (boundThreads S limit s.activeMask) := Q.perm _ _

theorem init_perm (processMask : CpuSet) :
    (Omp5.init S Q k hw processMask none).cpuBindings.Perm (boundThreads S 0 processMask) :=
  computeCpuBindings_perm { processMask := processMask, activeMask := processMask } 0

theorem visited_core (hmask : WholeCores S mask) {c : ℕ} (hc : c ∈ coreWalk S mask) :
    ∃ i ∈ completeCores S mask, c ∈ coreMask S i :=
  WholeCores.coreId hmask ((mem_coreWalk hmask.fits).mp hc).1

theorem visited_unique {i c c' : ℕ} (hi : i < S.cores.length) (hc : c ∈ coreWalk S mask) (hc' : c' ∈ coreWalk S mask)
    (hci : c ∈ coreMask S i) (hci' : c' ∈ coreMask S i) : c = c' := by
  have hid : coreIdOf S (some c) = coreIdOf S (some c') := by rw [coreIdOf_of_mem hi hci, coreIdOf_of_mem hi hci']
  have hnodup : ((coreWalk S mask).map fun c => coreIdOf S (some c)).Nodup :=
    pairwise_map.mpr ((coreWalk_increasing mask).imp ne_of_lt)
  exact inj_on_of_nodup_map hnodup hc hc' hid

theorem mem_boundThreads (hmask : WholeCores S mask) {limit c : ℕ} (hc : c ∈ boundThreads S limit mask) :
    ∃ i ∈ completeCores S mask, c ∈ coreMask S i ∧ ∃ w ∈ coreWalk S mask, w ∈ coreMask S i ∧ c ∈ coreThreads S limit w := by
  obtain ⟨w, hw, hcw⟩ := mem_flatMap.mp hc
  obtain ⟨i, hi, hwi⟩ := visited_core hmask hw
  have hlt := (mem_completeCores.mp hi).1
  exact ⟨i, hi, (coreThreads_of_mem _ hlt hwi).2.1 c hcw, w, hw, hwi, hcw⟩

theorem boundThreads_nodup (hmask : WholeCores S mask) (limit : ℕ) : (boundThreads S limit mask).Nodup := by
  refine nodup_flatMap.mpr ⟨fun w hw => ?_, ?_⟩
  · obtain ⟨i, hi, hwi⟩ := visited_core hmask hw
    exact (coreThreads_of_mem _ (mem_completeCores.mp hi).1 hwi).1
  · refine (coreWalk_increasing mask).imp_of_mem fun {w w'} hw hw' hlt c hc hc' => ?_
    obtain ⟨i, hi, hwi⟩ := visited_core hmask hw
    obtain ⟨j, hj, hwj⟩ := visited_core hmask hw'
    have hlti := (mem_completeCores.mp hi).1
    have hltj := (mem_completeCores.mp hj).1
    rw [coreIdOf_of_mem hlti hwi, coreIdOf_of_mem hltj hwj, Int.ofNat_lt] at hlt
    exact Finset.disjoint_left.mp (coreMask_disjoint hlti hltj hlt.ne) ((coreThreads_of_mem _ hlti hwi).2.1 c hc)
      ((coreThreads_of_mem _ hltj hwj).2.1 c hc')

theorem card_of_visited (hmask : WholeCores S mask) {limit i w : ℕ} (hi : i ∈ completeCores S mask)
    (hw : w ∈ coreWalk S mask) (hwi : w ∈ coreMask S i) :
    {c ∈ coreMask S i | c ∈ boundThreads S limit mask}.card = coreLimit limit (coreMask S i).card := by
  have hlt := (mem_completeCores.mp hi).1
  obtain ⟨hnodup, hmem, hlength⟩ := coreThreads_of_mem limit hlt hwi
  rw [← hlength]
  refine Lib.card_eq_length_of_mem_iff hnodup fun c => ⟨fun hc => ?_, fun hc => ?_⟩
  · exact Finset.mem_filter.mpr ⟨hmem c hc, mem_flatMap.mpr ⟨w, hw, hc⟩⟩
  · obtain ⟨hci, hbound⟩ := Finset.mem_filter.mp hc
    obtain ⟨j, hj, hcj, w', hw', hwj, hcw⟩ := mem_boundThreads hmask hbound
    have hij : j = i := by
      by_contra hne
      exact Finset.disjoint_left.mp (coreMask_disjoint (mem_completeCores.mp hj).1 hlt hne) hcj hci
    exact visited_unique hlt hw' hw (hij ▸ hwj) hwi ▸ hcw

/-! ## The number of threads -/

variable (hregular : Regular S T)

include hregular in
theorem card_wholeCores (hmask : WholeCores S mask) : mask.card = (completeCores S mask).card * T := by
  have hunion : mask = (completeCores S mask).biUnion (coreMask S) := by
    ext c
    rw [Finset.mem_biUnion]
    exact ⟨fun hc => WholeCores.coreId hmask hc, fun ⟨i, hi, hc⟩ => (mem_completeCores.mp hi).2.2 hc⟩
  have hdisjoint : (completeCores S mask : Set ℕ).PairwiseDisjoint (coreMask S) := fun i hi j hj hne =>
    coreMask_disjoint (mem_completeCores.mp hi).1 (mem_completeCores.mp hj).1 hne
  conv_lhs => rw [hunion]
  rw [Finset.card_biUnion hdisjoint]
  refine Finset.sum_const_nat fun i hi => ?_
  obtain ⟨hlt, hne, -⟩ := mem_completeCores.mp hi
  exact hregular.card i hlt hne

theorem coresIntersecting_of_wholeCores (hmask : WholeCores S mask) : muGetCoresIntersectingWithCpuset S mask = mask := by
  have hfold (l : List CpuSet) (acc : CpuSet) (c : ℕ) : c ∈ l.foldl (· ∪ ·) acc ↔ c ∈ acc ∨ ∃ core ∈ l, c ∈ core := by
    induction l generalizing acc with
    | nil => simp
    | cons core l ih => simp [ih, or_assoc]
  have hintersects : ∀ core, muIntersects S core mask = true ↔ ∃ c ∈ core, c ∈ mask := fun core => by
    rw [muIntersects, decide_eq_true_eq, Finset.card_pos]
    constructor
    · rintro ⟨c, hc⟩
      obtain ⟨hin, -⟩ := Finset.mem_filter.mp hc
      exact ⟨c, Finset.mem_of_mem_inter_left hin, Finset.mem_of_mem_inter_right hin⟩
    · rintro ⟨c, hc, hm⟩
      exact ⟨c, Finset.mem_filter.mpr ⟨Finset.mem_inter.mpr ⟨hc, hm⟩, hmask.fits c hm⟩⟩
  ext c
  rw [muGetCoresIntersectingWithCpuset, hfold]
  simp only [Finset.notMem_empty, false_or, mem_filter, hintersects]
  constructor
  · rintro ⟨core, ⟨hcore, x, hx, hm⟩, hc⟩
    obtain ⟨core', hcore', hx', hsub⟩ := hmask x hm
    exact hsub (core_unique hcore hcore' hx hx' ▸ hc)
  · intro hc
    obtain ⟨core, hcore, hin, hsub⟩ := hmask c hc
    exact ⟨core, ⟨hcore, c, hin, hc⟩, hin⟩

include hregular in
theorem setNumThreads_of_wholeCores (hT : 0 < T) (hmask : WholeCores S s.activeMask) :
    (s.setNumThreadsFromActiveMask S k T).numThreads = (completeCores S s.activeMask).card * k := by
  unfold Omp5.setNumThreadsFromActiveMask
  rw [coresIntersecting_of_wholeCores hmask, card_wholeCores hregular hmask, Nat.mul_div_cancel _ hT]
  split
  · rename_i heq
    rw [heq]
  · rfl

theorem boundThreads_length (hmask : WholeCores S mask) {limit m : ℕ} (horder : CoresInOrder S mask)
    (hm : ∀ i ∈ completeCores S mask, coreLimit limit (coreMask S i).card = m) :
    (boundThreads S limit mask).length = (completeCores S mask).card * m := by
  have hwalk : (coreWalk S mask).length = (completeCores S mask).card := by
    have hid : ∀ c ∈ coreWalk S mask, ∀ i ∈ completeCores S mask, c ∈ coreMask S i → (coreIdOf S (some c)).toNat = i :=
      fun c _ i hi hc => by rw [coreIdOf_of_mem (mem_completeCores.mp hi).1 hc, Int.toNat_natCast]
    have hnodup : ((coreWalk S mask).map fun c => (coreIdOf S (some c)).toNat).Nodup := by
      refine pairwise_map.mpr ((coreWalk_increasing mask).imp_of_mem fun {c c'} hc hc' hlt heq => ?_)
      obtain ⟨i, hi, hci⟩ := visited_core hmask hc
      obtain ⟨j, hj, hcj⟩ := visited_core hmask hc'
      rw [hid c hc i hi hci, hid c' hc' j hj hcj] at heq
      rw [coreIdOf_of_mem (mem_completeCores.mp hi).1 hci, coreIdOf_of_mem (mem_completeCores.mp hj).1 hcj, heq] at hlt
      exact lt_irrefl _ hlt
    rw [Lib.card_eq_length_of_mem_iff hnodup, length_map]
    intro i
    rw [mem_map]
    constructor
    · rintro ⟨c, hc, rfl⟩
      obtain ⟨i, hi, hci⟩ := visited_core hmask hc
      exact (hid c hc i hi hci).symm ▸ hi
    · intro hi
      obtain ⟨c, hc, hci⟩ := (coresInOrder_iff hmask).mp horder i hi
      exact ⟨c, hc, hid c hc i hi hci⟩
  have hblock : ∀ n ∈ (coreWalk S mask).map fun c => (coreThreads S limit c).length, n = m := by
    intro n hn
    obtain ⟨c, hc, rfl⟩ := mem_map.mp hn
    obtain ⟨i, hi, hci⟩ := visited_core hmask hc
    exact (coreThreads_of_mem _ (mem_completeCores.mp hi).1 hci).2.2.trans (hm i hi)
  rw [boundThreads, length_flatMap, sum_eq_card_nsmul _ m hblock, length_map, hwalk]
  rfl

namespace Omp5

theorem covers_iff {limit : ℕ} (hregular : Regular S T) (hk : 1 ≤ k) (hmask : WholeCores S s.activeMask)
    (hperm : s.cpuBindings.Perm (boundThreads S limit s.activeMask)) (hthreads : s.numThreads = (completeCores S s.activeMask).card * k) :
    s.Covers S k ↔ CoresInOrder S s.activeMask ∧ (coreLimit limit T = k ∨ s.activeMask = ∅) := by
  have hT : ∀ i ∈ completeCores S s.activeMask, (coreMask S i).card = T := fun i hi => by
    obtain ⟨hlt, hne, -⟩ := mem_completeCores.mp hi
    exact hregular.card i hlt hne
  have hsame : ∀ i, {c ∈ coreMask S i | c ∈ s.cpuBindings} = {c ∈ coreMask S i | c ∈ boundThreads S limit s.activeMask} :=
    fun i => Finset.filter_congr fun c _ => hperm.mem_iff
  have hactive : ∀ c ∈ s.cpuBindings, c ∈ s.activeMask := fun c hc => by
    obtain ⟨i, hi, hci, -⟩ := mem_boundThreads hmask (hperm.mem_iff.mp hc)
    exact (mem_completeCores.mp hi).2.2 hci
  have hnodup : s.cpuBindings.Nodup := hperm.nodup_iff.mpr (boundThreads_nodup hmask limit)
  constructor
  · intro h
    have hvisited : ∀ i ∈ completeCores S s.activeMask, ∃ c ∈ coreWalk S s.activeMask, c ∈ coreMask S i := fun i hi => by
      have hpos : 0 < {c ∈ coreMask S i | c ∈ s.cpuBindings}.card := (h.cores i hi).symm ▸ hk
      obtain ⟨c, hc⟩ := Finset.card_pos.mp hpos
      obtain ⟨hci, hbound⟩ := Finset.mem_filter.mp hc
      obtain ⟨j, hj, hcj, w, hw, hwj, -⟩ := mem_boundThreads hmask (hperm.mem_iff.mp hbound)
      have hij : j = i := by
        by_contra hne
        exact Finset.disjoint_left.mp (coreMask_disjoint (mem_completeCores.mp hj).1 (mem_completeCores.mp hi).1 hne) hcj hci
      exact ⟨w, hw, hij ▸ hwj⟩
    refine ⟨(coresInOrder_iff hmask).mpr hvisited, ?_⟩
    rcases s.activeMask.eq_empty_or_nonempty with hempty | ⟨c, hc⟩
    · exact .inr hempty
    · obtain ⟨i, hi, -⟩ := WholeCores.coreId hmask hc
      obtain ⟨w, hw, hwi⟩ := hvisited i hi
      have hcard := h.cores i hi
      rw [hsame, card_of_visited hmask hi hw hwi, hT i hi] at hcard
      exact .inl hcard
  · rintro ⟨horder, hlimit⟩
    have hlimits : ∀ i ∈ completeCores S s.activeMask, coreLimit limit (coreMask S i).card = k := fun i hi => by
      rcases hlimit with hlimit | hempty
      · rw [hT i hi, hlimit]
      · obtain ⟨-, hne, hsub⟩ := mem_completeCores.mp hi
        exact absurd (Finset.subset_empty.mp (hempty ▸ hsub)) hne.ne_empty
    have hlength : s.cpuBindings.length = s.numThreads := by
      rw [hperm.length_eq, boundThreads_length hmask horder hlimits, hthreads]
    refine ⟨hnodup, hactive, fun i hi => ?_, ?_, hlength, fun n hn => ?_⟩
    · obtain ⟨w, hw, hwi⟩ := (coresInOrder_iff hmask).mp horder i hi
      rw [hsame, card_of_visited hmask hi hw hwi, hlimits i hi]
    · have hsub : s.cpuBindings.toFinset ⊆ Finset.range S.size := fun c hc => by
        obtain ⟨core, hcore, hin, -⟩ := hmask c (hactive c (mem_toFinset.mp hc))
        exact Finset.mem_range.mpr (System.lt_size (S.covered core hcore hin))
      rw [← toFinset_card_of_nodup hnodup]
      exact (Finset.card_le_card hsub).trans (Finset.card_range _).le
    · have hplace : ∀ j < s.numThreads, s.getThreadBinding j = s.cpuBindings[j]? := fun j hj => by
        rw [getThreadBinding, Nat.mod_eq_of_lt (hlength ▸ hj)]
      have hlt : n < s.cpuBindings.length := hlength ▸ hn
      refine ⟨s.cpuBindings[n], (hplace n hn).trans (getElem?_eq_getElem hlt), fun j hj heq => ?_⟩
      rw [hplace j hj, ← getElem?_eq_getElem hlt] at heq
      exact (getElem?_inj (hlength ▸ hj) hnodup).mp heq

/-! ## Runs -/

theorem setMasks_activeMask (e : Omp5Event) (hs : s.activeMask ⊆ S.sysMask) :
    (s.setMasks S e).activeMask = e.active s.activeMask := by
  cases e with
  | disableCpuSet cpuSet => exact muSubtract_of_fits (fits_of_subset hs) (fits_of_subset hs)
  | _ => rfl

theorem active_inside {e : Omp5Event} (he : e.Inside S) (hmask : mask ⊆ S.sysMask) : e.active mask ⊆ S.sysMask := by
  cases e with
  | enableCpu cpuid => exact Finset.insert_subset he hmask
  | enableCpuSet cpuSet => exact Finset.union_subset hmask he
  | disableCpu cpuid => exact (Finset.erase_subset _ _).trans hmask
  | disableCpuSet cpuSet => exact Finset.sdiff_subset.trans hmask
  | setProcessMask mask => exact he

theorem foldl_activeMask {events : List Omp5Event} (hevents : ∀ e ∈ events, e.Inside S) (hs : s.activeMask ⊆ S.sysMask) :
    (events.foldl (callback S Q k hw) s).activeMask = events.foldl Omp5Event.active s.activeMask := by
  induction events generalizing s with
  | nil => rfl
  | cons e events ih =>
    obtain ⟨he, hevents⟩ := forall_mem_cons.mp hevents
    have hstep : (s.callback S Q k hw e).activeMask = e.active s.activeMask := setMasks_activeMask e hs
    rw [foldl_cons, foldl_cons, ih hevents (hstep ▸ active_inside he hs), hstep]

theorem init_activeMask (processMask : CpuSet) (lend : Option ℕ) :
    (init S Q k hw processMask lend).activeMask = lend.elim processMask ({·}) := by
  cases lend <;> rfl

theorem hwthreads_of_nonempty (hregular : Regular S T) (hfirst : (coreMask S 0).Nonempty) :
    muGetSystemHwthreadsPerCore S = some T := by
  have hlt : 0 < S.cores.length := by
    by_contra hnone
    have hempty : coreMask S 0 = ∅ := getD_eq_default _ _ (Nat.not_lt.mp hnone)
    exact hfirst.ne_empty hempty
  rw [muGetSystemHwthreadsPerCore, if_neg (Finset.card_pos.mpr hfirst).ne', hregular.card 0 hlt hfirst]

end Omp5

open Omp5

/-- **OpenMP thread bindings** cover each active core, after `omptm_omp5__init` and any callbacks, exactly if core id `0` is
used, the active cores start in the order of their ids, and the list does not date from `omptm_omp5__init`, or all
hardware threads are to be used. -/
theorem bindings_cover_iff (S : System) (Q : Lib.Qsort) {T k : ℕ} (hregular : Regular S T) (hk : 1 ≤ k) (hkT : k ≤ T)
    (processMask : CpuSet) (hprocess : WholeCores S processMask) (lend : Option ℕ) (hlend : ∀ c ∈ lend, c ∈ S.sysMask)
    (events : List Omp5Event) (hevents : ∀ e ∈ events, e.Inside S)
    (hwhole : WholeCores S (activeAfter processMask lend events)) :
    (∃ s, Omp5.run S Q k processMask lend events = some s ∧ s.Covers S k) ↔
      (coreMask S 0).Nonempty ∧ CoresInOrder S (activeAfter processMask lend events) ∧
        (events = [] → k = T ∨ activeAfter processMask lend events = ∅) := by
  have hT : 0 < T := hk.trans hkT
  have hstart : lend.elim processMask ({·}) ⊆ S.sysMask := by
    cases lend with
    | none =>
      intro c hc
      obtain ⟨core, hcore, hin, -⟩ := hprocess c hc
      exact S.covered core hcore hin
    | some cpuid => exact Finset.singleton_subset_iff.mpr (hlend cpuid rfl)
  have hlimit : coreLimit k T = k := by rw [coreLimit, if_neg (by omega), Nat.min_eq_left hkT]
  rcases (coreMask S 0).eq_empty_or_nonempty with hempty | hfirst
  · have hfatal : muGetSystemHwthreadsPerCore S = none := by
      rw [muGetSystemHwthreadsPerCore, hempty, if_pos Finset.card_empty]
    refine iff_of_false ?_ fun h => h.1.ne_empty hempty
    rintro ⟨s, hrun, -⟩
    rw [Omp5.run, hfatal] at hrun
    cases hrun
  rw [Omp5.run, hwthreads_of_nonempty hregular hfirst, Option.map_some]
  set s := events.foldl (callback S Q k T) (init S Q k T processMask lend) with hs
  have hactive : s.activeMask = activeAfter processMask lend events := by
    have hinit : (init S Q k T processMask lend).activeMask = lend.elim processMask ({·}) :=
      init_activeMask processMask lend
    rw [hs, foldl_activeMask hevents (hinit ▸ hstart), hinit, activeAfter]
  have hmask : WholeCores S s.activeMask := hactive ▸ hwhole
  have hcovers : s.Covers S k ↔
      CoresInOrder S s.activeMask ∧ (events = [] → k = T ∨ s.activeMask = ∅) := by
    rcases eq_nil_or_concat' events with rfl | ⟨before, e, rfl⟩
    · cases lend with
      | none =>
        have hthreads : s.numThreads = (completeCores S s.activeMask).card * k := setNumThreads_of_wholeCores hregular hT hmask
        rw [covers_iff hregular hk hmask (init_perm processMask) hthreads]
        exact and_congr_right fun _ => ⟨fun h _ => h.imp_left Eq.symm, fun h => (h rfl).imp_left Eq.symm⟩
      | some cpuid =>
        -- one CPU is a whole core
        have hone : (completeCores S s.activeMask).card * T = 1 := (card_wholeCores hregular hmask).symm
        have hkT : k = T := by
          have := Nat.eq_one_of_mul_eq_one_left hone
          omega
        have hthreads : s.numThreads = (completeCores S s.activeMask).card * k := by
          rw [hkT, hone]
          rfl
        rw [covers_iff hregular hk hmask (computeCpuBindings_perm _ k) hthreads]
        exact and_congr_right fun _ => iff_of_true (.inl hlimit) fun _ => .inl hkT
    · have hstep : s = callback S Q k T (before.foldl (callback S Q k T) (init S Q k T processMask lend)) e := by
        rw [hs, foldl_append]
        rfl
      have hthreads : s.numThreads = (completeCores S s.activeMask).card * k := by
        rw [hstep] at hmask ⊢
        exact setNumThreads_of_wholeCores hregular hT hmask
      have hperm : s.cpuBindings.Perm (boundThreads S k s.activeMask) := by
        rw [hstep]
        exact computeCpuBindings_perm _ k
      rw [covers_iff hregular hk hmask hperm hthreads]
      exact and_congr_right fun _ => iff_of_true (.inl hlimit) fun h => absurd h (by simp)
  rw [← hactive]
  exact ⟨fun ⟨s', heq, h⟩ => ⟨hfirst, hcovers.mp (Option.some.inj heq ▸ h)⟩, fun ⟨_, h⟩ => ⟨s, rfl, hcovers.mpr h⟩⟩

/-- CPU `0` has core id `1`, and the other way round. -/
def swappedIds : System where
  sysMask := {0, 1}
  cores := [{1}, {0}]
  disjoint := by decide
  covered := by decide

def twoByTwo : System where
  sysMask := {0, 1, 2, 3}
  cores := [{0, 1}, {2, 3}]
  disjoint := pairwise_pairs
  covered := subset_of_pairs

theorem swappedIds_regular : Regular swappedIds 1 := ⟨by decide, by decide⟩

theorem twoByTwo_regular : Regular twoByTwo 2 := ⟨by decide, by decide⟩

/-- One thread for each core, after one of them has been enabled. -/
theorem bindings_cover_twoByTwo :
    ∃ s, Omp5.run twoByTwo Lib.insertionQsort 1 {0, 1} none [.enableCpuSet {2, 3}] = some s ∧ s.Covers twoByTwo 1 :=
  (bindings_cover_iff twoByTwo Lib.insertionQsort twoByTwo_regular (Nat.le_refl 1) (by decide) {0, 1}
    (by unfold WholeCores; decide) none nofun [.enableCpuSet {2, 3}]
    (fun e he => by rw [mem_singleton.mp he]; exact (by decide : ({2, 3} : Finset ℕ) ⊆ {0, 1, 2, 3}))
    (by unfold WholeCores; decide)).mpr ⟨by decide, by unfold CoresInOrder; decide, nofun⟩

/-- The core with the smaller id is left out, and its CPU has no thread. After `omptm_omp5__init` the threads of a core
have two CPUs where they should have one. -/
theorem bindings_miss_core :
    (parseCores 2 (systemOf {0, 1}) Lib.insertionStrictQsort [⟨1, {0}⟩, ⟨0, {1}⟩]).map (·.set) = swappedIds.cores ∧
      (¬∃ s, Omp5.run swappedIds Lib.insertionQsort 1 {0, 1} none [.enableCpu 0] = some s ∧ s.Covers swappedIds 1) ∧
      ¬∃ s, Omp5.run twoByTwo Lib.insertionQsort 1 {0, 1, 2, 3} none [] = some s ∧ s.Covers twoByTwo 1 := by
  refine ⟨by decide, ?_, ?_⟩
  · rintro ⟨s, hrun, h⟩
    obtain rfl := Option.some.inj hrun
    have horder := ((Omp5.covers_iff swappedIds_regular (Nat.le_refl 1) (by unfold WholeCores; decide)
      (computeCpuBindings_perm _ 1) (by decide)).mp h).1
    exact absurd horder (by unfold CoresInOrder; decide)
  · rintro ⟨s, hrun, h⟩
    obtain rfl := Option.some.inj hrun
    have hmask : WholeCores twoByTwo (init twoByTwo Lib.insertionQsort 1 2 {0, 1, 2, 3} none).activeMask := by
      unfold WholeCores
      decide
    have hlimit := ((Omp5.covers_iff twoByTwo_regular (Nat.le_refl 1) hmask (init_perm {0, 1, 2, 3}) (by decide)).mp h).2
    exact absurd hlimit (by decide)

end Dlb.Omptm
