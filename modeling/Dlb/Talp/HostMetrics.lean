import Dlb.Talp.PerfMetrics
import Mathlib.Algebra.BigOperators.Ring.Finset
import Mathlib.Tactic.FieldSimp
import Mathlib.Tactic.Linarith

/-!
# The host efficiencies

The MPI metrics of the hybrid model are efficiencies as far as the two minima that the reductions deliver are the least
shares of MPI time: of the processes and of the nodes. The reductions take a share of zero as absent, so that a process
without MPI time does not count, although it is the one with the least.

* what the node reduction delivers (`ReducePopMetricsNodeReduction.mpiNormd`), and the two minima.
-/

namespace Dlb.Talp

open List Lib

variable {nodes : List Node} {base : PopBaseMetrics} {node : Node} {r : NodeReduction}

/-! ## The inputs -/

def Process.mpi (p : Process) : ℤ := p.monitor.mpiTime + p.monitor.mpiWorkerIdleTime

def Process.mpiNormd (p : Process) : ℚ := p.mpi / p.monitor.numCpus

/-- The CPUs of a node that are counted: not more than the system has. -/
def Node.cpus (node : Node) : ℕ := min (node.procs.map (·.monitor.numCpus)).sum node.systemCount

def Node.mpiNormd (node : Node) : ℚ := ((node.procs.map Process.mpi).sum : ℤ) / node.cpus

def mpiNormd (nodes : List Node) : ℚ :=
  (((processes nodes).map Process.mpi).sum : ℤ) / (((processes nodes).map (·.monitor.numCpus)).sum : ℕ)

/-- A process with at least one CPU that is not in MPI for longer than the elapsed time, for each of its CPUs. -/
structure Process.Measures (p : Process) (elapsed : ℤ) : Prop where
  elapsed_eq : p.monitor.elapsedTime = elapsed
  cpus_pos : 1 ≤ p.monitor.numCpus
  mpi_nonneg : 0 ≤ p.mpi
  mpi_le : p.mpi ≤ elapsed * p.monitor.numCpus

variable {E : ℤ}

theorem Process.Measures.elapsed_nonneg {p : Process} (h : p.Measures E) : 0 ≤ E := by
  have hc : (0 : ℤ) < p.monitor.numCpus := by exact_mod_cast h.cpus_pos
  exact nonneg_of_mul_nonneg_left (h.mpi_nonneg.trans h.mpi_le) hc

theorem ReducePopMetricsNodeReduction.sums (h : ReducePopMetricsNodeReduction node r)
    (hused : ∀ p ∈ node.procs, 0 < p.monitor.numMeasurements) :
    r.nodeUsed = true ∧ r.cpusNode = node.cpus ∧
      r.mpiTime + r.mpiWorkerIdleTime = (node.procs.map Process.mpi).sum := by
  obtain ⟨reduced, hr, rfl⟩ := h
  have hkeep : ∀ a b : NodeReduction, a.nodeUsed = true → b.nodeUsed = true →
      (mpiNodeReductionFn a b).nodeUsed = true := by
    intro a b ha _
    simp [mpiNodeReductionFn, ha, mergeGpuMetrics]
  have hsend : ∀ a ∈ node.procs.map Process.nodeReductionSend, a.nodeUsed = true := by
    intro a ha
    obtain ⟨p, hp, rfl⟩ := mem_map.mp ha
    simpa [Process.nodeReductionSend] using hused p hp
  have hcpus := (hr.viewOn (f := NodeReduction.cpusNode) (k := (· + ·)) hkeep hsend fun a b ha _ => by
    simp [mpiNodeReductionFn, ha, mergeGpuMetrics, Nat.add_comm]).eq_sum
  have hmpi := (hr.viewOn (f := fun r => r.mpiTime + r.mpiWorkerIdleTime) (k := (· + ·)) hkeep hsend
    fun a b ha _ => by
      simp only [mpiNodeReductionFn, ha, mergeGpuMetrics, if_pos]
      omega).eq_sum
  rw [map_map] at hcpus hmpi
  refine ⟨hr.closed hkeep hsend, ?_, hmpi⟩
  have hsum : reduced.cpusNode = (node.procs.map (·.monitor.numCpus)).sum := hcpus
  rw [Node.cpus, ← hsum]
  dsimp only
  split <;> omega

/-! ## The minima -/

section Minima

variable (h : ReduceMonitorIntoBaseMetrics nodes base)
include h

theorem ReduceMonitorIntoBaseMetrics.proc_minimum (hcpus : ∀ p ∈ processes nodes, 1 ≤ p.monitor.numCpus) :
    LeastNonzero ((processes nodes).map Process.mpiNormd) base.minMpiNormdProc := by
  have hmin := (h.procs (f := PopBaseMetrics.minMpiNormdProc)
    (g := fun m => if m.numCpus = 0 then 0 else (m.mpiTime + m.mpiWorkerIdleTime : ℚ) / m.numCpus)
    (fun _ _ _ _ => rfl) fun a b => minDoubleNonZero_eq _ _).leastNonzero
  have hmap : ((processes nodes).map fun p => if p.monitor.numCpus = 0 then 0
      else (p.monitor.mpiTime + p.monitor.mpiWorkerIdleTime : ℚ) / p.monitor.numCpus) =
      (processes nodes).map Process.mpiNormd := by
    refine map_congr_left fun p hp => ?_
    rw [if_neg (Nat.one_le_iff_ne_zero.mp (hcpus p hp)), Process.mpiNormd, Process.mpi]
    push_cast
    rfl
  rwa [hmap] at hmin

theorem ReduceMonitorIntoBaseMetrics.node_minimum {share : Node → ℚ}
    (hshare : ∀ n ∈ nodes, ∀ r, ReducePopMetricsNodeReduction n r →
      (if r.cpusNode = 0 then 0 else (r.mpiTime + r.mpiWorkerIdleTime : ℚ) / r.cpusNode) = share n) :
    LeastNonzero (nodes.map share) base.minMpiNormdNode := by
  obtain ⟨rs, hrs, hred⟩ := h
  have hmin := (hred.view (f := PopBaseMetrics.minMpiNormdNode) fun a b => minDoubleNonZero_eq _ _).leastNonzero
  have hroot : RootField PopBaseMetrics.minMpiNormdNode fun _ r =>
      if r.cpusNode = 0 then 0 else (r.mpiTime + r.mpiWorkerIdleTime : ℚ) / r.cpusNode :=
    ⟨fun _ _ _ => by simp [appReductionSend], fun _ _ _ hid => by simp [appReductionSend, hid]⟩
  have hzip : zipWith (fun (_ : Node) (r : NodeReduction) =>
      if r.cpusNode = 0 then 0 else (r.mpiTime + r.mpiWorkerIdleTime : ℚ) / r.cpusNode) nodes rs =
      nodes.map share := by
    clear hmin hred
    induction hrs with
    | nil => rfl
    | cons hr _ ih =>
      rw [zipWith_cons_cons, map_cons, hshare _ mem_cons_self _ hr,
        ih fun n hn => hshare n (mem_cons_of_mem _ hn)]
  rw [← hzip]
  exact hmin.congr fun s hs => (hroot.mem_iff hrs hs).symm

end Minima

/-! ## When the metrics are efficiencies -/

/-- The MPI metrics are efficiencies: those whose denominator is positive are between zero and one, and the products
hold. -/
structure Efficient (base : PopBaseMetrics) (metrics : PerfMetricsHybrid) : Prop where
  parallel : 0 < base.elapsedTime → metrics.mpiParallelEfficiency ∈ Set.Icc 0 1
  communication : 0 < base.elapsedTime → metrics.mpiCommunicationEfficiency ∈ Set.Icc 0 1
  balance : 0 < base.maxNonMpiNormdProc → metrics.mpiLoadBalance ∈ Set.Icc 0 1
  balanceIn : 0 < base.maxNonMpiNormdProc → metrics.mpiLoadBalanceIn ∈ Set.Icc 0 1
  balanceOut : 0 < base.maxNonMpiNormdNode → metrics.mpiLoadBalanceOut ∈ Set.Icc 0 1
  parallel_eq : 0 < base.elapsedTime → 0 < base.maxNonMpiNormdProc →
    metrics.mpiParallelEfficiency = metrics.mpiCommunicationEfficiency * metrics.mpiLoadBalance
  balance_eq : 0 < base.maxNonMpiNormdProc → 0 < base.maxNonMpiNormdNode →
    metrics.mpiLoadBalance = metrics.mpiLoadBalanceIn * metrics.mpiLoadBalanceOut

/-- The share of MPI time of the application in the result of the reductions. -/
def PopBaseMetrics.mpiNormdApp (base : PopBaseMetrics) : ℚ :=
  (base.mpiTime + base.mpiWorkerIdleTime) / base.numCpus

theorem quotient_mem_iff {e a b : ℚ} (hb : b < e) : (e - a) / (e - b) ∈ Set.Icc 0 1 ↔ b ≤ a ∧ a ≤ e := by
  have hpos : 0 < e - b := sub_pos.mpr hb
  rw [Set.mem_Icc, le_div_iff₀ hpos, zero_mul, div_le_one hpos, sub_nonneg, sub_le_sub_iff_left, and_comm]

/-- **Efficiencies and the two minima.** The metrics are efficiencies exactly when the minimum of the processes is not
above the share of the application and not above the minimum of the nodes, and the latter is not above the share of the
application, as far as the denominators are positive. -/
theorem efficient_iff (huseful : 0 < base.usefulTime) (happ : base.mpiNormdApp ∈ Set.Icc 0 (base.elapsedTime : ℚ))
    (hproc : base.minMpiNormdProc ∈ Set.Icc 0 (base.elapsedTime : ℚ)) :
    Efficient base (baseToPopMetrics base .hybridV2) ↔
      (base.minMpiNormdProc < base.elapsedTime → base.minMpiNormdProc ≤ base.mpiNormdApp ∧
        base.minMpiNormdProc ≤ base.minMpiNormdNode ∧ base.minMpiNormdNode ≤ base.elapsedTime) ∧
      (base.minMpiNormdNode < base.elapsedTime → base.minMpiNormdNode ≤ base.mpiNormdApp) := by
  rw [baseToPopMetrics, if_pos huseful]
  constructor
  · intro hb
    refine ⟨fun hp => ?_, fun hn => ?_⟩
    · have hpos := sub_pos.mpr hp
      exact ⟨((quotient_mem_iff hp).mp (hb.balance hpos)).1, (quotient_mem_iff hp).mp (hb.balanceIn hpos)⟩
    · exact ((quotient_mem_iff hn).mp (hb.balanceOut (sub_pos.mpr hn))).1
  · rintro ⟨hp, hn⟩
    have hzero : ∀ {x : ℚ}, 0 < base.elapsedTime → x ∈ Set.Icc 0 (base.elapsedTime : ℚ) →
        ((base.elapsedTime : ℚ) - x) / base.elapsedTime ∈ Set.Icc 0 1 := by
      intro x he hx
      have := (quotient_mem_iff (e := base.elapsedTime) (a := x) (b := 0) (by exact_mod_cast he)).mpr hx
      rwa [sub_zero] at this
    refine ⟨fun he => hzero he happ, fun he => hzero he hproc, fun hpos => ?_, fun hpos => ?_, fun hpos => ?_,
      fun he hpos => ?_, fun hpos hpos' => ?_⟩
    · have hlt := sub_pos.mp hpos
      exact (quotient_mem_iff hlt).mpr ⟨(hp hlt).1, happ.2⟩
    · have hlt := sub_pos.mp hpos
      exact (quotient_mem_iff hlt).mpr (hp hlt).2
    · have hlt := sub_pos.mp hpos
      exact (quotient_mem_iff hlt).mpr ⟨hn hlt, happ.2⟩
    · have he' : (base.elapsedTime : ℚ) ≠ 0 := by exact_mod_cast he.ne'
      simp only [computeHybridModelV2]
      field_simp
    · have hne := hpos.ne'
      simp only [computeHybridModelV2]
      field_simp

/-! ## Shares of MPI time -/

theorem Process.Measures.mpiNormd_mem {p : Process} (h : p.Measures E) : p.mpiNormd ∈ Set.Icc 0 (E : ℚ) := by
  have hc : (0 : ℚ) < p.monitor.numCpus := by exact_mod_cast h.cpus_pos
  have hm : (0 : ℚ) ≤ p.mpi := by exact_mod_cast h.mpi_nonneg
  refine ⟨div_nonneg hm hc.le, (div_le_iff₀ hc).mpr ?_⟩
  exact_mod_cast h.mpi_le

theorem sum_mpi_mem {l : List Process} (h : ∀ p ∈ l, p.Measures E) :
    0 ≤ (l.map Process.mpi).sum ∧ (l.map Process.mpi).sum ≤ E * (l.map (·.monitor.numCpus)).sum := by
  induction l with
  | nil => simp
  | cons p l ih =>
    obtain ⟨hp, hl⟩ := forall_mem_cons.mp h
    obtain ⟨hnn, hle⟩ := ih hl
    simp only [map_cons, sum_cons, Nat.cast_add, mul_add]
    exact ⟨add_nonneg hp.mpi_nonneg hnn, add_le_add hp.mpi_le hle⟩

theorem sum_cpus_pos {l : List Process} (h : ∀ p ∈ l, p.Measures E) (hl : l ≠ []) :
    0 < (l.map (·.monitor.numCpus)).sum := by
  obtain ⟨p, rest, rfl⟩ := exists_cons_of_ne_nil hl
  have := (h p mem_cons_self).cpus_pos
  rw [map_cons, sum_cons]
  omega

theorem mpiNormd_mem (h : ∀ p ∈ processes nodes, p.Measures E) (hl : processes nodes ≠ []) :
    mpiNormd nodes ∈ Set.Icc 0 (E : ℚ) := by
  obtain ⟨hnn, hle⟩ := sum_mpi_mem h
  have hc : (0 : ℚ) < ((processes nodes).map (·.monitor.numCpus)).sum := by exact_mod_cast sum_cpus_pos h hl
  have hnn' : (0 : ℚ) ≤ (((processes nodes).map Process.mpi).sum : ℤ) := by exact_mod_cast hnn
  have hle' : ((((processes nodes).map Process.mpi).sum : ℤ) : ℚ) ≤
      ((E * (((processes nodes).map (·.monitor.numCpus)).sum : ℕ) : ℤ) : ℚ) := Int.cast_le.mpr hle
  rw [Int.cast_mul, Int.cast_natCast] at hle'
  exact ⟨div_nonneg hnn' hc.le, (div_le_iff₀ hc).mpr hle'⟩

theorem Node.mpiNormd_nonneg (h : ∀ p ∈ node.procs, p.Measures E) : 0 ≤ node.mpiNormd := by
  have hnn : (0 : ℚ) ≤ ((node.procs.map Process.mpi).sum : ℤ) := by exact_mod_cast (sum_mpi_mem h).1
  exact div_nonneg hnn (Nat.cast_nonneg _)

theorem Node.mpi_eq_zero (h : ∀ p ∈ node.procs, p.Measures E) (hn : node.mpiNormd = 0) :
    ∀ p ∈ node.procs, p.mpiNormd = 0 := by
  intro p hp
  have hcpus : 0 < node.cpus :=
    lt_min (sum_cpus_pos h (ne_nil_of_mem hp)) node.systemCount_pos
  have hsum : (node.procs.map Process.mpi).sum = 0 := by
    have hc : ((node.cpus : ℕ) : ℚ) ≠ 0 := by exact_mod_cast hcpus.ne'
    exact_mod_cast (div_eq_zero_iff.mp hn).resolve_right hc
  have hnn : ∀ x ∈ node.procs.map Process.mpi, 0 ≤ x := by
    intro x hx
    obtain ⟨q, hq, rfl⟩ := mem_map.mp hx
    exact (h q hq).mpi_nonneg
  have hzero : p.mpi = 0 :=
    le_antisymm (hsum ▸ single_le_sum hnn _ (mem_map_of_mem hp)) (h p hp).mpi_nonneg
  rw [Process.mpiNormd, hzero, Int.cast_zero, zero_div]

theorem ReducePopMetricsNodeReduction.mpiNormd (h : ReducePopMetricsNodeReduction node r)
    (hm : ∀ p ∈ node.procs, p.Measures E) :
    (if r.cpusNode = 0 then 0 else (r.mpiTime + r.mpiWorkerIdleTime : ℚ) / r.cpusNode) = node.mpiNormd := by
  have hdiv : (if r.cpusNode = 0 then 0 else (r.mpiTime + r.mpiWorkerIdleTime : ℚ) / r.cpusNode) =
      ((r.mpiTime + r.mpiWorkerIdleTime : ℤ) : ℚ) / r.cpusNode := by
    split
    · rename_i h0
      simp [h0]
    · push_cast
      rfl
  rw [hdiv]
  by_cases hE : 0 < E
  · obtain ⟨-, hcpus, hmpi⟩ := h.sums fun p hp => p.measured (by rw [(hm p hp).elapsed_eq]; exact hE)
    rw [hcpus, hmpi, Node.mpiNormd]
  · -- without elapsed time there is no MPI time, whatever the node reduction leaves out
    have hzero : ∀ p ∈ node.procs, p.mpi = 0 := by
      intro p hp
      have hE0 : E = 0 := le_antisymm (not_lt.mp hE) (hm p hp).elapsed_nonneg
      have := (hm p hp).mpi_le
      rw [hE0, zero_mul] at this
      exact le_antisymm this (hm p hp).mpi_nonneg
    have hr : r.mpiTime + r.mpiWorkerIdleTime = 0 := by
      obtain ⟨reduced, hred, rfl⟩ := h
      refine hred.closed (P := fun r => r.mpiTime + r.mpiWorkerIdleTime = 0) (fun a b ha hb => ?_) fun a ha => ?_
      · unfold mpiNodeReductionFn
        split
        · simp only [mergeGpuMetrics]
          omega
        · exact hb
      · obtain ⟨p, hp, rfl⟩ := mem_map.mp ha
        exact hzero p hp
    have hsum : (node.procs.map Process.mpi).sum = 0 := by
      rw [map_congr_left hzero]
      simp
    rw [hr, Node.mpiNormd, hsum]
    simp

/-! ## In terms of the times of the processes -/

/-- The least nonzero share of the processes is not above the share of the application, and not above that of a node
with MPI time; some node has a share within the elapsed time, and some one within that of the application. Nothing is
asked of a minimum that leaves nothing of the elapsed time. -/
structure RepresentativeMinima (nodes : List Node) (elapsed : ℚ) : Prop where
  proc_le_app : SomeNonzero ((processes nodes).map Process.mpiNormd) (· < elapsed) →
    SomeNonzero ((processes nodes).map Process.mpiNormd) (· ≤ mpiNormd nodes)
  proc_le_node : SomeNonzero ((processes nodes).map Process.mpiNormd) (· < elapsed) →
    ∀ n ∈ nodes, n.mpiNormd ≠ 0 → SomeNonzero ((processes nodes).map Process.mpiNormd) (· ≤ n.mpiNormd)
  node_le_elapsed : SomeNonzero ((processes nodes).map Process.mpiNormd) (· < elapsed) →
    SomeNonzero (nodes.map Node.mpiNormd) (· ≤ elapsed)
  node_le_app : SomeNonzero (nodes.map Node.mpiNormd) (· < elapsed) →
    SomeNonzero (nodes.map Node.mpiNormd) (· ≤ mpiNormd nodes)

section Main

variable {elapsed : ℤ} (h : ReduceMonitorIntoBaseMetrics nodes base)
include h

theorem ReduceMonitorIntoBaseMetrics.processes_ne_nil : processes nodes ≠ [] := by
  intro hnil
  have := (h.procs (f := PopBaseMetrics.elapsedTime) (g := Monitor.elapsedTime) (fun _ _ _ _ => rfl)
    fun a b => max_comm _ _).ne_nil
  rw [hnil] at this
  exact this rfl

theorem ReduceMonitorIntoBaseMetrics.mpiNormdApp_eq : base.mpiNormdApp = mpiNormd nodes := by
  have hcpus := (h.procs (f := PopBaseMetrics.numCpus) (g := Monitor.numCpus) (k := (· + ·)) (fun _ _ _ _ => rfl)
    fun a b => Nat.add_comm _ _).eq_sum
  have hmpi := (h.procs (f := fun b => b.mpiTime + b.mpiWorkerIdleTime)
    (g := fun m => m.mpiTime + m.mpiWorkerIdleTime) (k := (· + ·)) (fun _ _ _ _ => rfl) fun a b => by
      simp only [mpiReductionFn]
      omega).eq_sum
  have hmpi' : base.mpiTime + base.mpiWorkerIdleTime = ((processes nodes).map Process.mpi).sum := hmpi
  rw [PopBaseMetrics.mpiNormdApp, mpiNormd, hcpus, ← hmpi']
  push_cast
  rfl

theorem ReduceMonitorIntoBaseMetrics.elapsedTime_eq (hall : ∀ p ∈ processes nodes, p.monitor.elapsedTime = elapsed) :
    base.elapsedTime = elapsed := by
  have hmax := h.procs (f := PopBaseMetrics.elapsedTime) (g := Monitor.elapsedTime) (fun _ _ _ _ => rfl)
    fun a b => max_comm _ _
  rw [map_congr_left hall] at hmax
  refine le_antisymm ((hmax.le_iff elapsed).mpr fun x hx => ?_) ?_
  · obtain ⟨p, -, rfl⟩ := mem_map.mp hx
    exact le_rfl
  · obtain ⟨p, hp⟩ := exists_mem_of_ne_nil _ h.processes_ne_nil
    exact (hmax.le_iff base.elapsedTime).mp le_rfl elapsed (mem_map.mpr ⟨p, hp, rfl⟩)

variable (hm : ∀ p ∈ processes nodes, p.Measures elapsed)
include hm

omit h in
theorem proc_minimum_le_node {x y : ℚ} (hx : LeastNonzero ((processes nodes).map Process.mpiNormd) x)
    (hy : LeastNonzero (nodes.map Node.mpiNormd) y) :
    x ≤ y ↔ ∀ n ∈ nodes, n.mpiNormd ≠ 0 →
      SomeNonzero ((processes nodes).map Process.mpiNormd) (· ≤ n.mpiNormd) := by
  have hnode : ∀ n ∈ nodes, ∀ p ∈ n.procs, p.Measures elapsed := fun n hn p hp =>
    hm p (mem_flatMap.mpr ⟨n, hn, hp⟩)
  have hle : ∀ n ∈ nodes, x ≤ n.mpiNormd ↔
      SomeNonzero ((processes nodes).map Process.mpiNormd) (· ≤ n.mpiNormd) := fun n hn =>
    hx.iff_someNonzero (fun _ _ hab hb => hab.trans hb) (Node.mpiNormd_nonneg (hnode n hn))
  constructor
  · intro hxy n hn hn0
    refine (hle n hn).mp (hxy.trans ?_)
    obtain ⟨-, hall⟩ | ⟨-, -, hmin⟩ := hy
    · exact absurd (hall _ (mem_map_of_mem hn)) hn0
    · exact hmin _ (mem_map_of_mem hn) hn0
  · intro hall
    obtain ⟨rfl, hzero⟩ | ⟨hy0, hmem, -⟩ := hy
    · -- no node has MPI time, so no process has
      refine (hx.iff_someNonzero (fun _ _ hab hb => hab.trans hb) le_rfl).mpr (.inl fun s hs => ?_)
      obtain ⟨p, hp, rfl⟩ := mem_map.mp hs
      obtain ⟨n, hn, hpn⟩ := mem_flatMap.mp hp
      exact Node.mpi_eq_zero (hnode n hn) (hzero _ (mem_map_of_mem hn)) p hpn
    · obtain ⟨n, hn, rfl⟩ := mem_map.mp hmem
      exact (hle n hn).mpr (hall n hn hy0)

/-- **The host metrics.** After the reductions the MPI metrics are efficiencies exactly when the least nonzero shares
of MPI time represent the processes and the nodes. -/
theorem mpi_metrics_efficient_iff (huseful : 0 < ((processes nodes).map (·.monitor.usefulTime)).sum) :
    Efficient base (baseToPopMetrics base .hybridV2) ↔ RepresentativeMinima nodes elapsed := by
  have hne := h.processes_ne_nil
  have hE := h.elapsedTime_eq fun p hp => (hm p hp).elapsed_eq
  have hnode : ∀ n ∈ nodes, ∀ p ∈ n.procs, p.Measures elapsed := fun n hn p hp =>
    hm p (mem_flatMap.mpr ⟨n, hn, hp⟩)
  have hu : 0 < base.usefulTime := by
    have := (h.procs (f := PopBaseMetrics.usefulTime) (g := Monitor.usefulTime) (k := (· + ·)) (fun _ _ _ _ => rfl)
      fun a b => Int.add_comm _ _).eq_sum
    rw [this]
    exact huseful
  have hP := h.proc_minimum fun p hp => (hm p hp).cpus_pos
  have hN := h.node_minimum fun n hn r hr => hr.mpiNormd (hnode n hn)
  have happ := mpiNormd_mem hm hne
  have helapsed : (0 : ℚ) ≤ elapsed := happ.1.trans happ.2
  have hproc : base.minMpiNormdProc ∈ Set.Icc 0 (elapsed : ℚ) := by
    obtain ⟨h0, -⟩ | ⟨-, hmem, -⟩ := hP
    · rw [h0]
      exact ⟨le_rfl, helapsed⟩
    · obtain ⟨p, hp, hpn⟩ := mem_map.mp hmem
      rw [← hpn]
      exact (hm p hp).mpiNormd_mem
  rw [efficient_iff hu (by rwa [h.mpiNormdApp_eq, hE]) (by rwa [hE]), h.mpiNormdApp_eq, hE]
  have hle : ∀ {a b c : ℚ}, a ≤ b → b ≤ c → a ≤ c := le_trans
  rw [proc_minimum_le_node hm hP hN, hP.iff_someNonzero (fun _ _ hab hb => hle hab hb) happ.1,
    hN.iff_someNonzero (fun _ _ hab hb => hle hab hb) happ.1,
    hN.iff_someNonzero (fun _ _ hab hb => hle hab hb) helapsed]
  obtain hpos | hzero := helapsed.lt_or_eq
  · rw [hP.iff_someNonzero (fun _ _ hab hb => lt_of_le_of_lt hab hb) hpos,
      hN.iff_someNonzero (fun _ _ hab hb => lt_of_le_of_lt hab hb) hpos]
    exact ⟨fun ⟨hp, hn⟩ => ⟨fun hs => (hp hs).1, fun hs => (hp hs).2.1, fun hs => (hp hs).2.2, hn⟩,
      fun hr => ⟨fun hs => ⟨hr.proc_le_app hs, hr.proc_le_node hs, hr.node_le_elapsed hs⟩, hr.node_le_app⟩⟩
  · -- without elapsed time no denominator is positive, and no share is nonzero
    have hshare : ∀ s ∈ (processes nodes).map Process.mpiNormd, s = 0 := by
      intro s hs
      obtain ⟨p, hp, rfl⟩ := mem_map.mp hs
      have := (hm p hp).mpiNormd_mem
      rw [← hzero] at this
      exact le_antisymm this.2 this.1
    have hnshare : ∀ s ∈ nodes.map Node.mpiNormd, s = 0 := by
      intro s hs
      obtain ⟨n, hn, rfl⟩ := mem_map.mp hs
      have hsum : (n.procs.map Process.mpi).sum = 0 := by
        obtain ⟨hnn, hle⟩ := sum_mpi_mem (hnode n hn)
        have hE0 : elapsed = 0 := by exact_mod_cast hzero.symm
        rw [hE0, zero_mul] at hle
        exact le_antisymm hle hnn
      rw [Node.mpiNormd, hsum, Int.cast_zero, zero_div]
    have hn0 : base.minMpiNormdNode = 0 := by
      obtain ⟨h0, -⟩ | ⟨h0, hmem, -⟩ := hN
      · exact h0
      · exact absurd (hnshare _ hmem) h0
    rw [← hzero] at hproc ⊢
    refine iff_of_true ⟨fun hlt => absurd hlt (not_lt.mpr hproc.1), fun hlt => ?_⟩
      ⟨fun _ => .inl hshare, fun _ n hn h0 => absurd (hnshare _ (mem_map_of_mem hn)) h0,
        fun _ => .inl hnshare, fun _ => .inl hnshare⟩
    rw [hn0] at hlt
    exact absurd hlt (lt_irrefl 0)

end Main

/-! ## Where the minima are true minima -/

theorem sum_processes {M : Type*} [AddMonoid M] (f : Process → M) (nodes : List Node) :
    ((processes nodes).map f).sum = (nodes.map fun n => (n.procs.map f).sum).sum := by
  induction nodes with
  | nil => rfl
  | cons n nodes ih =>
    rw [map_cons, sum_cons, ← ih, processes, flatMap_cons, map_append, sum_append, processes]

theorem exists_share_le {ι : Type*} {l : List ι} {m : ι → ℤ} {w : ι → ℕ} (hl : l ≠ []) (hw : ∀ i ∈ l, 0 < w i) :
    ∃ i ∈ l, (m i / w i : ℚ) ≤ ((l.map m).sum : ℤ) / ((l.map w).sum : ℕ) := by
  have hcast : (((l.map m).sum : ℤ) / ((l.map w).sum : ℕ) : ℚ) =
      (l.map fun i => (m i : ℚ)).sum / (l.map fun i => (w i : ℚ)).sum := by
    rw [Int.cast_list_sum, Nat.cast_list_sum, map_map, map_map]
    rfl
  rw [hcast]
  exact exists_div_le_mean hl fun i hi => by exact_mod_cast hw i hi

/-- Where every process is in MPI for some time and no node has more CPUs than are counted, the minima are those of all
processes and of all nodes, and they represent them. -/
theorem RepresentativeMinima.of_all_in_mpi {elapsed : ℤ} (hm : ∀ p ∈ processes nodes, p.Measures elapsed)
    (hnodes : nodes ≠ []) (hprocs : ∀ n ∈ nodes, n.procs ≠ []) (hmpi : ∀ p ∈ processes nodes, 0 < p.mpi)
    (hcount : ∀ n ∈ nodes, (n.procs.map (·.monitor.numCpus)).sum ≤ n.systemCount) :
    RepresentativeMinima nodes elapsed := by
  have hnode : ∀ n ∈ nodes, ∀ p ∈ n.procs, p ∈ processes nodes := fun n hn p hp => mem_flatMap.mpr ⟨n, hn, hp⟩
  have hcpus : ∀ n ∈ nodes, n.cpus = (n.procs.map (·.monitor.numCpus)).sum := fun n hn => min_eq_left (hcount n hn)
  have hcpos : ∀ n ∈ nodes, 0 < n.cpus := fun n hn => by
    rw [hcpus n hn]
    exact sum_cpus_pos (fun p hp => hm p (hnode n hn p hp)) (hprocs n hn)
  have hshare : ∀ p ∈ processes nodes, p.mpiNormd ≠ 0 := fun p hp hp0 => by
    have hc := (hm p hp).cpus_pos
    obtain h0 | h0 := div_eq_zero_iff.mp hp0
    · exact (hmpi p hp).ne' (by exact_mod_cast h0)
    · have : p.monitor.numCpus = 0 := by exact_mod_cast h0
      omega
  have hproc : ∀ n ∈ nodes, ∃ p ∈ n.procs, p.mpiNormd ≤ n.mpiNormd := fun n hn => by
    rw [Node.mpiNormd, hcpus n hn]
    exact exists_share_le (hprocs n hn) fun p hp => (hm p (hnode n hn p hp)).cpus_pos
  have hnshare : ∀ n ∈ nodes, n.mpiNormd ≠ 0 := fun n hn hn0 => by
    obtain ⟨p, hp, -⟩ := hproc n hn
    exact hshare p (hnode n hn p hp) (Node.mpi_eq_zero (fun q hq => hm q (hnode n hn q hq)) hn0 p hp)
  have happ : ∃ n ∈ nodes, n.mpiNormd ≤ mpiNormd nodes := by
    have hsum : (nodes.map fun n => (n.procs.map (·.monitor.numCpus)).sum) = nodes.map Node.cpus :=
      map_congr_left fun n hn => (hcpus n hn).symm
    rw [mpiNormd, sum_processes, sum_processes, hsum]
    exact exists_share_le hnodes hcpos
  obtain ⟨n, hn, hle⟩ := happ
  have hnle : SomeNonzero (nodes.map Node.mpiNormd) (· ≤ mpiNormd nodes) :=
    .inr ⟨_, mem_map_of_mem hn, hnshare n hn, hle⟩
  have hall : processes nodes ≠ [] := by
    obtain ⟨p, hp, -⟩ := hproc n hn
    exact ne_nil_of_mem (hnode n hn p hp)
  refine ⟨fun _ => ?_, fun _ n' hn' _ => ?_, fun _ => ?_, fun _ => hnle⟩
  · obtain ⟨p, hp, hple⟩ := hproc n hn
    exact .inr ⟨_, mem_map_of_mem (hnode n hn p hp), hshare p (hnode n hn p hp), hple.trans hle⟩
  · obtain ⟨p, hp, hple⟩ := hproc n' hn'
    exact .inr ⟨_, mem_map_of_mem (hnode n' hn' p hp), hshare p (hnode n' hn' p hp), hple⟩
  · exact .inr ⟨_, mem_map_of_mem hn, hnshare n hn, hle.trans (mpiNormd_mem hm hall).2⟩

/-! ## Two processes -/

/-- A process with one CPU that is useful and in MPI for the given times. -/
def oneCpuProcess (useful mpi : ℤ) : Process where
  monitor := { numCpus := 1, numMeasurements := 1, elapsedTime := useful + mpi, usefulTime := useful, mpiTime := mpi }
  localToUniqueId := id
  measured := fun _ => Nat.one_pos

/-- Two such processes on a node with two CPUs. -/
def twoProcesses (useful mpi useful' mpi' : ℤ) : List Node :=
  [{ procs := [oneCpuProcess useful mpi, oneCpuProcess useful' mpi'], systemCount := 2, systemCount_pos := by decide }]

theorem oneCpuProcess_measures {useful mpi : ℤ} (hu : 0 ≤ useful) (hm : 0 ≤ mpi) :
    (oneCpuProcess useful mpi).Measures (useful + mpi) := by
  refine ⟨rfl, le_rfl, ?_, ?_⟩ <;> simp [oneCpuProcess, Process.mpi, hu, hm]

/-- One process is in MPI for 4 of 10 units, the other for 2, and the metrics are efficiencies. -/
theorem both_in_mpi : ∃ base, ReduceMonitorIntoBaseMetrics (twoProcesses 6 4 8 2) base ∧
    Efficient base (baseToPopMetrics base .hybridV2) := by
  obtain ⟨base, h⟩ := ReduceMonitorIntoBaseMetrics.exists (twoProcesses 6 4 8 2) (by simp [twoProcesses])
    (by simp [twoProcesses])
  have hm : ∀ p ∈ processes (twoProcesses 6 4 8 2), p.Measures 10 :=
    forall_mem_cons.mpr ⟨oneCpuProcess_measures (by decide) (by decide),
      forall_mem_singleton.mpr (oneCpuProcess_measures (by decide) (by decide))⟩
  exact ⟨base, h, (mpi_metrics_efficient_iff h hm (by decide)).mpr
    (.of_all_in_mpi hm (by simp [twoProcesses]) (by simp [twoProcesses]) (by decide) (by decide))⟩

/-- One process is not in MPI at all and the other for 4 of 10 units. The minimum of the processes is the share of the
second one, which is above that of both together, and the load balance is above one. -/
theorem without_mpi_not_counted : ∃ base, ReduceMonitorIntoBaseMetrics (twoProcesses 10 0 6 4) base ∧
    (∀ p ∈ processes (twoProcesses 10 0 6 4), p.Measures 10) ∧
    0 < ((processes (twoProcesses 10 0 6 4)).map (·.monitor.usefulTime)).sum ∧
    ¬ Efficient base (baseToPopMetrics base .hybridV2) := by
  refine ⟨_, ⟨_, .cons ⟨_, .foldl _ _ _, rfl⟩ .nil, (Reduces.foldl _ _ _).comm⟩, ?_, by decide, fun he => ?_⟩
  · exact forall_mem_cons.mpr ⟨oneCpuProcess_measures (by decide) (by decide),
      forall_mem_singleton.mpr (oneCpuProcess_measures (by decide) (by decide))⟩
  · have hle := (he.balance (by decide +kernel)).2
    revert hle
    decide +kernel

end Dlb.Talp
