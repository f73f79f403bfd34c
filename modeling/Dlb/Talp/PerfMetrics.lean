import Dlb.Lib.Reduce
import Dlb.Talp.Types
import Mathlib.Algebra.Order.Ring.Rat

/-!
# POP metrics

`perf_metrics.c`: the monitors of all processes are reduced first among the processes of each node, where devices are
shared, and then among all processes, and the efficiencies are computed from the result. The floating-point numbers
are read as rationals; a quotient by zero, which the source leaves to the floating-point unit, is zero here.

What a field of the result is follows from what the processes contribute to it: `ReduceMonitorIntoBaseMetrics.procs`
for a field that every process takes from its monitor, `RootField` for a field that the process with id 0 takes from
the node reduction.
-/

namespace Dlb.Talp

open List

def minDoubleNonZero (a b : ℚ) : ℚ :=
  if a = 0 ∧ b = 0 then 0
  else if a = 0 then b
  else if b = 0 then a
  else min a b

/-- `pop_base_metrics_t`. -/
structure PopBaseMetrics where
  numCpus : ℕ := 0
  numAvailableCpus : ℕ := 0
  numOmpThreads : ℕ := 0
  numMpiRanks : ℕ := 0
  numNodes : ℕ := 0
  numGpus : ℕ := 0
  counters : HwCounters := {}
  numMeasurements : ℕ := 0
  stats : EventStats := {}
  elapsedTime : ℤ := 0
  usefulTime : ℤ := 0
  mpiTime : ℤ := 0
  mpiWorkerIdleTime : ℤ := 0
  ompLoadImbalanceTime : ℤ := 0
  ompSchedulingTime : ℤ := 0
  ompSerializationTime : ℤ := 0
  gpuRuntimeTime : ℤ := 0
  minMpiNormdProc : ℚ := 0
  minMpiNormdNode : ℚ := 0
  gpuUsefulTime : ℤ := 0
  gpuCommunicationTime : ℤ := 0
  gpuInactiveTime : ℤ := 0
  maxGpuUsefulTime : ℤ := 0
  maxGpuActiveTime : ℤ := 0
deriving DecidableEq

/-! ## The models -/

/-- `perf_metrics_hybrid_t`. -/
structure PerfMetricsHybrid where
  parallelEfficiency : ℚ := 0
  mpiParallelEfficiency : ℚ := 0
  mpiCommunicationEfficiency : ℚ := 0
  mpiLoadBalance : ℚ := 0
  mpiLoadBalanceIn : ℚ := 0
  mpiLoadBalanceOut : ℚ := 0
  ompParallelEfficiency : ℚ := 0
  ompLoadBalance : ℚ := 0
  ompSchedulingEfficiency : ℚ := 0
  ompSerializationEfficiency : ℚ := 0
  deviceOffloadEfficiency : ℚ := 0
  gpuParallelEfficiency : ℚ := 0
  gpuLoadBalance : ℚ := 0
  gpuCommunicationEfficiency : ℚ := 0
  gpuOrchestrationEfficiency : ℚ := 0
deriving DecidableEq

section Models

variable (base : PopBaseMetrics)

/-- Active is the union of all times, while the CPU is not disabled. -/
def PopBaseMetrics.sumActive : ℤ :=
  base.usefulTime + base.mpiTime + base.ompLoadImbalanceTime + base.ompSchedulingTime + base.ompSerializationTime
    + base.gpuRuntimeTime

/-- Equivalent to all CPU time if OpenMP was not present. -/
def PopBaseMetrics.sumActiveNonOmp : ℤ := base.usefulTime + base.mpiTime + base.gpuRuntimeTime

def PopBaseMetrics.sumDeviceTime : ℤ := base.elapsedTime * base.numGpus

/-- Max value of non-MPI times normalized at process level. -/
def PopBaseMetrics.maxNonMpiNormdProc : ℚ := base.elapsedTime - base.minMpiNormdProc

/-- Max value of non-MPI times normalized at node level. -/
def PopBaseMetrics.maxNonMpiNormdNode : ℚ := base.elapsedTime - base.minMpiNormdNode

/-- The metrics that both versions of the model compute alike: those of OpenMP and of the devices. -/
def computeHybridCommon : PerfMetricsHybrid :=
  { parallelEfficiency := base.usefulTime / base.sumActive
    ompParallelEfficiency := base.sumActiveNonOmp / base.sumActive
    ompLoadBalance := (base.sumActiveNonOmp + base.ompSerializationTime)
      / (base.sumActiveNonOmp + base.ompSerializationTime + base.ompLoadImbalanceTime)
    ompSchedulingEfficiency := (base.sumActiveNonOmp + base.ompSerializationTime + base.ompLoadImbalanceTime)
      / (base.sumActiveNonOmp + base.ompSerializationTime + base.ompLoadImbalanceTime + base.ompSchedulingTime)
    ompSerializationEfficiency := base.sumActiveNonOmp / (base.sumActiveNonOmp + base.ompSerializationTime)
    gpuParallelEfficiency := if base.sumDeviceTime = 0 then 0 else base.gpuUsefulTime / base.sumDeviceTime
    gpuLoadBalance := if base.maxGpuUsefulTime * base.numGpus = 0 then 0
      else base.gpuUsefulTime / (base.maxGpuUsefulTime * base.numGpus)
    gpuCommunicationEfficiency := if base.maxGpuActiveTime = 0 then 0
      else base.maxGpuUsefulTime / base.maxGpuActiveTime
    gpuOrchestrationEfficiency := if base.sumDeviceTime = 0 then 0 else base.maxGpuActiveTime / base.elapsedTime }

def computeHybridModelV1 : PerfMetricsHybrid :=
  let sumActiveNonGpu : ℤ := base.sumActive - base.gpuRuntimeTime
  let mpiNormdApp : ℚ := base.mpiTime / base.numCpus
  let nonMpiNormdApp : ℚ := base.elapsedTime - mpiNormdApp
  { computeHybridCommon base with
    mpiParallelEfficiency := base.usefulTime / (base.usefulTime + base.mpiTime)
    mpiCommunicationEfficiency := base.maxNonMpiNormdProc / (nonMpiNormdApp + mpiNormdApp)
    mpiLoadBalance := nonMpiNormdApp / base.maxNonMpiNormdProc
    mpiLoadBalanceIn := base.maxNonMpiNormdNode / base.maxNonMpiNormdProc
    mpiLoadBalanceOut := nonMpiNormdApp / base.maxNonMpiNormdNode
    deviceOffloadEfficiency := sumActiveNonGpu / base.sumActive }

def computeHybridModelV2 : PerfMetricsHybrid :=
  let sumOmpNotUseful : ℤ := base.ompLoadImbalanceTime + base.ompSchedulingTime + base.ompSerializationTime
  let mpiNormdApp : ℚ := (base.mpiTime + base.mpiWorkerIdleTime) / base.numCpus
  let nonMpiNormdApp : ℚ := base.elapsedTime - mpiNormdApp
  { computeHybridCommon base with
    mpiParallelEfficiency := nonMpiNormdApp / base.elapsedTime
    mpiCommunicationEfficiency := base.maxNonMpiNormdProc / base.elapsedTime
    mpiLoadBalance := nonMpiNormdApp / base.maxNonMpiNormdProc
    mpiLoadBalanceIn := base.maxNonMpiNormdNode / base.maxNonMpiNormdProc
    mpiLoadBalanceOut := nonMpiNormdApp / base.maxNonMpiNormdNode
    deviceOffloadEfficiency :=
      (base.usefulTime + sumOmpNotUseful) / (base.usefulTime + sumOmpNotUseful + base.gpuRuntimeTime) }

/-- `talp_model_t`. -/
inductive TalpModel where
  | hybridV1 | hybridV2
deriving DecidableEq

/-- The efficiencies that `perf_metrics__base_to_pop_metrics` stores. -/
def baseToPopMetrics (talpModel : TalpModel) : PerfMetricsHybrid :=
  if base.usefulTime > 0 then
    match talpModel with
    | .hybridV1 => computeHybridModelV1 base
    | .hybridV2 => computeHybridModelV2 base
  else {}

end Models

/-! ## The node reduction -/

/-- One device in the arrays of `node_reduction_t`. -/
structure GpuReduction where
  gpuId : ℕ
  gpuUseful : ℤ
  gpuCommunication : ℤ
deriving DecidableEq, Repr

/-- `node_reduction_t`; the arrays of the devices are one list of `num_gpu_ids` entries. -/
structure NodeReduction where
  nodeUsed : Bool := false
  cpusNode : ℕ := 0
  mpiTime : ℤ := 0
  mpiWorkerIdleTime : ℤ := 0
  gpus : List GpuReduction := []
deriving DecidableEq, Repr

/-- The entry of a device with the maxima of its times and those of another entry. -/
def GpuReduction.max (gpu other : GpuReduction) : GpuReduction :=
  { gpu with
    gpuUseful := Max.max gpu.gpuUseful other.gpuUseful
    gpuCommunication := Max.max gpu.gpuCommunication other.gpuCommunication }

/-- One iteration of `merge_gpu_metrics`. -/
def mergeGpu (inout : List GpuReduction) (gpu : GpuReduction) : List GpuReduction :=
  match inout.findIdx? (·.gpuId == gpu.gpuId) with
  | some idx => inout.modify idx (·.max gpu)
  | none =>
    -- MAX_NODE_GPUS exceeded: the device is left out
    if inout.length ≥ maxNodeGpus then inout
    else inout ++ [GpuReduction.max { gpuId := gpu.gpuId, gpuUseful := 0, gpuCommunication := 0 } gpu]

def mergeGpuMetrics (inout input : NodeReduction) : NodeReduction :=
  { inout with gpus := input.gpus.foldl mergeGpu inout.gpus }

/-- `mpi_node_reduction_fn` on one element: what is left in `inout`. -/
def mpiNodeReductionFn (input inout : NodeReduction) : NodeReduction :=
  if input.nodeUsed then
    mergeGpuMetrics
      { inout with
        nodeUsed := true
        cpusNode := inout.cpusNode + input.cpusNode
        mpiTime := inout.mpiTime + input.mpiTime
        mpiWorkerIdleTime := inout.mpiWorkerIdleTime + input.mpiWorkerIdleTime } input
  else inout

/-- A process of a node: its monitor and `talp_gpu_local_to_unique_id`. -/
structure Process where
  monitor : Monitor
  localToUniqueId : ℕ → ℕ
  measured : 0 < monitor.elapsedTime → 0 < monitor.numMeasurements

/-- A node: the processes by their `_process_id` and `mu_get_system_count`. -/
structure Node where
  procs : List Process
  systemCount : ℕ
  systemCount_pos : 0 < systemCount

/-- The contribution of a process to the node reduction. -/
def Process.nodeReductionSend (p : Process) : NodeReduction where
  nodeUsed := p.monitor.numMeasurements > 0
  cpusNode := p.monitor.numCpus
  mpiTime := p.monitor.mpiTime
  mpiWorkerIdleTime := p.monitor.mpiWorkerIdleTime
  gpus := (gpusOf p.monitor.data.gpuMask).map fun gpu =>
    { gpuId := p.localToUniqueId gpu
      gpuUseful := (p.monitor.data.gpuTimers gpu).useful
      gpuCommunication := (p.monitor.data.gpuTimers gpu).communication }

/-- `reduce_pop_metrics_node_reduction`, as seen by the process with id 0. -/
def ReducePopMetricsNodeReduction (node : Node) (nodeReduction : NodeReduction) : Prop :=
  ∃ reduced, Lib.Reduces mpiNodeReductionFn (node.procs.map Process.nodeReductionSend) reduced ∧
    nodeReduction = { reduced with
      cpusNode := if reduced.cpusNode > node.systemCount then node.systemCount else reduced.cpusNode }

/-! ## The application reduction -/

/-- `mpi_reduction_fn` on one element: what is left in `inout`. -/
def mpiReductionFn (input inout : PopBaseMetrics) : PopBaseMetrics where
  numCpus := inout.numCpus + input.numCpus
  numAvailableCpus := inout.numAvailableCpus + input.numAvailableCpus
  numOmpThreads := inout.numOmpThreads + input.numOmpThreads
  numMpiRanks := inout.numMpiRanks + input.numMpiRanks
  numNodes := inout.numNodes + input.numNodes
  numGpus := inout.numGpus + input.numGpus
  counters :=
    { cycles := inout.counters.cycles + input.counters.cycles
      instructions := inout.counters.instructions + input.counters.instructions }
  numMeasurements := inout.numMeasurements + input.numMeasurements
  stats :=
    { numMpiCalls := inout.stats.numMpiCalls + input.stats.numMpiCalls
      numOmpParallels := inout.stats.numOmpParallels + input.stats.numOmpParallels
      numOmpTasks := inout.stats.numOmpTasks + input.stats.numOmpTasks
      numGpuRuntimeCalls := inout.stats.numGpuRuntimeCalls + input.stats.numGpuRuntimeCalls }
  elapsedTime := max inout.elapsedTime input.elapsedTime
  usefulTime := inout.usefulTime + input.usefulTime
  mpiTime := inout.mpiTime + input.mpiTime
  mpiWorkerIdleTime := inout.mpiWorkerIdleTime + input.mpiWorkerIdleTime
  ompLoadImbalanceTime := inout.ompLoadImbalanceTime + input.ompLoadImbalanceTime
  ompSchedulingTime := inout.ompSchedulingTime + input.ompSchedulingTime
  ompSerializationTime := inout.ompSerializationTime + input.ompSerializationTime
  gpuRuntimeTime := inout.gpuRuntimeTime + input.gpuRuntimeTime
  minMpiNormdProc := minDoubleNonZero inout.minMpiNormdProc input.minMpiNormdProc
  minMpiNormdNode := minDoubleNonZero inout.minMpiNormdNode input.minMpiNormdNode
  gpuUsefulTime := inout.gpuUsefulTime + input.gpuUsefulTime
  gpuCommunicationTime := inout.gpuCommunicationTime + input.gpuCommunicationTime
  gpuInactiveTime := inout.gpuInactiveTime + input.gpuInactiveTime
  maxGpuUsefulTime := max inout.maxGpuUsefulTime input.maxGpuUsefulTime
  maxGpuActiveTime := max inout.maxGpuActiveTime input.maxGpuActiveTime

/-- The contribution of the process with the given `_process_id` to the application reduction. -/
def appReductionSend (processId systemCount : ℕ) (nodeReduction : NodeReduction) (monitor : Monitor) :
    PopBaseMetrics :=
  let reportsNode : Bool := processId = 0 ∧ nodeReduction.nodeUsed
  { numCpus := monitor.numCpus
    numAvailableCpus := if reportsNode then systemCount else 0
    numOmpThreads := monitor.numOmpThreads
    numMpiRanks := 1
    numNodes := if reportsNode then 1 else 0
    numGpus := if reportsNode then nodeReduction.gpus.length else 0
    counters := monitor.counters
    numMeasurements := monitor.numMeasurements
    stats := monitor.stats
    elapsedTime := monitor.elapsedTime
    usefulTime := monitor.usefulTime
    mpiTime := monitor.mpiTime
    mpiWorkerIdleTime := monitor.mpiWorkerIdleTime
    ompLoadImbalanceTime := monitor.ompLoadImbalanceTime
    ompSchedulingTime := monitor.ompSchedulingTime
    ompSerializationTime := monitor.ompSerializationTime
    gpuRuntimeTime := monitor.gpuRuntimeTime
    minMpiNormdProc := if monitor.numCpus = 0 then 0
      else (monitor.mpiTime + monitor.mpiWorkerIdleTime : ℚ) / monitor.numCpus
    minMpiNormdNode := if processId ≠ 0 then 0
      else if nodeReduction.cpusNode = 0 then 0
      else (nodeReduction.mpiTime + nodeReduction.mpiWorkerIdleTime : ℚ) / nodeReduction.cpusNode
    gpuUsefulTime := if reportsNode then (nodeReduction.gpus.map (·.gpuUseful)).sum else 0
    gpuCommunicationTime := if reportsNode then (nodeReduction.gpus.map (·.gpuCommunication)).sum else 0
    gpuInactiveTime := monitor.gpuInactiveTime
    maxGpuUsefulTime := monitor.gpuUsefulTime
    maxGpuActiveTime := monitor.gpuUsefulTime + monitor.gpuCommunicationTime }

/-- The contributions of the processes of a node. Only the process with id 0 has the result of the node reduction. -/
def Node.appReductionSends (node : Node) (nodeReduction : NodeReduction) : List PopBaseMetrics :=
  node.procs.zipIdx.map fun p =>
    appReductionSend p.2 node.systemCount (if p.2 = 0 then nodeReduction else {}) p.1.monitor

/-- `perf_metrics__reduce_monitor_into_base_metrics`, as seen by a process that gets the result. -/
def ReduceMonitorIntoBaseMetrics (nodes : List Node) (base : PopBaseMetrics) : Prop :=
  ∃ nodeReductions, List.Forall₂ ReducePopMetricsNodeReduction nodes nodeReductions ∧
    Lib.ReducesComm mpiReductionFn (zipWith Node.appReductionSends nodes nodeReductions).flatten base

/-! ## Fields of the result -/

section Fields

open Lib

variable {nodes : List Node} {base : PopBaseMetrics} {node : Node} {r : NodeReduction}
variable {γ : Type*} {f : PopBaseMetrics → γ}

def processes (nodes : List Node) : List Process := nodes.flatMap Node.procs

theorem appReductionSends_map {g : Monitor → γ} (hf : ∀ id count r m, f (appReductionSend id count r m) = g m)
    (node : Node) (r : NodeReduction) :
    (node.appReductionSends r).map f = node.procs.map fun p => g p.monitor := by
  have hfst : (node.procs.zipIdx.map Prod.fst).map (fun p => g p.monitor) = node.procs.map fun p => g p.monitor := by
    rw [zipIdx_map_fst]
  rw [← hfst, Node.appReductionSends, map_map, map_map]
  exact map_congr_left fun p _ => hf _ _ _ _

theorem contributions_map {g : Monitor → γ} (hf : ∀ id count r m, f (appReductionSend id count r m) = g m)
    {R : Node → NodeReduction → Prop} {rs : List NodeReduction} (h : List.Forall₂ R nodes rs) :
    (zipWith Node.appReductionSends nodes rs).flatten.map f = (processes nodes).map fun p => g p.monitor := by
  induction h with
  | nil => rfl
  | cons _ _ ih =>
    rw [zipWith_cons_cons, flatten_cons, map_append, ih, appReductionSends_map hf]
    simp [processes]

/-- A field that the process with id 0 takes from the node reduction, and that is zero for the others. -/
structure RootField [Zero γ] (f : PopBaseMetrics → γ) (g : ℕ → NodeReduction → γ) : Prop where
  root : ∀ count r m, f (appReductionSend 0 count r m) = g count r
  other : ∀ id count m, id ≠ 0 → f (appReductionSend id count {} m) = 0

theorem RootField.map [Zero γ] {g : ℕ → NodeReduction → γ} (hf : RootField f g) {p : Process} {rest : List Process}
    (hp : node.procs = p :: rest) :
    (node.appReductionSends r).map f = g node.systemCount r :: replicate rest.length 0 := by
  rw [Node.appReductionSends, hp, zipIdx_cons, map_cons, map_cons, if_pos rfl, hf.root]
  refine congrArg _ (eq_replicate_iff.mpr ⟨by simp, fun x hx => ?_⟩)
  simp only [map_map, mem_map] at hx
  obtain ⟨q, hq, rfl⟩ := hx
  have hid : q.2 ≠ 0 := by
    have := le_snd_of_mem_zipIdx hq
    omega
  simp only [Function.comp_apply, if_neg hid]
  exact hf.other _ _ _ hid

theorem ReducePopMetricsNodeReduction.exists_root (h : ReducePopMetricsNodeReduction node r) :
    ∃ p rest, node.procs = p :: rest := by
  obtain ⟨reduced, hr, -⟩ := h
  exact exists_cons_of_ne_nil fun hnil => hr.ne_nil (by rw [hnil, map_nil])

theorem ReduceMonitorIntoBaseMetrics.exists (nodes : List Node) (hnodes : nodes ≠ [])
    (hprocs : ∀ n ∈ nodes, n.procs ≠ []) : ∃ base, ReduceMonitorIntoBaseMetrics nodes base := by
  have hrs : ∃ rs, List.Forall₂ ReducePopMetricsNodeReduction nodes rs := by
    clear hnodes
    induction nodes with
    | nil => exact ⟨[], .nil⟩
    | cons n nodes ih =>
      obtain ⟨rs, hrs⟩ := ih fun n hn => hprocs n (mem_cons_of_mem _ hn)
      obtain ⟨p, rest, hp⟩ := exists_cons_of_ne_nil (hprocs n mem_cons_self)
      have hred := Reduces.foldl mpiNodeReductionFn p.nodeReductionSend (rest.map Process.nodeReductionSend)
      rw [← map_cons, ← hp] at hred
      exact ⟨_, .cons ⟨_, hred, rfl⟩ hrs⟩
  obtain ⟨rs, hrs⟩ := hrs
  have hne : (zipWith Node.appReductionSends nodes rs).flatten ≠ [] := by
    cases hrs with
    | nil => exact absurd rfl hnodes
    | cons hr _ =>
      obtain ⟨p, rest, hp⟩ := hr.exists_root
      simp [Node.appReductionSends, hp]
  obtain ⟨b, sends, hb⟩ := exists_cons_of_ne_nil hne
  exact ⟨_, rs, hrs, hb ▸ (Reduces.foldl mpiReductionFn b sends).comm⟩

theorem RootField.sum [AddCommMonoid γ] {g : ℕ → NodeReduction → γ} (hf : RootField f g) {rs : List NodeReduction}
    (h : List.Forall₂ ReducePopMetricsNodeReduction nodes rs) :
    ((zipWith Node.appReductionSends nodes rs).flatten.map f).sum =
      (zipWith (fun n r => g n.systemCount r) nodes rs).sum := by
  induction h with
  | nil => rfl
  | cons hr _ ih =>
    obtain ⟨p, rest, hp⟩ := hr.exists_root
    rw [zipWith_cons_cons, flatten_cons, map_append, sum_append, ih, hf.map hp,
      zipWith_cons_cons, sum_cons, sum_cons]
    simp

theorem RootField.mem_iff [Zero γ] {g : ℕ → NodeReduction → γ} (hf : RootField f g) {rs : List NodeReduction}
    (h : List.Forall₂ ReducePopMetricsNodeReduction nodes rs) {s : γ} (hs : s ≠ 0) :
    s ∈ (zipWith Node.appReductionSends nodes rs).flatten.map f ↔
      s ∈ zipWith (fun n r => g n.systemCount r) nodes rs := by
  induction h with
  | nil => rfl
  | cons hr _ ih =>
    obtain ⟨p, rest, hp⟩ := hr.exists_root
    rw [zipWith_cons_cons, flatten_cons, map_append, mem_append, ih, hf.map hp,
      zipWith_cons_cons, mem_cons, mem_cons]
    simp [hs]

theorem ReduceMonitorIntoBaseMetrics.procs {g : Monitor → γ} {k : γ → γ → γ}
    (h : ReduceMonitorIntoBaseMetrics nodes base) (hf : ∀ id count r m, f (appReductionSend id count r m) = g m)
    (hop : ∀ a b, f (mpiReductionFn a b) = k (f a) (f b)) :
    ReducesComm k ((processes nodes).map fun p => g p.monitor) (f base) := by
  obtain ⟨rs, hrs, hred⟩ := h
  rw [← contributions_map hf hrs]
  exact hred.view hop

theorem minDoubleNonZero_eq (a b : ℚ) : minDoubleNonZero b a = minNonzero a b := by
  unfold minDoubleNonZero minNonzero
  by_cases ha : a = 0 <;> by_cases hb : b = 0 <;> simp [ha, hb, min_comm]

end Fields

end Dlb.Talp
