import Dlb.Talp.Sample
import Mathlib.Algebra.Ring.Int.Defs

/-!
# Monitoring regions

`regions.c` and the aggregation of `talp.c`. A region is started and stopped in sequential code by the main thread,
which flushes the samples of all threads into all open regions; inside a parallel construct, each thread keeps regions
of its own, as snapshots of its sample.

The regions and the threads are arbitrary types: `monitors` is the memory of the monitors, `openRegions` holds
pointers.
-/

namespace Dlb.Talp

/-- `local_region_entry_t`. -/
structure LocalRegionEntry (ρ : Type*) where
  monitor : ρ
  snapshot : Sample
  cpuid : ℕ

/-- The entry that `region_start_thread` makes: the snapshot has the timers, the counters and the statistics of the
sample, and its other fields are zero. -/
def LocalRegionEntry.ofSample {ρ : Type*} (monitor : ρ) (sample : Sample) (cpuid : ℕ) : LocalRegionEntry ρ where
  monitor := monitor
  snapshot := { timers := sample.timers, counters := sample.counters, stats := sample.stats }
  cpuid := cpuid

/-- `talp_info_t`, with the monitors that it points to and the thread-local data: the samples, the roles and the lists
of local regions. -/
structure TalpInfo (τ ρ : Type*) where
  flags : TalpFlags := {}
  numCpus : ℕ
  monitor : ρ
  monitors : ρ → Monitor
  openRegions : List ρ := []
  threads : List τ := []
  currentGenerationTs : ℤ := 0
  samples : τ → Option Sample := fun _ => none
  role : τ → ThreadRole
  localRegions : τ → List (LocalRegionEntry ρ) := fun _ => []

/-- A monitor argument: `DLB_GLOBAL_REGION`, `DLB_LAST_OPEN_REGION` or a pointer. -/
inductive RegionArg (ρ : Type*) where
  | global | lastOpen
  | region (monitor : ρ)

variable {τ ρ : Type*} [DecidableEq τ] [DecidableEq ρ]

namespace TalpInfo

variable (d : TalpInfo τ ρ) (t : τ) (e : Readings)

def setSample (sample : Sample) : TalpInfo τ ρ := { d with samples := Function.update d.samples t (some sample) }

def modifyMonitor (r : ρ) (f : Monitor → Monitor) : TalpInfo τ ρ :=
  { d with monitors := Function.update d.monitors r (f (d.monitors r)) }

def talpSampleGet : TalpInfo τ ρ × Option Sample :=
  match d.samples t with
  | some sample => (d, some sample)
  | none =>
    if (d.role t).isProfiled then
      let sample : Sample :=
        { lastUpdatedTs :=
            match d.openRegions with
            | innermost :: _ => (d.monitors innermost).startTime
            | [] => e.created }
      ({ d.setSample t sample with threads := d.threads ++ [t] }, some sample)
    else (d, none)

def talpSampleUpdate : TalpInfo τ ρ :=
  match d.talpSampleGet t e with
  | (d, none) => d
  | (d, some sample) =>
    let unusedCpus : Option ℤ :=
      if (d.role t).isMainSequential ∧ d.flags.haveOpenmp then some (d.numCpus - 1) else none
    let sample := ensureGeneration sample d.currentGenerationTs e.cpuid
    let sample := updateTimers sample e.now unusedCpus
    d.setSample t (updateCounters sample d.flags.haveHwc e.hwc)

def talpSampleSetState (newState : SampleState) : TalpInfo τ ρ :=
  match d.talpSampleGet t e with
  | (d, none) => d
  | (d, some sample) => d.setSample t { sample with state := newState }

/-! ## Aggregation -/

/-- The macrosample of `talp_sample_aggregate_all_to_macrosample`, at the time `now`. -/
def macrosample (now : ℤ) : Macrosample :=
  d.threads.foldl (fun macrosample u =>
    match d.samples u with
    | none => macrosample
    | some sample =>
      if u = t then aggregateSampleToMacrosample sample macrosample
      else aggregateOtherSample sample d.currentGenerationTs now macrosample) { numSamples := d.threads.length }

def talpSampleAggregateAllToMacrosample : TalpInfo τ ρ × Macrosample :=
  match d.talpSampleGet t e with
  | (d, none) => ({ d with currentGenerationTs := e.now }, d.macrosample t e.now)
  | (d, some sample) =>
    let now := sample.lastUpdatedTs
    ({ d with currentGenerationTs := now }.setSample t { resetSample sample e.cpuid with generationTs := now },
      d.macrosample t now)

/-- What `update_regions_with_macrosample` does to one open region. -/
def updateRegion (haveOpenmp : Bool) (macrosample : Macrosample) (monitor : Monitor) : Monitor :=
  let macrosampleNumCpus := min macrosample.cpuMask.card macrosample.numSamples
  let gpuMask := monitor.data.gpuMask ∪ macrosample.gpuMask
  let gpus := gpusOf macrosample.gpuMask
  { monitor with
    numCpus := if monitor.numCpus < macrosampleNumCpus then macrosampleNumCpus else monitor.numCpus
    numOmpThreads :=
      if haveOpenmp ∧ monitor.numOmpThreads < macrosample.numSamples then macrosample.numSamples
      else monitor.numOmpThreads
    numGpus := gpuMask.card
    usefulTime := monitor.usefulTime + macrosample.timers.useful
    mpiTime := monitor.mpiTime + macrosample.timers.notUsefulMpi
    mpiWorkerIdleTime := monitor.mpiWorkerIdleTime + macrosample.timers.notUsefulOmpDuringMpi
    ompLoadImbalanceTime := monitor.ompLoadImbalanceTime + macrosample.timers.notUsefulOmpInLb
    ompSchedulingTime := monitor.ompSchedulingTime + macrosample.timers.notUsefulOmpInSched
    ompSerializationTime := monitor.ompSerializationTime + macrosample.timers.notUsefulOmpOut
    gpuRuntimeTime := monitor.gpuRuntimeTime + macrosample.timers.notUsefulGpu
    counters :=
      { cycles := monitor.counters.cycles + macrosample.counters.cycles
        instructions := monitor.counters.instructions + macrosample.counters.instructions }
    stats :=
      { numMpiCalls := monitor.stats.numMpiCalls + macrosample.stats.numMpiCalls
        numOmpParallels := monitor.stats.numOmpParallels + macrosample.stats.numOmpParallels
        numOmpTasks := monitor.stats.numOmpTasks + macrosample.stats.numOmpTasks
        numGpuRuntimeCalls := monitor.stats.numGpuRuntimeCalls + macrosample.stats.numGpuRuntimeCalls }
    gpuUsefulTime := monitor.gpuUsefulTime + (gpus.map fun gpu => (macrosample.gpuTimers gpu).useful).sum
    gpuCommunicationTime :=
      monitor.gpuCommunicationTime + (gpus.map fun gpu => (macrosample.gpuTimers gpu).communication).sum
    data :=
      { monitor.data with
        cpuMask := monitor.data.cpuMask ∪ macrosample.cpuMask
        gpuMask := gpuMask
        gpuTimers := fun gpu =>
          if gpu ∈ gpus then
            { useful := (monitor.data.gpuTimers gpu).useful + (macrosample.gpuTimers gpu).useful
              communication := (monitor.data.gpuTimers gpu).communication + (macrosample.gpuTimers gpu).communication }
          else monitor.data.gpuTimers gpu } }

def updateRegionsWithMacrosample (macrosample : Macrosample) : TalpInfo τ ρ :=
  d.openRegions.foldl (fun d r => d.modifyMonitor r (updateRegion d.flags.haveOpenmp macrosample)) d

def talpAggregateSamplesToRegions : TalpInfo τ ρ × DlbError :=
  if (d.role t).isProfiled then
    let (d, macrosample) := d.talpSampleAggregateAllToMacrosample t e
    let macrosample : Macrosample :=
      if d.flags.haveGpu then { macrosample with gpuMask := e.gpuMask, gpuTimers := e.gpuTimers } else macrosample
    (d.updateRegionsWithMacrosample macrosample, .success)
  else (d, .errPerm)

/-- What `talp_aggregate_sample_to_region` does to the monitor. -/
def aggregateSample (numCpus : ℕ) (sample : Sample) (elapsed : ℤ) (monitor : Monitor) : Monitor :=
  let cpuMask := monitor.data.cpuMask ∪ sample.cpuMask
  { monitor with
    numCpus := min cpuMask.card numCpus
    numOmpThreads := min cpuMask.card numCpus
    usefulTime := monitor.usefulTime + sample.timers.useful
    mpiTime := monitor.mpiTime + sample.timers.notUsefulMpi
    ompSchedulingTime := monitor.ompSchedulingTime + sample.timers.notUsefulOmpIn
    gpuRuntimeTime := monitor.gpuRuntimeTime + sample.timers.notUsefulGpu
    counters :=
      { cycles := monitor.counters.cycles + sample.counters.cycles
        instructions := monitor.counters.instructions + sample.counters.instructions }
    stats :=
      { numMpiCalls := monitor.stats.numMpiCalls + sample.stats.numMpiCalls
        numOmpParallels := monitor.stats.numOmpParallels + sample.stats.numOmpParallels
        numOmpTasks := monitor.stats.numOmpTasks + sample.stats.numOmpTasks
        numGpuRuntimeCalls := monitor.stats.numGpuRuntimeCalls + sample.stats.numGpuRuntimeCalls }
    elapsedTime := monitor.elapsedTime + elapsed
    numMeasurements := monitor.numMeasurements + 1
    data := { monitor.data with cpuMask := cpuMask } }

def talpAggregateSampleToRegion (r : ρ) (sample : Sample) (elapsed : ℤ) : TalpInfo τ ρ :=
  d.modifyMonitor r (aggregateSample d.numCpus sample elapsed)

/-! ## Regions of a thread -/

def setLocalRegions (entries : List (LocalRegionEntry ρ)) : TalpInfo τ ρ :=
  { d with localRegions := Function.update d.localRegions t entries }

/-- The part of `region_start_thread` for a region that may be started. -/
def openEntry (r : ρ) : TalpInfo τ ρ × DlbError :=
  match (d.talpSampleUpdate t e).talpSampleGet t e with
  | (d, none) => (d, .success)
  | (d, some sample) =>
    (d.setLocalRegions t (LocalRegionEntry.ofSample r sample e.cpuid :: d.localRegions t), .success)

def regionStartThread (r : ρ) : TalpInfo τ ρ × DlbError :=
  if (d.monitors r).data.started ∨ ¬ (d.monitors r).data.enabled then (d, .noupdt) else d.openEntry t e r

/-- The part of `region_stop_thread` after the entry has been found. -/
def closeEntry (entry : LocalRegionEntry ρ) : TalpInfo τ ρ × DlbError :=
  match (d.talpSampleUpdate t e).talpSampleGet t e with
  | (d, none) => (d, .success)
  | (d, some sample) =>
    let delta := { talpSampleDelta sample entry.snapshot with cpuMask := {entry.cpuid} }
    let elapsed := sample.lastUpdatedTs - entry.snapshot.lastUpdatedTs
    let d := d.talpAggregateSampleToRegion entry.monitor delta elapsed
    (d.setLocalRegions t ((d.localRegions t).eraseP (·.monitor = entry.monitor)), .success)

/-- The entry that `region_stop_thread` finds: the first one, or the first one of the monitor; `none` is
`DLB_LAST_OPEN_REGION`. -/
def findEntry : Option ρ → Option (LocalRegionEntry ρ)
  | none => (d.localRegions t).head?
  | some r => (d.localRegions t).find? (·.monitor = r)

def regionStopThread (monitor : Option ρ) : TalpInfo τ ρ × DlbError :=
  match d.findEntry t monitor with
  | some entry => d.closeEntry t e entry
  | none => (d, if monitor.isNone then .errNoent else .noupdt)

/-! ## Regions of the process -/

/-- The sample that `talp_sample_get` returns to `region_start` and `region_stop`, which have just updated it. -/
def lastUpdatedTs : ℤ := ((d.samples t).map (·.lastUpdatedTs)).getD 0

/-- `region_reset`; `none` is `DLB_GLOBAL_REGION`. -/
def regionReset (monitor : Option ρ) : TalpInfo τ ρ × DlbError :=
  let r := monitor.getD d.monitor
  let d :=
    if (d.monitors r).data.started then
      { d.modifyMonitor r fun m => { m with data := { m.data with started := false } } with
        openRegions := d.openRegions.erase r }
    else d
  (d.modifyMonitor r fun m => { numResets := m.numResets + 1, data := m.data }, .success)

/-- The part of `region_start` in sequential code. -/
def startSequential (r : ρ) : TalpInfo τ ρ × DlbError :=
  if ¬ (d.monitors r).data.started ∧ (d.monitors r).data.enabled then
    let d := d.talpSampleUpdate t e
    let d := (d.talpAggregateSamplesToRegions t e).1
    let d := d.modifyMonitor r fun m =>
      { m with startTime := d.lastUpdatedTs t, stopTime := 0, data := { m.data with started := true } }
    ({ d with openRegions := r :: d.openRegions }, .success)
  else (d, .noupdt)

def regionStart (arg : RegionArg ρ) : TalpInfo τ ρ × DlbError :=
  if ¬ (d.role t).isProfiled then (d, .errPerm)
  else
    let start (r : ρ) : TalpInfo τ ρ × DlbError :=
      if (d.role t).isParallel then
        if r = d.monitor then (d, .errPerm) else d.regionStartThread t e r
      else d.startSequential t e r
    match arg with
    | .lastOpen => (d, .errNoent)
    | .global => start d.monitor
    | .region r => start r

/-- The part of `region_stop` in sequential code. -/
def stopSequential (r : ρ) : TalpInfo τ ρ × DlbError :=
  if (d.monitors r).data.started then
    let d := d.talpSampleUpdate t e
    let d := (d.talpAggregateSamplesToRegions t e).1
    let stopTime := d.lastUpdatedTs t
    let d := d.modifyMonitor r fun m =>
      { m with
        stopTime := stopTime
        elapsedTime := m.elapsedTime + (stopTime - m.startTime)
        numMeasurements := m.numMeasurements + 1
        data := { m.data with started := false } }
    ({ d with openRegions := d.openRegions.erase r }, .success)
  else (d, .noupdt)

def regionStop (arg : RegionArg ρ) : TalpInfo τ ρ × DlbError :=
  if ¬ (d.role t).isProfiled then (d, .errPerm)
  else if (d.role t).isParallel then
    match arg with
    | .global => (d, .errPerm)
    | .region r => if r = d.monitor then (d, .errPerm) else d.regionStopThread t e (some r)
    | .lastOpen => d.regionStopThread t e none
  else
    match arg with
    | .global => d.stopSequential t e d.monitor
    | .region r => d.stopSequential t e r
    | .lastOpen =>
      match d.openRegions with
      | r :: _ => d.stopSequential t e r
      | [] => (d, .errNoent)

/-- `talp_init` for the thread `main`: its sample is created and set to the useful state, and the global region is
registered and started. The parser of the selected regions has decided which regions are enabled. -/
def talpInit (numCpus : ℕ) (haveHwc : Bool) (main : τ) (monitor : ρ) (enabled : ρ → Bool) (e : Readings) :
    TalpInfo τ ρ :=
  let d : TalpInfo τ ρ :=
    { flags := { haveHwc := haveHwc }
      numCpus := numCpus
      monitor := monitor
      monitors := fun r => { data := { enabled := enabled r } }
      role := fun u => if u = main then .mainSequential else .unknown }
  let d := (d.talpSampleGet main e).1
  let d := d.setSample main (recordCpuid ((d.samples main).getD {}) e.cpuid)
  let d := d.talpSampleSetState main e .useful
  (d.regionStart main e .global).1

/-! ## What an update of the sample does -/

/-- The state of a thread; a sample is created in the disabled state. -/
def stateOf : SampleState := ((d.samples t).map (·.state)).getD .disabled

/-- The CPUs that are unused while the main thread is in MPI, for a thread that counts them. -/
def unusedCpus : Option ℤ :=
  if (d.role t).isMainSequential ∧ d.flags.haveOpenmp then some (d.numCpus - 1) else none

/-- The process after a thread has written its sample, which may be new. -/
abbrev withSample (sample : Sample) (threads : List τ) : TalpInfo τ ρ :=
  { d with samples := Function.update d.samples t (some sample), threads := threads }

variable {d t e}

structure Updated (d : TalpInfo τ ρ) (t : τ) (now : ℤ) (sample : Sample) : Prop where
  lastUpdatedTs : sample.lastUpdatedTs = now
  generation : d.currentGenerationTs ≤ sample.generationTs
  state : sample.state = d.stateOf t
  timers : ∀ s, d.samples t = some s → d.currentGenerationTs ≤ s.generationTs →
    sample.generationTs = s.generationTs ∧
      sample.timers = s.timers.add s.state (now - s.lastUpdatedTs) (d.unusedCpus t)

omit [DecidableEq ρ] in
theorem talpSampleUpdate_spec (hrole : (d.role t).isProfiled = true) : ∃ sample threads,
    d.talpSampleUpdate t e = d.withSample t sample threads ∧ Updated d t e.now sample ∧
      (d.samples t ≠ none → threads = d.threads) := by
  unfold talpSampleUpdate talpSampleGet
  cases hs : d.samples t with
  | some s =>
    refine ⟨_, d.threads, rfl, ⟨by simp [updateTimers], ?_, ?_, ?_⟩, fun _ => rfl⟩
    · simpa [updateTimers] using le_ensureGeneration _ _ _
    · simp [updateTimers, stateOf, hs]
    · intro s' hs' hgen
      obtain rfl : s = s' := Option.some.inj (hs.symm.trans hs')
      simp [updateTimers, ensureGeneration_of_le hgen, unusedCpus]
  | none =>
    rw [if_pos hrole]
    dsimp only [setSample]
    rw [Function.update_idem]
    refine ⟨_, d.threads ++ [t], rfl, ⟨by simp [updateTimers], ?_, ?_, ?_⟩, fun h => absurd rfl h⟩
    · simpa [updateTimers] using le_ensureGeneration _ _ _
    · simp [updateTimers, stateOf, hs]
    · intro s' hs'
      rw [hs] at hs'
      cases hs'

end TalpInfo

end Dlb.Talp
