import Dlb.Talp.Types

/-!
# Samples

`sample.c`: each thread accumulates the time of its states in a sample of its own. The main thread aggregates the
samples of all threads into a macrosample, which starts a new generation: a sample of an older one is reset at its next
update.

The threads are an arbitrary type. What a call reads from outside (`get_time_in_ns`, `sched_getcpu`, the hardware
counters) is its `Readings`.
-/

namespace Dlb.Talp

/-- `talp_sample_state_t`. -/
inductive SampleState where
  | disabled | useful | notUsefulMpi | notUsefulOmpIn | notUsefulOmpOut | notUsefulGpu
deriving DecidableEq, Repr

/-- `sample_timers_t`. -/
structure SampleTimers where
  useful : ℤ := 0
  notUsefulMpi : ℤ := 0
  notUsefulOmpDuringMpi : ℤ := 0
  notUsefulOmpIn : ℤ := 0
  notUsefulOmpInLb : ℤ := 0
  notUsefulOmpInSched : ℤ := 0
  notUsefulOmpOut : ℤ := 0
  notUsefulGpu : ℤ := 0
deriving DecidableEq, Repr

/-- `macro_timers_t`. -/
structure MacroTimers where
  useful : ℤ := 0
  notUsefulMpi : ℤ := 0
  notUsefulOmpDuringMpi : ℤ := 0
  notUsefulOmpInLb : ℤ := 0
  notUsefulOmpInSched : ℤ := 0
  notUsefulOmpOut : ℤ := 0
  notUsefulGpu : ℤ := 0
deriving DecidableEq, Repr

/-- `talp_sample_t`. -/
structure Sample where
  timers : SampleTimers := {}
  counters : HwCounters := {}
  stats : EventStats := {}
  state : SampleState := .disabled
  lastUpdatedTs : ℤ := 0
  generationTs : ℤ := 0
  cpuMask : Finset ℕ := ∅
  lastParallelEndTs : ℤ := 0

/-- `talp_macrosample_t`. -/
structure Macrosample where
  timers : MacroTimers := {}
  counters : HwCounters := {}
  stats : EventStats := {}
  cpuMask : Finset ℕ := ∅
  numSamples : ℕ := 0
  gpuMask : Finset ℕ := ∅
  gpuTimers : ℕ → GpuTimers := fun _ => {}

/-- `talp_flags_t`. -/
structure TalpFlags where
  haveOpenmp : Bool := false
  haveGpu : Bool := false
  haveHwc : Bool := false

/-- `thread_role_t`. -/
inductive ThreadRole where
  | unknown | mainSequential | mainParallel | worker | observer
deriving DecidableEq, Repr

def ThreadRole.isMainSequential (role : ThreadRole) : Bool := role = .mainSequential

def ThreadRole.isParallel (role : ThreadRole) : Bool := role = .mainParallel ∨ role = .worker

def ThreadRole.isProfiled (role : ThreadRole) : Bool :=
  role = .mainSequential ∨ role = .mainParallel ∨ role = .worker

/-- What a call reads from outside: the clock when a sample is created and when it is updated, the CPU of the thread,
what `talp_hwc_collect` measures, if it returns true, and what `talp_gpu_collect` delivers. -/
structure Readings where
  created : ℤ
  now : ℤ
  cpuid : ℕ := 0
  hwc : Option HwCounters := none
  gpuMask : Finset ℕ := ∅
  gpuTimers : ℕ → GpuTimers := fun _ => {}

/-! ## The sample of a thread -/

section Sample

variable (sample : Sample)

def recordCpuid (cpuid : ℕ) : Sample := { sample with cpuMask := insert cpuid sample.cpuMask }

def resetSample (cpuid : ℕ) : Sample :=
  recordCpuid { sample with timers := {}, counters := {}, stats := {}, cpuMask := ∅ } cpuid

def ensureGeneration (currentGenerationTs : ℤ) (cpuid : ℕ) : Sample :=
  if sample.generationTs < currentGenerationTs then
    { resetSample sample cpuid with generationTs := currentGenerationTs, lastUpdatedTs := currentGenerationTs }
  else sample

/-- The timer of the sample that a microsample goes to; `unusedCpus` is given for the main thread in sequential code
with OpenMP. -/
def SampleTimers.add (timers : SampleTimers) (state : SampleState) (duration : ℤ) (unusedCpus : Option ℤ) :
    SampleTimers :=
  match state with
  | .disabled => timers
  | .useful => { timers with useful := timers.useful + duration }
  | .notUsefulMpi =>
    { timers with
      notUsefulMpi := timers.notUsefulMpi + duration
      notUsefulOmpDuringMpi := timers.notUsefulOmpDuringMpi + duration * unusedCpus.getD 0 }
  | .notUsefulOmpIn => { timers with notUsefulOmpIn := timers.notUsefulOmpIn + duration }
  | .notUsefulOmpOut => { timers with notUsefulOmpOut := timers.notUsefulOmpOut + duration }
  | .notUsefulGpu => { timers with notUsefulGpu := timers.notUsefulGpu + duration }

/-- The microsample of `talp_sample_update`: the time since the last update. -/
def updateTimers (now : ℤ) (unusedCpus : Option ℤ) : Sample :=
  { sample with
    timers := sample.timers.add sample.state (now - sample.lastUpdatedTs) unusedCpus
    lastUpdatedTs := now }

/-- The counters of `talp_sample_update`. -/
def updateCounters (haveHwc : Bool) (hwc : Option HwCounters) : Sample :=
  match haveHwc, hwc with
  | true, some measurements =>
    { sample with
      counters :=
        { cycles := sample.counters.cycles + measurements.cycles
          instructions := sample.counters.instructions + measurements.instructions } }
  | _, _ => sample

def talpSampleDelta (stop start : Sample) : Sample where
  timers :=
    { useful := stop.timers.useful - start.timers.useful
      notUsefulMpi := stop.timers.notUsefulMpi - start.timers.notUsefulMpi
      notUsefulOmpDuringMpi := stop.timers.notUsefulOmpDuringMpi - start.timers.notUsefulOmpDuringMpi
      notUsefulOmpIn := stop.timers.notUsefulOmpIn - start.timers.notUsefulOmpIn
      notUsefulOmpInLb := stop.timers.notUsefulOmpInLb - start.timers.notUsefulOmpInLb
      notUsefulOmpInSched := stop.timers.notUsefulOmpInSched - start.timers.notUsefulOmpInSched
      notUsefulOmpOut := stop.timers.notUsefulOmpOut - start.timers.notUsefulOmpOut
      notUsefulGpu := stop.timers.notUsefulGpu - start.timers.notUsefulGpu }
  counters :=
    { cycles := stop.counters.cycles - start.counters.cycles
      instructions := stop.counters.instructions - start.counters.instructions }
  stats :=
    { numMpiCalls := stop.stats.numMpiCalls - start.stats.numMpiCalls
      numOmpParallels := stop.stats.numOmpParallels - start.stats.numOmpParallels
      numOmpTasks := stop.stats.numOmpTasks - start.stats.numOmpTasks
      numGpuRuntimeCalls := stop.stats.numGpuRuntimeCalls - start.stats.numGpuRuntimeCalls }

def aggregateSampleToMacrosample (macrosample : Macrosample) : Macrosample :=
  { macrosample with
    timers :=
      { useful := macrosample.timers.useful + sample.timers.useful
        notUsefulMpi := macrosample.timers.notUsefulMpi + sample.timers.notUsefulMpi
        notUsefulOmpDuringMpi := macrosample.timers.notUsefulOmpDuringMpi + sample.timers.notUsefulOmpDuringMpi
        notUsefulOmpInLb := macrosample.timers.notUsefulOmpInLb + sample.timers.notUsefulOmpInLb
        notUsefulOmpInSched := macrosample.timers.notUsefulOmpInSched + sample.timers.notUsefulOmpInSched
        notUsefulOmpOut := macrosample.timers.notUsefulOmpOut + sample.timers.notUsefulOmpOut
        notUsefulGpu := macrosample.timers.notUsefulGpu + sample.timers.notUsefulGpu }
    counters :=
      { cycles := macrosample.counters.cycles + sample.counters.cycles
        instructions := macrosample.counters.instructions + sample.counters.instructions }
    stats :=
      { numMpiCalls := macrosample.stats.numMpiCalls + sample.stats.numMpiCalls
        numOmpParallels := macrosample.stats.numOmpParallels + sample.stats.numOmpParallels
        numOmpTasks := macrosample.stats.numOmpTasks + sample.stats.numOmpTasks
        numGpuRuntimeCalls := macrosample.stats.numGpuRuntimeCalls + sample.stats.numGpuRuntimeCalls }
    cpuMask := macrosample.cpuMask ∪ sample.cpuMask }

/-- What another thread's sample adds to the macrosample, at the time `now` of the aggregation. -/
def aggregateOtherSample (currentGenerationTs now : ℤ) (macrosample : Macrosample) : Macrosample :=
  -- the time since the end of the last parallel, for threads that are probably stopped after it
  let macrosample :=
    if sample.state = .notUsefulOmpIn ∨ sample.state = .notUsefulOmpOut then
      { macrosample with
        timers :=
          { macrosample.timers with
            notUsefulOmpOut := macrosample.timers.notUsefulOmpOut +
              min (now - currentGenerationTs) (now - sample.lastParallelEndTs) } }
    else macrosample
  if sample.generationTs < currentGenerationTs then
    { macrosample with cpuMask := macrosample.cpuMask ∪ sample.cpuMask }
  else aggregateSampleToMacrosample sample macrosample

end Sample

@[simp] theorem ensureGeneration_state (sample : Sample) (generation : ℤ) (cpuid : ℕ) :
    (ensureGeneration sample generation cpuid).state = sample.state := by
  unfold ensureGeneration
  split <;> rfl

theorem ensureGeneration_of_le {sample : Sample} {generation : ℤ} {cpuid : ℕ} (h : generation ≤ sample.generationTs) :
    ensureGeneration sample generation cpuid = sample := if_neg (not_lt.mpr h)

theorem le_ensureGeneration (sample : Sample) (generation : ℤ) (cpuid : ℕ) :
    generation ≤ (ensureGeneration sample generation cpuid).generationTs := by
  unfold ensureGeneration
  split
  · exact le_rfl
  · rename_i h
    exact not_lt.mp h

@[simp] theorem updateCounters_timers (sample : Sample) (haveHwc : Bool) (hwc : Option HwCounters) :
    (updateCounters sample haveHwc hwc).timers = sample.timers := by
  unfold updateCounters
  split <;> rfl

@[simp] theorem updateCounters_state (sample : Sample) (haveHwc : Bool) (hwc : Option HwCounters) :
    (updateCounters sample haveHwc hwc).state = sample.state := by
  unfold updateCounters
  split <;> rfl

@[simp] theorem updateCounters_lastUpdatedTs (sample : Sample) (haveHwc : Bool) (hwc : Option HwCounters) :
    (updateCounters sample haveHwc hwc).lastUpdatedTs = sample.lastUpdatedTs := by
  unfold updateCounters
  split <;> rfl

@[simp] theorem updateCounters_generationTs (sample : Sample) (haveHwc : Bool) (hwc : Option HwCounters) :
    (updateCounters sample haveHwc hwc).generationTs = sample.generationTs := by
  unfold updateCounters
  split <;> rfl

end Dlb.Talp
