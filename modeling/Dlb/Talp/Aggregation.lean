import Dlb.Talp.ThreadTime

/-!
# The aggregation of all samples

What an aggregation gives to the open regions: the sum over the threads of what each of them is charged, and of the
load imbalance and scheduling in its sample (`macrosample_total`). No region gets a negative time
(`macrosample_nonneg`).
-/

namespace Dlb.Talp

/-- The time of all threads that a region has received. -/
def Monitor.threadTime (m : Monitor) : ℤ :=
  m.usefulTime + m.mpiTime + m.gpuRuntimeTime + m.ompLoadImbalanceTime + m.ompSchedulingTime + m.ompSerializationTime

structure Monitor.Nonneg (m : Monitor) : Prop where
  usefulTime : 0 ≤ m.usefulTime
  mpiTime : 0 ≤ m.mpiTime
  gpuRuntimeTime : 0 ≤ m.gpuRuntimeTime
  ompLoadImbalanceTime : 0 ≤ m.ompLoadImbalanceTime
  ompSchedulingTime : 0 ≤ m.ompSchedulingTime
  ompSerializationTime : 0 ≤ m.ompSerializationTime

def MacroTimers.total (timers : MacroTimers) : ℤ :=
  timers.useful + timers.notUsefulMpi + timers.notUsefulGpu + timers.notUsefulOmpInLb + timers.notUsefulOmpInSched +
    timers.notUsefulOmpOut

structure MacroTimers.Nonneg (timers : MacroTimers) : Prop where
  useful : 0 ≤ timers.useful
  notUsefulMpi : 0 ≤ timers.notUsefulMpi
  notUsefulOmpInLb : 0 ≤ timers.notUsefulOmpInLb
  notUsefulOmpInSched : 0 ≤ timers.notUsefulOmpInSched
  notUsefulOmpOut : 0 ≤ timers.notUsefulOmpOut
  notUsefulGpu : 0 ≤ timers.notUsefulGpu

/-! ## One sample -/

section Sample

variable (sample : Sample) (generation now : ℤ) (macrosample : Macrosample)

/-- The load imbalance and the scheduling in a sample of the current generation. -/
def Sample.shared : ℤ :=
  if sample.generationTs < generation then 0
  else sample.timers.notUsefulOmpInLb + sample.timers.notUsefulOmpInSched

theorem aggregateSampleToMacrosample_total :
    (aggregateSampleToMacrosample sample macrosample).timers.total =
      macrosample.timers.total +
        (sample.timers.own + (sample.timers.notUsefulOmpInLb + sample.timers.notUsefulOmpInSched)) := by
  simp only [aggregateSampleToMacrosample, MacroTimers.total, SampleTimers.own]
  omega

theorem aggregateOtherSample_total :
    (aggregateOtherSample sample generation now macrosample).timers.total =
      macrosample.timers.total + (sample.charge generation now + sample.shared generation) := by
  have hidle : ∀ idle : ℤ, ({ macrosample with
      timers := { macrosample.timers with notUsefulOmpOut := macrosample.timers.notUsefulOmpOut + idle } } :
        Macrosample).timers.total = macrosample.timers.total + idle := by
    intro idle
    simp only [MacroTimers.total]
    omega
  unfold aggregateOtherSample Sample.charge Sample.shared
  by_cases hgen : sample.generationTs < generation
  · rw [if_pos hgen, if_pos hgen, if_pos hgen]
    dsimp only
    split
    · exact (hidle _).trans (by omega)
    · omega
  · rw [if_neg hgen, if_neg hgen, if_neg hgen, aggregateSampleToMacrosample_total]
    split
    · rw [hidle]
      omega
    · omega

variable {sample generation now macrosample}

theorem aggregateSampleToMacrosample_nonneg (h : macrosample.timers.Nonneg) (hs : sample.timers.Nonneg) :
    (aggregateSampleToMacrosample sample macrosample).timers.Nonneg where
  useful := add_nonneg h.useful hs.useful
  notUsefulMpi := add_nonneg h.notUsefulMpi hs.notUsefulMpi
  notUsefulOmpInLb := add_nonneg h.notUsefulOmpInLb hs.notUsefulOmpInLb
  notUsefulOmpInSched := add_nonneg h.notUsefulOmpInSched hs.notUsefulOmpInSched
  notUsefulOmpOut := add_nonneg h.notUsefulOmpOut hs.notUsefulOmpOut
  notUsefulGpu := add_nonneg h.notUsefulGpu hs.notUsefulGpu

theorem aggregateOtherSample_nonneg (h : macrosample.timers.Nonneg) (hs : sample.timers.Nonneg)
    (hgen : generation ≤ now) (hend : sample.lastParallelEndTs ≤ now) :
    (aggregateOtherSample sample generation now macrosample).timers.Nonneg := by
  have hidle : 0 ≤ min (now - generation) (now - sample.lastParallelEndTs) :=
    le_min (sub_nonneg.mpr hgen) (sub_nonneg.mpr hend)
  unfold aggregateOtherSample
  dsimp only
  split <;> split
  · exact { h with notUsefulOmpOut := add_nonneg h.notUsefulOmpOut hidle }
  · exact { h with }
  · exact aggregateSampleToMacrosample_nonneg { h with notUsefulOmpOut := add_nonneg h.notUsefulOmpOut hidle } hs
  · exact aggregateSampleToMacrosample_nonneg h hs

end Sample

/-! ## All samples -/

section Macrosample

variable {τ ρ : Type*} [DecidableEq τ] {d : TalpInfo τ ρ} {main : τ}

/-- The load imbalance and the scheduling in the sample of a thread. -/
def TalpInfo.shared (d : TalpInfo τ ρ) (u : τ) : ℤ :=
  ((d.samples u).map (·.shared d.currentGenerationTs)).getD 0

/-- What the sample of one thread adds to the macrosample. -/
def TalpInfo.aggregateSampleOf (d : TalpInfo τ ρ) (main : τ) (macrosample : Macrosample) (u : τ) : Macrosample :=
  match d.samples u with
  | none => macrosample
  | some sample =>
    if u = main then aggregateSampleToMacrosample sample macrosample
    else aggregateOtherSample sample d.currentGenerationTs (d.lastUpdatedTs main) macrosample

theorem macrosample_total {sample : Sample} (hmain : d.samples main = some sample)
    (hgen : d.currentGenerationTs ≤ sample.generationTs) :
    (d.macrosample main (d.lastUpdatedTs main)).timers.total =
      (d.threads.map fun u => d.charge main u + d.shared u).sum := by
  suffices hloop : ∀ (l : List τ) (macrosample : Macrosample),
      (l.foldl (d.aggregateSampleOf main) macrosample).timers.total =
        macrosample.timers.total + (l.map fun u => d.charge main u + d.shared u).sum by
    refine (hloop d.threads { numSamples := d.threads.length }).trans ?_
    exact zero_add _
  intro l
  induction l with
  | nil => intro macrosample; simp
  | cons u l ih =>
    intro macrosample
    rw [List.foldl_cons, ih, List.map_cons, List.sum_cons, ← add_assoc]
    congr 1
    unfold TalpInfo.charge TalpInfo.shared TalpInfo.aggregateSampleOf
    cases hu : d.samples u with
    | none => simp
    | some other =>
      dsimp only
      split
      · rename_i heq
        subst heq
        rw [hmain] at hu
        cases hu
        rw [aggregateSampleToMacrosample_total]
        simp [Sample.shared, not_lt.mpr hgen]
      · rw [aggregateOtherSample_total]
        rfl

theorem macrosample_nonneg (hgen : d.currentGenerationTs ≤ d.lastUpdatedTs main)
    (h : ∀ u sample, d.samples u = some sample → sample.timers.Nonneg ∧
      sample.lastParallelEndTs ≤ d.lastUpdatedTs main) :
    (d.macrosample main (d.lastUpdatedTs main)).timers.Nonneg := by
  suffices hloop : ∀ (l : List τ) (macrosample : Macrosample), macrosample.timers.Nonneg →
      (l.foldl (d.aggregateSampleOf main) macrosample).timers.Nonneg from
    hloop d.threads { numSamples := d.threads.length } (by constructor <;> exact le_rfl)
  intro l
  induction l with
  | nil => exact fun _ h => h
  | cons u l ih =>
    intro macrosample hm
    refine ih _ ?_
    unfold TalpInfo.aggregateSampleOf
    cases hu : d.samples u with
    | none => exact hm
    | some sample =>
      obtain ⟨htimers, hend⟩ := h u sample hu
      dsimp only
      split
      · exact aggregateSampleToMacrosample_nonneg hm htimers
      · exact aggregateOtherSample_nonneg hm htimers hgen hend

end Macrosample

/-! ## The open regions -/

theorem updateRegion_threadTime (haveOpenmp : Bool) (macrosample : Macrosample) (m : Monitor) :
    (TalpInfo.updateRegion haveOpenmp macrosample m).threadTime = m.threadTime + macrosample.timers.total := by
  simp only [Monitor.threadTime, TalpInfo.updateRegion, MacroTimers.total]
  omega

theorem updateRegion_nonneg (haveOpenmp : Bool) {macrosample : Macrosample} {m : Monitor} (h : m.Nonneg)
    (hm : macrosample.timers.Nonneg) : (TalpInfo.updateRegion haveOpenmp macrosample m).Nonneg where
  usefulTime := add_nonneg h.usefulTime hm.useful
  mpiTime := add_nonneg h.mpiTime hm.notUsefulMpi
  gpuRuntimeTime := add_nonneg h.gpuRuntimeTime hm.notUsefulGpu
  ompLoadImbalanceTime := add_nonneg h.ompLoadImbalanceTime hm.notUsefulOmpInLb
  ompSchedulingTime := add_nonneg h.ompSchedulingTime hm.notUsefulOmpInSched
  ompSerializationTime := add_nonneg h.ompSerializationTime hm.notUsefulOmpOut

theorem talpAggregateSamplesToRegions_eq {τ ρ : Type*} [DecidableEq τ] [DecidableEq ρ] {d : TalpInfo τ ρ} {t : τ}
    (e : Readings) (hrole : (d.role t).isProfiled = true) {sample : Sample} (hs : d.samples t = some sample)
    (hnodup : d.openRegions.Nodup) : ∃ macrosample : Macrosample,
      macrosample.timers = (d.macrosample t sample.lastUpdatedTs).timers ∧
      (d.talpAggregateSamplesToRegions t e).1 =
        { d with
          currentGenerationTs := sample.lastUpdatedTs
          samples := Function.update d.samples t
            (some { resetSample sample e.cpuid with generationTs := sample.lastUpdatedTs })
          monitors := fun r =>
            if r ∈ d.openRegions then TalpInfo.updateRegion d.flags.haveOpenmp macrosample (d.monitors r)
            else d.monitors r } := by
  rw [TalpInfo.talpAggregateSamplesToRegions, if_pos hrole, TalpInfo.talpSampleAggregateAllToMacrosample,
    TalpInfo.talpSampleGet_eq hs]
  refine ⟨_, ?_, updateRegionsWithMacrosample_eq (by exact hnodup) _⟩
  split <;> rfl

end Dlb.Talp
