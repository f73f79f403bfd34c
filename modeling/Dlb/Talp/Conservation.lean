import Dlb.Talp.Regions

/-!
# Conservation of time

In sequential code all the time of the main thread goes to its sample, and every start or stop of a region flushes the
sample into all the regions that are open. What a region should measure is stated by a stopwatch (`RegionWatch`) that
knows nothing of samples and generations.

* `Conserves`: the time that an open region has not accounted for is the time in the sample;
* `Conserves.next`: every event keeps it.
-/

namespace Dlb.Talp

open List

variable {τ ρ : Type*} [DecidableEq τ] [DecidableEq ρ]

/-! ## The stopwatch -/

/-- The global region and the enabled ones, the running regions, the last one first, since when each of them runs, and
the time that each region has measured since its last reset. -/
structure RegionWatch (ρ : Type*) where
  global : ρ
  enabled : ρ → Bool
  running : List ρ := []
  since : ρ → ℤ := fun _ => 0
  measured : ρ → ℤ := fun _ => 0

namespace RegionWatch

variable (k : RegionWatch ρ) (now : ℤ) (r : ρ)

/-- A region is started, unless it runs or is disabled. -/
def start : RegionWatch ρ :=
  if r ∈ k.running ∨ k.enabled r = false then k
  else { k with running := r :: k.running, since := Function.update k.since r now }

def stop : RegionWatch ρ :=
  if r ∈ k.running then
    { k with
      running := k.running.erase r
      measured := Function.update k.measured r (k.measured r + (now - k.since r)) }
  else k

/-- A region is reset; it does not run any more. -/
def reset : RegionWatch ρ :=
  { k with running := k.running.erase r, measured := Function.update k.measured r 0 }

end RegionWatch

/-! ## Runs -/

/-- The states of the main thread in sequential code. -/
inductive CodeState where
  | useful | mpi | gpuRuntime
deriving DecidableEq, Repr

def CodeState.toSampleState : CodeState → SampleState
  | .useful => .useful
  | .mpi => .notUsefulMpi
  | .gpuRuntime => .notUsefulGpu

/-- What the main thread does. Every change of the state follows an update of the sample. -/
inductive SequentialOp (ρ : Type*) where
  | update
  | change (state : CodeState)
  | aggregate
  | start (arg : RegionArg ρ)
  | stop (arg : RegionArg ρ)
  | reset (monitor : Option ρ)

/-- An operation, after the clock has gone on for `delay`. -/
structure SequentialEvent (ρ : Type*) where
  op : SequentialOp ρ
  delay : ℕ
  cpuid : ℕ := 0
  hwc : Option HwCounters := none

/-- The process, the clock, and the stopwatch next to them. -/
structure SequentialState (τ ρ : Type*) where
  talp : TalpInfo τ ρ
  clock : ℤ
  watch : RegionWatch ρ

namespace SequentialState

variable (main : τ) (s : SequentialState τ ρ) (e : SequentialEvent ρ)

def now : ℤ := s.clock + e.delay

def readings : Readings := { created := s.now e, now := s.now e, cpuid := e.cpuid, hwc := e.hwc }

def exec : TalpInfo τ ρ :=
  match e.op with
  | .update => s.talp.talpSampleUpdate main (s.readings e)
  | .change state =>
    (s.talp.talpSampleUpdate main (s.readings e)).talpSampleSetState main (s.readings e) state.toSampleState
  | .aggregate => (s.talp.talpAggregateSamplesToRegions main (s.readings e)).1
  | .start arg => (s.talp.regionStart main (s.readings e) arg).1
  | .stop arg => (s.talp.regionStop main (s.readings e) arg).1
  | .reset monitor => (s.talp.regionReset monitor).1

def follow : RegionWatch ρ :=
  match e.op with
  | .start .global => s.watch.start (s.now e) s.watch.global
  | .start (.region r) => s.watch.start (s.now e) r
  | .stop .global => s.watch.stop (s.now e) s.watch.global
  | .stop (.region r) => s.watch.stop (s.now e) r
  | .stop .lastOpen =>
    match s.watch.running with
    | r :: _ => s.watch.stop (s.now e) r
    | [] => s.watch
  | .reset monitor => s.watch.reset (monitor.getD s.watch.global)
  | _ => s.watch

def next : SequentialState τ ρ where
  talp := s.exec main e
  clock := s.now e
  watch := s.follow e

/-- After `talp_init`. -/
def init (numCpus : ℕ) (haveHwc : Bool) (global : ρ) (enabled : ρ → Bool) (clock : ℤ) (cpuid : ℕ) :
    SequentialState τ ρ where
  talp := .talpInit numCpus haveHwc main global enabled { created := clock, now := clock, cpuid := cpuid }
  clock := clock
  watch := RegionWatch.start { global := global, enabled := enabled } clock global

end SequentialState

/-! ## The invariant -/

/-- The time of a monitor in the states of sequential code. -/
def Monitor.cpuTime (m : Monitor) : ℤ := m.usefulTime + m.mpiTime + m.gpuRuntimeTime

/-- The time of a sample in the states of sequential code. -/
def SampleTimers.cpuTime (timers : SampleTimers) : ℤ := timers.useful + timers.notUsefulMpi + timers.notUsefulGpu

/-- A monitor and the stopwatch of its region: a closed region accounts for all its time, and what an open one has not
accounted for is in the sample. -/
structure Accounts (m : Monitor) (runs : Prop) (enabled : Bool) (since measured : ℤ) (sample : Sample) : Prop where
  started : m.data.started = true ↔ runs
  enabled_eq : m.data.enabled = enabled
  since_eq : runs → m.startTime = since
  measured_eq : m.elapsedTime = measured
  measurements : 0 < m.elapsedTime → 0 < m.numMeasurements
  open_time : runs → m.cpuTime + sample.timers.cpuTime = m.elapsedTime + (sample.lastUpdatedTs - m.startTime)
  closed_time : ¬ runs → m.cpuTime = m.elapsedTime

/-- The process, the stopwatch and the sample of the only thread. -/
structure Conserves (main : τ) (d : TalpInfo τ ρ) (k : RegionWatch ρ) (sample : Sample) : Prop where
  role : d.role main = .mainSequential
  haveOpenmp : d.flags.haveOpenmp = false
  haveGpu : d.flags.haveGpu = false
  threads : d.threads = [main]
  sample_eq : d.samples main = some sample
  state : ∃ state : CodeState, sample.state = state.toSampleState
  generation : d.currentGenerationTs ≤ sample.generationTs
  monitor : d.monitor = k.global
  running : d.openRegions = k.running
  nodup : k.running.Nodup
  accounts : ∀ r, Accounts (d.monitors r) (r ∈ k.running) (k.enabled r) (k.since r) (k.measured r) sample

/-! ## The sample -/

section Steps

variable {main : τ} {d : TalpInfo τ ρ} {k : RegionWatch ρ} {sample : Sample} {e : Readings}

theorem SampleTimers.cpuTime_add (timers : SampleTimers) (state : CodeState) (duration : ℤ) (unused : Option ℤ) :
    (timers.add state.toSampleState duration unused).cpuTime = timers.cpuTime + duration := by
  cases state <;> simp only [CodeState.toSampleState, SampleTimers.add, SampleTimers.cpuTime] <;> omega

omit [DecidableEq ρ] in
theorem Conserves.update (h : Conserves main d k sample) : ∃ sample',
    Conserves main (d.talpSampleUpdate main e) k sample' ∧ sample'.lastUpdatedTs = e.now := by
  have hprof : (d.role main).isProfiled = true := by rw [h.role]; rfl
  obtain ⟨sample', threads, heq, hup, hthreads⟩ := d.talpSampleUpdate_spec (e := e) hprof
  obtain ⟨state, hstate⟩ := h.state
  obtain ⟨hgen, htimers⟩ := hup.timers sample h.sample_eq h.generation
  have hsame : sample'.state = sample.state := by rw [hup.state, TalpInfo.stateOf, h.sample_eq]; rfl
  have htime : sample'.timers.cpuTime = sample.timers.cpuTime + (e.now - sample.lastUpdatedTs) := by
    rw [htimers, hstate, SampleTimers.cpuTime_add]
  have hthreads' : threads = [main] := (hthreads (by rw [h.sample_eq]; exact Option.some_ne_none _)).trans h.threads
  rw [heq]
  refine ⟨sample', { h with
    threads := hthreads'
    sample_eq := Function.update_self _ _ _
    state := ⟨state, hsame.trans hstate⟩
    generation := hup.generation
    accounts := fun r => { h.accounts r with open_time := fun hr => ?_ } }, hup.lastUpdatedTs⟩
  have hopen := (h.accounts r).open_time hr
  rw [htime, hup.lastUpdatedTs]
  dsimp only [TalpInfo.withSample]
  omega

omit [DecidableEq ρ] in
theorem Conserves.change (h : Conserves main d k sample) (state : CodeState) :
    Conserves main (d.talpSampleSetState main e state.toSampleState) k
      { sample with state := state.toSampleState } := by
  have heq : d.talpSampleSetState main e state.toSampleState =
      d.setSample main { sample with state := state.toSampleState } := by
    rw [TalpInfo.talpSampleSetState, TalpInfo.talpSampleGet, h.sample_eq]
  rw [heq]
  exact { h with
    sample_eq := Function.update_self _ _ _
    state := ⟨state, rfl⟩
    accounts := fun r => { h.accounts r with } }

/-! ## The flush -/

omit [DecidableEq τ] in
theorem foldl_modifyMonitor (f : TalpFlags → Monitor → Monitor) : ∀ (l : List ρ) (d : TalpInfo τ ρ), l.Nodup →
    l.foldl (fun d r => d.modifyMonitor r (f d.flags)) d =
      { d with monitors := fun r => if r ∈ l then f d.flags (d.monitors r) else d.monitors r } := by
  intro l
  induction l with
  | nil => simp
  | cons a l ih =>
    intro d hl
    obtain ⟨ha, hl⟩ := nodup_cons.mp hl
    rw [foldl_cons, ih _ hl]
    unfold TalpInfo.modifyMonitor
    congr 1
    funext r
    by_cases hr : r = a
    · subst hr
      simp [ha]
    · simp [hr]

omit [DecidableEq τ] in
theorem updateRegionsWithMacrosample_eq (hd : d.openRegions.Nodup) (macrosample : Macrosample) :
    d.updateRegionsWithMacrosample macrosample =
      { d with
        monitors := fun r =>
          if r ∈ d.openRegions then TalpInfo.updateRegion d.flags.haveOpenmp macrosample (d.monitors r)
          else d.monitors r } :=
  foldl_modifyMonitor (fun flags => TalpInfo.updateRegion flags.haveOpenmp macrosample) _ _ hd

omit [DecidableEq ρ] in
theorem Conserves.macrosample_eq (h : Conserves main d k sample) (now : ℤ) :
    d.macrosample main now = aggregateSampleToMacrosample sample { numSamples := 1 } := by
  rw [TalpInfo.macrosample, h.threads, foldl_cons, h.sample_eq]
  simp

theorem updateRegion_cpuTime (haveOpenmp : Bool) (numSamples : ℕ) (sample : Sample) (m : Monitor) :
    (TalpInfo.updateRegion haveOpenmp (aggregateSampleToMacrosample sample { numSamples := numSamples }) m).cpuTime =
      m.cpuTime + sample.timers.cpuTime := by
  simp only [Monitor.cpuTime, SampleTimers.cpuTime, TalpInfo.updateRegion, aggregateSampleToMacrosample]
  omega

theorem Conserves.aggregate (h : Conserves main d k sample) : ∃ sample',
    Conserves main (d.talpAggregateSamplesToRegions main e).1 k sample' ∧ sample'.timers.cpuTime = 0 ∧
      sample'.lastUpdatedTs = sample.lastUpdatedTs := by
  have hprof : (d.role main).isProfiled = true := by rw [h.role]; rfl
  have hnodup : d.openRegions.Nodup := h.running ▸ h.nodup
  have hexec : (d.talpAggregateSamplesToRegions main e).1 =
      { ({ d with currentGenerationTs := sample.lastUpdatedTs }.setSample main
          { resetSample sample e.cpuid with generationTs := sample.lastUpdatedTs } : TalpInfo τ ρ) with
        monitors := fun r => if r ∈ d.openRegions then TalpInfo.updateRegion d.flags.haveOpenmp
          (aggregateSampleToMacrosample sample { numSamples := 1 }) (d.monitors r) else d.monitors r } := by
    rw [TalpInfo.talpAggregateSamplesToRegions, if_pos hprof, TalpInfo.talpSampleAggregateAllToMacrosample,
      TalpInfo.talpSampleGet, h.sample_eq]
    dsimp only [TalpInfo.setSample]
    rw [h.haveGpu, if_neg Bool.false_ne_true, h.macrosample_eq]
    exact updateRegionsWithMacrosample_eq (by exact hnodup) _
  rw [hexec]
  refine ⟨{ resetSample sample e.cpuid with generationTs := sample.lastUpdatedTs }, { h with
    sample_eq := Function.update_self _ _ _
    state := h.state
    generation := le_rfl
    accounts := fun r => ?_ }, rfl, rfl⟩
  have hr := h.accounts r
  dsimp only
  rw [h.running]
  split
  · rename_i hmem
    refine { hr with open_time := fun _ => ?_, closed_time := fun hno => absurd hmem hno }
    rw [updateRegion_cpuTime]
    exact (Int.add_zero _).trans (hr.open_time hmem)
  · rename_i hmem
    exact { hr with open_time := fun hmem' => absurd hmem' hmem }

theorem Conserves.flush (h : Conserves main d k sample) : ∃ sample',
    Conserves main ((d.talpSampleUpdate main e).talpAggregateSamplesToRegions main e).1 k sample' ∧
      sample'.timers.cpuTime = 0 ∧ sample'.lastUpdatedTs = e.now ∧
      ((d.talpSampleUpdate main e).talpAggregateSamplesToRegions main e).1.lastUpdatedTs main = e.now := by
  obtain ⟨sample₁, h1, hnow⟩ := h.update (e := e)
  obtain ⟨sample₂, h2, hzero, hlast⟩ := h1.aggregate (e := e)
  refine ⟨sample₂, h2, hzero, hlast.trans hnow, ?_⟩
  rw [TalpInfo.lastUpdatedTs, h2.sample_eq]
  exact hlast.trans hnow

/-! ## Starts, stops and resets -/

omit [DecidableEq τ] in
theorem Conserves.push (h : Conserves main d k sample) (hflushed : sample.timers.cpuTime = 0) {r : ρ}
    (hr : r ∉ k.running) (henabled : k.enabled r = true) :
    Conserves main
      { d.modifyMonitor r fun m =>
          { m with startTime := sample.lastUpdatedTs, stopTime := 0, data := { m.data with started := true } } with
        openRegions := r :: d.openRegions }
      (k.start sample.lastUpdatedTs r) sample := by
  have hk : k.start sample.lastUpdatedTs r =
      { k with running := r :: k.running, since := Function.update k.since r sample.lastUpdatedTs } :=
    if_neg (by simp [hr, henabled])
  have hne : ∀ {r'}, r' ∈ k.running → r' ≠ r := fun hr' heq => hr (heq ▸ hr')
  rw [hk]
  refine { h with
    running := congrArg (r :: ·) h.running
    nodup := nodup_cons.mpr ⟨hr, h.nodup⟩
    accounts := fun r' => ?_ }
  by_cases heq : r' = r
  · subst heq
    have hr' := h.accounts r'
    have hclosed := hr'.closed_time hr
    dsimp only [TalpInfo.modifyMonitor]
    rw [Function.update_self, Function.update_self]
    refine ⟨by simp, hr'.enabled_eq, fun _ => rfl, hr'.measured_eq, hr'.measurements, fun _ => ?_,
      fun hno => absurd mem_cons_self hno⟩
    dsimp only [Monitor.cpuTime] at hclosed ⊢
    omega
  · simpa [TalpInfo.modifyMonitor, heq] using h.accounts r'

omit [DecidableEq τ] in
theorem Conserves.pop (h : Conserves main d k sample) (hflushed : sample.timers.cpuTime = 0) {r : ρ}
    (hr : r ∈ k.running) :
    Conserves main
      { d.modifyMonitor r fun m =>
          { m with
            stopTime := sample.lastUpdatedTs
            elapsedTime := m.elapsedTime + (sample.lastUpdatedTs - m.startTime)
            numMeasurements := m.numMeasurements + 1
            data := { m.data with started := false } } with
        openRegions := d.openRegions.erase r }
      (k.stop sample.lastUpdatedTs r) sample := by
  have hk : k.stop sample.lastUpdatedTs r =
      { k with
        running := k.running.erase r
        measured := Function.update k.measured r (k.measured r + (sample.lastUpdatedTs - k.since r)) } := if_pos hr
  have hout : r ∉ k.running.erase r := h.nodup.not_mem_erase
  rw [hk]
  refine { h with
    running := congrArg (List.erase · r) h.running
    nodup := h.nodup.erase r
    accounts := fun r' => ?_ }
  by_cases heq : r' = r
  · subst heq
    have hr' := h.accounts r'
    have hopen := hr'.open_time hr
    have hsince := hr'.since_eq hr
    have hmeasured := hr'.measured_eq
    dsimp only [TalpInfo.modifyMonitor]
    rw [Function.update_self, Function.update_self]
    refine ⟨by simp [hout], hr'.enabled_eq, fun hmem => absurd hmem hout, ?_, fun _ => Nat.succ_pos _,
      fun hmem => absurd hmem hout, fun _ => ?_⟩
    · dsimp only
      rw [hmeasured, hsince]
    · dsimp only [Monitor.cpuTime] at hopen ⊢
      omega
  · simpa [TalpInfo.modifyMonitor, heq, mem_erase_of_ne heq] using h.accounts r'

omit [DecidableEq τ] in
theorem regionReset_eq (monitor : Option ρ)
    (hstarted : (d.monitors (monitor.getD d.monitor)).data.started = true ↔ monitor.getD d.monitor ∈ d.openRegions) :
    ∃ numResets data, data.started = false ∧ data.enabled = (d.monitors (monitor.getD d.monitor)).data.enabled ∧
      (d.regionReset monitor).1 =
        { d with
          monitors := Function.update d.monitors (monitor.getD d.monitor) { numResets := numResets, data := data }
          openRegions := d.openRegions.erase (monitor.getD d.monitor) } := by
  unfold TalpInfo.regionReset
  dsimp only
  generalize monitor.getD d.monitor = r at *
  split
  · refine ⟨(d.monitors r).numResets + 1, { (d.monitors r).data with started := false }, rfl, rfl, ?_⟩
    simp [TalpInfo.modifyMonitor]
  · rename_i hno
    have hmem : r ∉ d.openRegions := fun hmem => hno (hstarted.mpr hmem)
    refine ⟨(d.monitors r).numResets + 1, (d.monitors r).data, by simpa using hno, rfl, ?_⟩
    rw [erase_of_not_mem hmem]
    rfl

omit [DecidableEq τ] in
theorem Conserves.reset (h : Conserves main d k sample) (monitor : Option ρ) :
    Conserves main (d.regionReset monitor).1 (k.reset (monitor.getD d.monitor)) sample := by
  have hr := h.accounts (monitor.getD d.monitor)
  obtain ⟨numResets, data, hstarted, henabled, heq⟩ := regionReset_eq monitor (by rw [h.running]; exact hr.started)
  rw [heq]
  generalize monitor.getD d.monitor = r at *
  have hout : r ∉ k.running.erase r := h.nodup.not_mem_erase
  refine { h with
    running := congrArg (List.erase · r) h.running
    nodup := h.nodup.erase r
    accounts := fun r' => ?_ }
  by_cases hrr : r' = r
  · subst hrr
    dsimp only [RegionWatch.reset]
    rw [Function.update_self, Function.update_self]
    exact ⟨by simp [hout, hstarted], henabled.trans hr.enabled_eq, fun hmem => absurd hmem hout, rfl,
      fun hpos => absurd hpos (lt_irrefl 0), fun hmem => absurd hmem hout, fun _ => rfl⟩
  · simpa [RegionWatch.reset, hrr, mem_erase_of_ne hrr] using h.accounts r'

theorem Conserves.startSequential (h : Conserves main d k sample) (r : ρ) :
    ∃ sample', Conserves main (d.startSequential main e r).1 (k.start e.now r) sample' := by
  have hr := h.accounts r
  unfold TalpInfo.startSequential
  by_cases hstart : r ∈ k.running ∨ k.enabled r = false
  · have hcond : ¬ (¬ (d.monitors r).data.started = true ∧ (d.monitors r).data.enabled = true) := by
      rintro ⟨hstarted, henabled⟩
      rcases hstart with hmem | hdisabled
      · exact hstarted (hr.started.mpr hmem)
      · rw [hr.enabled_eq, hdisabled] at henabled
        cases henabled
    have hk : k.start e.now r = k := if_pos hstart
    rw [if_neg hcond, hk]
    exact ⟨sample, h⟩
  · obtain ⟨hmem, henabled⟩ := not_or.mp hstart
    have hcond : ¬ (d.monitors r).data.started = true ∧ (d.monitors r).data.enabled = true :=
      ⟨fun hs => hmem (hr.started.mp hs), by rw [hr.enabled_eq]; simpa using henabled⟩
    rw [if_pos hcond]
    obtain ⟨sample', h', hzero, hlast, hts⟩ := h.flush (e := e)
    have hpush := h'.push hzero hmem (by simpa using henabled)
    rw [hlast] at hpush
    dsimp only
    rw [hts]
    exact ⟨sample', hpush⟩

theorem Conserves.stopSequential (h : Conserves main d k sample) (r : ρ) :
    ∃ sample', Conserves main (d.stopSequential main e r).1 (k.stop e.now r) sample' := by
  have hr := h.accounts r
  unfold TalpInfo.stopSequential
  by_cases hmem : r ∈ k.running
  · rw [if_pos (hr.started.mpr hmem)]
    obtain ⟨sample', h', hzero, hlast, hts⟩ := h.flush (e := e)
    have hpop := h'.pop hzero hmem
    rw [hlast] at hpop
    dsimp only
    rw [hts]
    exact ⟨sample', hpop⟩
  · have hk : k.stop e.now r = k := if_neg hmem
    rw [if_neg (fun hs => hmem (hr.started.mp hs)), hk]
    exact ⟨sample, h⟩

/-! ## Runs from the initialization -/

theorem Conserves.regionStart_eq (h : Conserves main d k sample) (arg : RegionArg ρ) :
    (d.regionStart main e arg).1 =
      match arg with
      | .global => (d.startSequential main e k.global).1
      | .region r => (d.startSequential main e r).1
      | .lastOpen => d := by
  unfold TalpInfo.regionStart
  rw [h.role, if_neg (by decide), h.monitor]
  cases arg <;> rfl

theorem Conserves.regionStop_eq (h : Conserves main d k sample) (arg : RegionArg ρ) :
    (d.regionStop main e arg).1 =
      match arg with
      | .global => (d.stopSequential main e k.global).1
      | .region r => (d.stopSequential main e r).1
      | .lastOpen =>
        match k.running with
        | r :: _ => (d.stopSequential main e r).1
        | [] => d := by
  unfold TalpInfo.regionStop
  rw [h.role, if_neg (by decide), if_neg (by decide), h.monitor, h.running]
  cases arg with
  | global => rfl
  | region r => rfl
  | lastOpen => cases k.running <;> rfl

theorem Conserves.next {s : SequentialState τ ρ} (h : Conserves main s.talp s.watch sample) (e : SequentialEvent ρ) :
    ∃ sample', Conserves main (s.next main e).talp (s.next main e).watch sample' := by
  unfold SequentialState.next SequentialState.exec SequentialState.follow
  cases e.op with
  | update =>
    obtain ⟨sample', h', -⟩ := h.update (e := s.readings e)
    exact ⟨sample', h'⟩
  | change state =>
    obtain ⟨sample', h', -⟩ := h.update (e := s.readings e)
    exact ⟨_, h'.change state⟩
  | aggregate =>
    obtain ⟨sample', h', -⟩ := h.aggregate (e := s.readings e)
    exact ⟨sample', h'⟩
  | start arg =>
    dsimp only
    rw [h.regionStart_eq]
    cases arg with
    | global => exact h.startSequential _
    | region r => exact h.startSequential r
    | lastOpen => exact ⟨sample, h⟩
  | stop arg =>
    dsimp only
    rw [h.regionStop_eq]
    cases arg with
    | global => exact h.stopSequential _
    | region r => exact h.stopSequential r
    | lastOpen =>
      cases s.watch.running with
      | nil => exact ⟨sample, h⟩
      | cons r rest => exact h.stopSequential r
  | reset monitor =>
    have := h.reset monitor
    rw [h.monitor] at this
    exact ⟨sample, this⟩

theorem conserves_init (main : τ) (numCpus : ℕ) (haveHwc : Bool) (global : ρ) (enabled : ρ → Bool) (clock : ℤ)
    (cpuid : ℕ) : ∃ sample,
    Conserves main (SequentialState.init main numCpus haveHwc global enabled clock cpuid).talp
      (SequentialState.init main numCpus haveHwc global enabled clock cpuid).watch sample := by
  unfold SequentialState.init TalpInfo.talpInit
  dsimp only
  generalize hd : TalpInfo.talpSampleSetState _ main _ _ = d
  have hget : ∃ sample : Sample, Conserves main d { global := global, enabled := enabled } sample := by
    refine ⟨{ recordCpuid { lastUpdatedTs := clock } cpuid with state := .useful }, ?_⟩
    subst hd
    simp only [TalpInfo.talpSampleGet, ThreadRole.isProfiled, TalpInfo.talpSampleSetState, TalpInfo.setSample, if_true,
      Function.update_self, decide_true, reduceCtorEq, or_false]
    exact
      { role := if_pos rfl
        haveOpenmp := rfl
        haveGpu := rfl
        threads := rfl
        sample_eq := Function.update_self _ _ _
        state := ⟨.useful, rfl⟩
        generation := le_rfl
        monitor := rfl
        running := rfl
        nodup := nodup_nil
        accounts := fun r => ⟨by simp, rfl, fun hr => absurd hr not_mem_nil, rfl, fun h => absurd h (lt_irrefl 0),
          fun hr => absurd hr not_mem_nil, fun _ => rfl⟩ }
  obtain ⟨sample, h⟩ := hget
  rw [h.regionStart_eq]
  exact h.startSequential global

theorem conserves_run (main : τ) {s : SequentialState τ ρ} (h : ∃ sample, Conserves main s.talp s.watch sample)
    (events : List (SequentialEvent ρ)) : ∃ sample,
    Conserves main (events.foldl (SequentialState.next main) s).talp
      (events.foldl (SequentialState.next main) s).watch sample := by
  induction events generalizing s with
  | nil => exact h
  | cons e rest ih =>
    obtain ⟨_, hs⟩ := h
    exact ih (hs.next e)

/-- **Time is conserved.** In every state of a run of the main thread in sequential code, the useful time, the MPI time
and the GPU runtime time of a region that is not open add up to its elapsed time, which is the time between its starts
and its stops since its last reset; and the open regions are the started ones, each once. -/
theorem time_conserved (main : τ) (numCpus : ℕ) (haveHwc : Bool) (global : ρ) (enabled : ρ → Bool) (clock : ℤ)
    (cpuid : ℕ) (events : List (SequentialEvent ρ)) :
    let s := events.foldl (SequentialState.next main)
      (SequentialState.init main numCpus haveHwc global enabled clock cpuid)
    (∀ r, r ∉ s.watch.running →
      (s.talp.monitors r).usefulTime + (s.talp.monitors r).mpiTime + (s.talp.monitors r).gpuRuntimeTime =
        (s.talp.monitors r).elapsedTime ∧
      (s.talp.monitors r).elapsedTime = s.watch.measured r) ∧
    s.talp.openRegions = s.watch.running ∧ s.talp.openRegions.Nodup ∧
    ∀ r, r ∈ s.talp.openRegions ↔ (s.talp.monitors r).data.started = true := by
  intro s
  obtain ⟨sample, h⟩ := conserves_run main (conserves_init main numCpus haveHwc global enabled clock cpuid) events
  refine ⟨fun r hr => ⟨(h.accounts r).closed_time hr, (h.accounts r).measured_eq⟩, h.running, h.running ▸ h.nodup,
    fun r => ?_⟩
  rw [h.running]
  exact (h.accounts r).started.symm

end Steps

end Dlb.Talp
