import Dlb.Talp.Conservation
import Mathlib.Algebra.Order.BigOperators.Group.List
import Mathlib.Tactic.Ring

/-!
# Monitoring of OpenMP

`talp_openmp.c`: what TALP does at each event of the OpenMP tool. Every thread keeps its own sample. The primary thread
of a parallel reads the samples of all its members at the end, and writes the time that each of them has waited into
its own sample, as load imbalance and scheduling.

* `talpSampleUpdate_eq`, `updateThenSetState_eq`, `intoParallelFunction_eq`, `threadBegin_new`: what an event does to the
  sample of a thread that has one, or that has none yet;
* `computeParallelNotUseful_add`: load imbalance and scheduling add up to the time that the members have waited;
* `parallelEnd_eq`: what the end of a parallel does to the samples of its members.
-/

namespace Dlb.Talp

open List Function

def int64Max : ℤ := 2 ^ 63 - 1

/-- `talp_parallel_data_t`; a pointer to a sample is the thread that the sample belongs to. -/
structure TalpParallelData (τ : Type*) where
  parallelSamples : ℕ → Option τ := fun _ => none
  previousNotUsefulOmpIn : ℤ := 0

/-- `omptool_parallel_data_t`. -/
structure OmptoolParallelData (τ : Type*) where
  level : ℕ
  requestedParallelism : ℕ
  actualParallelism : ℕ := 0
  talpParallelData : TalpParallelData τ := {}

namespace OmptoolParallelData

variable {τ : Type*} (data : OmptoolParallelData τ)

/-- The threads in `parallel_samples`, from the first index on that is given. -/
def membersFrom (first : ℕ) : List τ :=
  (range' first (data.actualParallelism - first)).filterMap data.talpParallelData.parallelSamples

/-- `parallel_samples`. -/
def members : List τ := data.membersFrom 0

end OmptoolParallelData

/-- The time that a member of a parallel has waited in it, at its end. -/
def Sample.waited (sample : Sample) (now : ℤ) : ℤ := sample.timers.notUsefulOmpIn + (now - sample.lastUpdatedTs)

/-- `compute_parallel_not_useful`: the load imbalance and the scheduling. -/
def computeParallelNotUseful (parallelSamples : List Sample) (now : ℤ) : ℤ × ℤ :=
  let workersNotUsefulOmpIn := parallelSamples.map (·.waited now)
  let minNotUsefulOmpIn := workersNotUsefulOmpIn.foldl min int64Max
  ((workersNotUsefulOmpIn.map (· - minNotUsefulOmpIn)).sum, minNotUsefulOmpIn * parallelSamples.length)

/-- The correction of the timestamp of a worker in `talp_openmp_into_parallel_function`. -/
def fixLastUpdatedTs (sample : Sample) : Sample :=
  { sample with
    lastUpdatedTs :=
      if sample.lastUpdatedTs < sample.lastParallelEndTs then sample.lastParallelEndTs else sample.lastUpdatedTs }

/-- The part of `talp_openmp_parallel_end` that adds to the timers of the primary thread. -/
def addNotUsefulOmpIn (lb sched : ℤ) (sample : Sample) : Sample :=
  { sample with
    timers :=
      { sample.timers with
        notUsefulOmpInLb := sample.timers.notUsefulOmpInLb + lb
        notUsefulOmpInSched := sample.timers.notUsefulOmpInSched + sched } }

variable {τ ρ : Type*}

namespace TalpInfo

section Events

variable [DecidableEq τ] [DecidableEq ρ] (d : TalpInfo τ ρ) (t : τ) (e : Readings)

/-- Writes to the sample of a thread that has one. -/
def modifySample (f : Sample → Sample) : TalpInfo τ ρ :=
  match d.samples t with
  | some sample => d.setSample t (f sample)
  | none => d

/-- `thread_ctx_set_worker` and `thread_ctx_set_main`. -/
def setRole (role : ThreadRole) : TalpInfo τ ρ := { d with role := update d.role t role }

def updateSerializationInNestedRegions (sample : Sample) : TalpInfo τ ρ :=
  d.openRegions.tail.foldl (fun d r => d.modifyMonitor r fun m =>
    { m with ompSerializationTime := m.ompSerializationTime + (sample.lastUpdatedTs - m.startTime) }) d

def talpOpenmpInit : TalpInfo τ ρ :=
  let d := { d with flags := { d.flags with haveOpenmp := true } }
  let d := (d.regionStart t e .global).1
  d.talpSampleSetState t e .useful

def talpOpenmpThreadBegin : TalpInfo τ ρ :=
  if d.flags.haveOpenmp then
    match d.talpSampleGet t e with
    | (d, some _) => d
    | (d, none) =>
      match (d.setRole t .worker).talpSampleGet t e with
      | (d, none) => d
      | (d, some sample) => (d.talpSampleSetState t e .notUsefulOmpOut).updateSerializationInNestedRegions sample
  else d

/-- `talp_openmp_parallel_begin`. The first level has a static storage for its parallels, with what the last one has
left in it. -/
def talpOpenmpParallelBegin (talpParallelDataL1 : TalpParallelData τ) (data : OmptoolParallelData τ) :
    TalpInfo τ ρ × OmptoolParallelData τ :=
  if d.flags.haveOpenmp then
    let data := { data with talpParallelData := if data.level = 1 then talpParallelDataL1 else {} }
    let d := d.modifySample t fun sample =>
      { sample with stats := { sample.stats with numOmpParallels := sample.stats.numOmpParallels + 1 } }
    (if data.level = 1 then d.setRole t .mainParallel else d, data)
  else (d, data)

def talpOpenmpParallelEnd (data : OmptoolParallelData τ) : TalpInfo τ ρ :=
  if d.flags.haveOpenmp then
    match (d.talpSampleUpdate t e).talpSampleGet t e with
    | (d, none) => d
    | (d, some sample) =>
      let now := sample.lastUpdatedTs
      let notUseful := computeParallelNotUseful (data.members.filterMap d.samples) now
      let d := d.modifySample t (addNotUsefulOmpIn notUseful.1 notUseful.2)
      -- the end of the parallel is recorded for all members but the primary
      let d := (data.membersFrom 1).foldl (fun d u =>
        d.modifySample u fun worker => { worker with lastParallelEndTs := now }) d
      let d := d.talpSampleSetState t e .useful
      if data.level = 1 then d.setRole t .mainSequential
      else
        d.modifySample t fun sample =>
          { sample with
            timers := { sample.timers with notUsefulOmpIn := data.talpParallelData.previousNotUsefulOmpIn } }
  else d

def talpOpenmpIntoParallelFunction (data : OmptoolParallelData τ) (index : ℕ) :
    TalpInfo τ ρ × OmptoolParallelData τ :=
  if d.flags.haveOpenmp then
    match d.talpSampleGet t e with
    | (d, none) => (d, data)
    | (d, some sample) =>
      let talpParallelData : TalpParallelData τ :=
        { parallelSamples := update data.talpParallelData.parallelSamples index (some t)
          previousNotUsefulOmpIn :=
            if index = 0 ∧ 1 < data.level then sample.timers.notUsefulOmpIn
            else data.talpParallelData.previousNotUsefulOmpIn }
      let sample := if 0 < index then fixLastUpdatedTs sample else sample
      let d := d.setSample t { sample with timers := { sample.timers with notUsefulOmpIn := 0 } }
      let d := (d.talpSampleUpdate t e).modifySample t (recordCpuid · e.cpuid)
      (d.talpSampleSetState t e .useful, { data with talpParallelData := talpParallelData })
  else (d, data)

def talpOpenmpOutofParallelFunction : TalpInfo τ ρ :=
  if d.flags.haveOpenmp then d.talpSampleSetState t e .notUsefulOmpOut else d

/-- What the events inside a parallel do: an update of the sample, then one of its state. -/
def updateThenSetState (newState : SampleState) : TalpInfo τ ρ :=
  if d.flags.haveOpenmp then (d.talpSampleUpdate t e).talpSampleSetState t e newState else d

def talpOpenmpIntoParallelImplicitBarrier : TalpInfo τ ρ := d.updateThenSetState t e .notUsefulOmpIn

def talpOpenmpIntoParallelSync : TalpInfo τ ρ := d.updateThenSetState t e .notUsefulOmpIn

def talpOpenmpOutofParallelSync : TalpInfo τ ρ := d.updateThenSetState t e .useful

def talpOpenmpTaskCreate : TalpInfo τ ρ :=
  if d.flags.haveOpenmp then
    d.modifySample t fun sample =>
      { sample with stats := { sample.stats with numOmpTasks := sample.stats.numOmpTasks + 1 } }
  else d

def talpOpenmpTaskComplete : TalpInfo τ ρ := d.updateThenSetState t e .notUsefulOmpIn

def talpOpenmpTaskSwitch : TalpInfo τ ρ := d.updateThenSetState t e .useful

end Events

/-! ## The sample of a thread -/

section Updated

variable (d : TalpInfo τ ρ) (t : τ) (e : Readings) (sample : Sample)

/-- The time that the first update of a new sample starts from. -/
def initialTs : ℤ :=
  match d.openRegions with
  | innermost :: _ => (d.monitors innermost).startTime
  | [] => e.created

/-- A sample after `talp_sample_update`. -/
def updatedSample : Sample :=
  updateCounters (updateTimers (ensureGeneration sample d.currentGenerationTs e.cpuid) e.now (d.unusedCpus t))
    d.flags.haveHwc e.hwc

@[simp] theorem updatedSample_lastUpdatedTs : (d.updatedSample t e sample).lastUpdatedTs = e.now := by
  simp [updatedSample, updateTimers]

@[simp] theorem updatedSample_state : (d.updatedSample t e sample).state = sample.state := by
  simp [updatedSample, updateTimers]

@[simp] theorem updatedSample_lastParallelEndTs :
    (d.updatedSample t e sample).lastParallelEndTs = sample.lastParallelEndTs := by
  unfold updatedSample updateCounters updateTimers ensureGeneration
  split <;> split <;> rfl

variable {d t e sample}

theorem updatedSample_current (h : d.currentGenerationTs ≤ sample.generationTs) :
    (d.updatedSample t e sample).timers =
        sample.timers.add sample.state (e.now - sample.lastUpdatedTs) (d.unusedCpus t) ∧
      (d.updatedSample t e sample).generationTs = sample.generationTs := by
  simp [updatedSample, updateTimers, ensureGeneration_of_le h]

theorem updatedSample_older (h : sample.generationTs < d.currentGenerationTs) :
    (d.updatedSample t e sample).timers =
        ({} : SampleTimers).add sample.state (e.now - d.currentGenerationTs) (d.unusedCpus t) ∧
      (d.updatedSample t e sample).generationTs = d.currentGenerationTs := by
  simp [updatedSample, updateTimers, ensureGeneration, if_pos h, resetSample, recordCpuid]

/-- The sample of a thread that has begun its implicit task. -/
def begunSample (d : TalpInfo τ ρ) (t : τ) (e : Readings) (index : ℕ) (sample : Sample) : Sample :=
  let sample := if 0 < index then fixLastUpdatedTs sample else sample
  { recordCpuid
      (d.updatedSample t e { sample with timers := { sample.timers with notUsefulOmpIn := 0 } }) e.cpuid with
    state := .useful }

theorem begunSample_lastUpdatedTs (d : TalpInfo τ ρ) (t : τ) (e : Readings) (index : ℕ) (sample : Sample) :
    (d.begunSample t e index sample).lastUpdatedTs = e.now := updatedSample_lastUpdatedTs _ _ _ _

theorem begunSample_lastParallelEndTs (d : TalpInfo τ ρ) (t : τ) (e : Readings) (index : ℕ) (sample : Sample) :
    (d.begunSample t e index sample).lastParallelEndTs = sample.lastParallelEndTs := by
  refine (updatedSample_lastParallelEndTs d t e _).trans ?_
  split <;> rfl

/-- The sample of the primary thread after the end of a parallel. -/
def endedSample (data : OmptoolParallelData τ) (notUseful : ℤ × ℤ) (sample : Sample) : Sample :=
  { addNotUsefulOmpIn notUseful.1 notUseful.2 sample with
    state := .useful
    timers :=
      { (addNotUsefulOmpIn notUseful.1 notUseful.2 sample).timers with
        notUsefulOmpIn :=
          if data.level = 1 then sample.timers.notUsefulOmpIn
          else data.talpParallelData.previousNotUsefulOmpIn } }

/-- The process after the end of a parallel: the other members get its time, the primary thread all that they have
waited. -/
def endedParallel [DecidableEq τ] (d : TalpInfo τ ρ) (t : τ) (e : Readings) (data : OmptoolParallelData τ)
    (sample : Sample) (notUseful : ℤ × ℤ) : TalpInfo τ ρ :=
  { d with
    role := if data.level = 1 then update d.role t .mainSequential else d.role
    samples := fun v =>
      if v = t then some (endedSample data notUseful (d.updatedSample t e sample))
      else if v ∈ data.membersFrom 1 then
        (d.samples v).map fun worker => { worker with lastParallelEndTs := e.now }
      else d.samples v }

def workerSample (d : TalpInfo τ ρ) (e : Readings) : Sample :=
  { lastUpdatedTs := d.initialTs e, state := .notUsefulOmpOut }

end Updated

section Sample

variable [DecidableEq τ] {d : TalpInfo τ ρ} {t : τ} {e : Readings} {sample : Sample}

@[simp] theorem setSample_samples_self : (d.setSample t sample).samples t = some sample :=
  update_self _ _ _

@[simp] theorem setSample_setSample (sample' : Sample) :
    (d.setSample t sample).setSample t sample' = d.setSample t sample' := by
  unfold setSample
  rw [update_idem]

theorem modifySample_eq (h : d.samples t = some sample) (f : Sample → Sample) :
    d.modifySample t f = d.setSample t (f sample) := by rw [modifySample, h]

theorem talpSampleGet_eq (h : d.samples t = some sample) : d.talpSampleGet t e = (d, some sample) := by
  rw [talpSampleGet, h]

theorem talpSampleSetState_eq (h : d.samples t = some sample) (newState : SampleState) :
    d.talpSampleSetState t e newState = d.setSample t { sample with state := newState } := by
  rw [talpSampleSetState, talpSampleGet_eq h]

theorem talpSampleUpdate_eq (h : d.samples t = some sample) :
    d.talpSampleUpdate t e = d.setSample t (d.updatedSample t e sample) := by
  rw [talpSampleUpdate, talpSampleGet_eq h]
  rfl

theorem updateThenSetState_eq (hopenmp : d.flags.haveOpenmp = true) (h : d.samples t = some sample)
    (newState : SampleState) :
    d.updateThenSetState t e newState = d.setSample t { d.updatedSample t e sample with state := newState } := by
  rw [updateThenSetState, if_pos hopenmp, talpSampleUpdate_eq h, talpSampleSetState_eq setSample_samples_self,
    setSample_setSample]

theorem intoParallelFunction_eq (hopenmp : d.flags.haveOpenmp = true) (h : d.samples t = some sample)
    (data : OmptoolParallelData τ) (index : ℕ) :
    d.talpOpenmpIntoParallelFunction t e data index =
      (d.setSample t (d.begunSample t e index sample),
        { data with
          talpParallelData :=
            { parallelSamples := update data.talpParallelData.parallelSamples index (some t)
              previousNotUsefulOmpIn :=
                if index = 0 ∧ 1 < data.level then sample.timers.notUsefulOmpIn
                else data.talpParallelData.previousNotUsefulOmpIn } }) := by
  rw [talpOpenmpIntoParallelFunction, if_pos hopenmp, talpSampleGet_eq h]
  dsimp only
  rw [talpSampleUpdate_eq setSample_samples_self, setSample_setSample, modifySample_eq setSample_samples_self,
    setSample_setSample, talpSampleSetState_eq setSample_samples_self, setSample_setSample]
  rfl

theorem parallelBegin_eq (hopenmp : d.flags.haveOpenmp = true) (h : d.samples t = some sample)
    (talpParallelDataL1 : TalpParallelData τ) (data : OmptoolParallelData τ) :
    d.talpOpenmpParallelBegin t talpParallelDataL1 data =
      ({ d.setSample t
            { sample with stats := { sample.stats with numOmpParallels := sample.stats.numOmpParallels + 1 } } with
          role := if data.level = 1 then update d.role t .mainParallel else d.role },
        { data with talpParallelData := if data.level = 1 then talpParallelDataL1 else {} }) := by
  rw [talpOpenmpParallelBegin, if_pos hopenmp]
  dsimp only
  rw [modifySample_eq h]
  split <;> rfl

/-! ## The end of a parallel -/

theorem computeParallelNotUseful_add (samples : List Sample) (now : ℤ) :
    (computeParallelNotUseful samples now).1 + (computeParallelNotUseful samples now).2 =
      (samples.map (·.waited now)).sum := by
  suffices hshare : ∀ (m : ℤ) (l : List ℤ), (l.map (· - m)).sum + m * l.length = l.sum by
    have := hshare ((samples.map (·.waited now)).foldl min int64Max) (samples.map (·.waited now))
    rwa [length_map] at this
  intro m l
  induction l with
  | nil => simp
  | cons a l ih =>
    simp only [map_cons, sum_cons, length_cons, Nat.cast_add, Nat.cast_one]
    rw [← ih]
    ring

theorem computeParallelNotUseful_nonneg {samples : List Sample} {now : ℤ}
    (h : ∀ sample ∈ samples, 0 ≤ sample.waited now) :
    0 ≤ (computeParallelNotUseful samples now).1 ∧ 0 ≤ (computeParallelNotUseful samples now).2 := by
  have hmin : ∀ (l : List ℤ) (m : ℤ), (∀ a ∈ l, 0 ≤ a) → 0 ≤ m →
      0 ≤ l.foldl min m ∧ l.foldl min m ≤ m ∧ ∀ a ∈ l, l.foldl min m ≤ a := by
    intro l
    induction l with
    | nil => exact fun m _ hm => ⟨hm, le_rfl, nofun⟩
    | cons a l ih =>
      intro m hl hm
      obtain ⟨ha, hl⟩ := forall_mem_cons.mp hl
      obtain ⟨h0, hle, hall⟩ := ih (min m a) hl (le_min hm ha)
      exact ⟨h0, hle.trans (min_le_left _ _), forall_mem_cons.mpr ⟨hle.trans (min_le_right _ _), hall⟩⟩
  obtain ⟨h0, -, hall⟩ := hmin (samples.map (·.waited now)) int64Max
    (by simpa using h) (by decide)
  refine ⟨sum_nonneg fun x hx => ?_, Int.mul_nonneg h0 (Int.natCast_nonneg _)⟩
  obtain ⟨a, ha, rfl⟩ := mem_map.mp hx
  exact sub_nonneg.mpr (hall a ha)

theorem foldl_modifySample (f : Sample → Sample) : ∀ (l : List τ) (d : TalpInfo τ ρ), l.Nodup →
    l.foldl (fun d u => d.modifySample u f) d =
      { d with samples := fun v => if v ∈ l then (d.samples v).map f else d.samples v } := by
  intro l
  induction l with
  | nil => simp
  | cons a l ih =>
    intro d hl
    obtain ⟨ha, hl⟩ := nodup_cons.mp hl
    rw [foldl_cons, ih _ hl]
    cases h : d.samples a with
    | none =>
      rw [modifySample, h]
      congr 1
      funext v
      by_cases hv : v = a
      · subst hv
        simp [ha, h]
      · simp [hv]
    | some sample =>
      rw [modifySample_eq h]
      unfold setSample
      congr 1
      funext v
      by_cases hv : v = a
      · subst hv
        simp [ha, h]
      · simp [hv]

theorem parallelEnd_eq (hopenmp : d.flags.haveOpenmp = true) (h : d.samples t = some sample)
    {data : OmptoolParallelData τ} (hnodup : (data.membersFrom 1).Nodup) (ht : t ∉ data.membersFrom 1) :
    d.talpOpenmpParallelEnd t e data =
      d.endedParallel t e data sample
        (computeParallelNotUseful (data.members.filterMap (d.talpSampleUpdate t e).samples) e.now) := by
  rw [talpOpenmpParallelEnd, if_pos hopenmp, talpSampleUpdate_eq h, talpSampleGet_eq setSample_samples_self]
  dsimp only
  rw [updatedSample_lastUpdatedTs, modifySample_eq setSample_samples_self, setSample_setSample,
    foldl_modifySample _ _ _ hnodup]
  generalize computeParallelNotUseful _ _ = notUseful
  have hs : ({ d.setSample t (addNotUsefulOmpIn notUseful.1 notUseful.2 (d.updatedSample t e sample)) with
      samples := fun v =>
        if v ∈ data.membersFrom 1 then
          ((d.setSample t (addNotUsefulOmpIn notUseful.1 notUseful.2 (d.updatedSample t e sample))).samples v).map
            fun worker => { worker with lastParallelEndTs := e.now }
        else (d.setSample t (addNotUsefulOmpIn notUseful.1 notUseful.2
          (d.updatedSample t e sample))).samples v } : TalpInfo τ ρ).samples t =
      some (addNotUsefulOmpIn notUseful.1 notUseful.2 (d.updatedSample t e sample)) := by
    dsimp only
    rw [if_neg ht, setSample_samples_self]
  rw [talpSampleSetState_eq hs]
  unfold endedParallel
  split
  · rename_i hlevel
    unfold setRole setSample endedSample
    rw [if_pos hlevel]
    congr 1
    funext v
    by_cases hv : v = t
    · subst hv
      simp [addNotUsefulOmpIn]
    · simp [hv]
  · rename_i hlevel
    rw [modifySample_eq setSample_samples_self, setSample_setSample]
    unfold setSample endedSample
    rw [if_neg hlevel]
    congr 1
    funext v
    by_cases hv : v = t
    · subst hv
      simp
    · simp [hv]

/-! ## A new thread -/

variable [DecidableEq ρ]

theorem threadBegin_new (hopenmp : d.flags.haveOpenmp = true) (h : d.samples t = none)
    (hrole : (d.role t).isProfiled = false) (hnodup : d.openRegions.Nodup) :
    d.talpOpenmpThreadBegin t e =
      { d with
        role := update d.role t .worker
        samples := update d.samples t (some (d.workerSample e))
        threads := d.threads ++ [t]
        monitors := fun r =>
          if r ∈ d.openRegions.tail then
            { d.monitors r with
              ompSerializationTime :=
                (d.monitors r).ompSerializationTime + (d.initialTs e - (d.monitors r).startTime) }
          else d.monitors r } := by
  have hget : d.talpSampleGet t e = (d, none) := by rw [talpSampleGet, h, if_neg (by rw [hrole]; decide)]
  have hnew : (d.setRole t .worker).talpSampleGet t e =
      ({ (d.setRole t .worker).setSample t { lastUpdatedTs := d.initialTs e } with threads := d.threads ++ [t] },
        some { lastUpdatedTs := d.initialTs e }) := by
    rw [talpSampleGet]
    have hsample : (d.setRole t .worker).samples t = none := h
    have hworker : (d.setRole t .worker).role t = .worker := update_self _ _ _
    have hprof : ((d.setRole t .worker).role t).isProfiled = true := by
      rw [hworker]
      rfl
    rw [hsample, if_pos hprof]
    rfl
  rw [talpOpenmpThreadBegin, if_pos hopenmp, hget]
  dsimp only
  rw [hnew]
  dsimp only
  have hstate : ∀ d' : TalpInfo τ ρ, d'.samples t = some { lastUpdatedTs := d.initialTs e } →
      d'.talpSampleSetState t e .notUsefulOmpOut = d'.setSample t (d.workerSample e) :=
    fun d' hs => talpSampleSetState_eq hs .notUsefulOmpOut
  rw [hstate _ (by exact update_self _ _ _), updateSerializationInNestedRegions]
  refine (foldl_modifyMonitor (fun _ m => { m with
    ompSerializationTime := m.ompSerializationTime + (d.initialTs e - m.startTime) }) _ _
    (by exact hnodup.sublist (tail_sublist _))).trans ?_
  congr 1
  exact update_idem _ _ _

end Sample

end TalpInfo

end Dlb.Talp
