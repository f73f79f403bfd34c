import Dlb.Lib.Run
import Dlb.Talp.Regions

/-!
# Regions of a thread

Inside a parallel construct a thread opens and closes regions of its own. What they measure is stated by a stopwatch
for each thread (`Stopwatch`), which knows nothing of samples: it records the time in each state since each open region
was started.

The snapshot at the start of a region has the timers of the sample but not its `last_updated_ts`, which stays zero, and
the elapsed time is the difference of the two.

* `Tracks`: the samples and snapshots agree with the stopwatch, kept by every event (`Tracks.next`).
-/

namespace Dlb.Talp

open Lib

variable {τ ρ : Type*}

/-! ## The stopwatch -/

/-- An open region: when it was started, and the time that its thread has spent in each state since then. -/
structure Interval (ρ : Type*) where
  region : ρ
  start : ℤ
  spent : SampleState → ℤ

/-- The state of each thread, when that was last looked at, and the open regions, the last one first. -/
structure Stopwatch (τ ρ : Type*) where
  state : τ → SampleState
  last : τ → ℤ
  running : τ → List (Interval ρ)

/-- The time since the last look goes to the state of the thread. -/
def Interval.advance (i : Interval ρ) (state : SampleState) (duration : ℤ) : Interval ρ :=
  { i with spent := Function.update i.spent state (i.spent state + duration) }

@[simp] theorem Interval.advance_region (i : Interval ρ) (state : SampleState) (duration : ℤ) :
    (i.advance state duration).region = i.region := rfl

@[simp] theorem Interval.advance_start (i : Interval ρ) (state : SampleState) (duration : ℤ) :
    (i.advance state duration).start = i.start := rfl

theorem Interval.advance_spent (i : Interval ρ) (state : SampleState) (duration : ℤ) (st : SampleState) :
    (i.advance state duration).spent st = if st = state then i.spent state + duration else i.spent st :=
  Function.update_apply _ _ _ _

variable [DecidableEq τ] [DecidableEq ρ]

namespace Stopwatch

variable (k : Stopwatch τ ρ) (t : τ) (now : ℤ)

/-- A thread at the time `now`. -/
def advance : Stopwatch τ ρ :=
  { k with
    last := Function.update k.last t now
    running := Function.update k.running t ((k.running t).map (·.advance (k.state t) (now - k.last t))) }

def change (state : SampleState) : Stopwatch τ ρ :=
  { k.advance t now with state := Function.update k.state t state }

def start (r : ρ) : Stopwatch τ ρ :=
  let k := k.advance t now
  { k with running := Function.update k.running t ({ region := r, start := now, spent := fun _ => 0 } :: k.running t) }

/-- The interval that a stop closes: the last one, or the last one of the region. -/
def closing : Option ρ → Option (Interval ρ)
  | none => ((k.advance t now).running t).head?
  | some r => ((k.advance t now).running t).find? (·.region = r)

def stop (r : ρ) : Stopwatch τ ρ :=
  let k := k.advance t now
  { k with running := Function.update k.running t ((k.running t).eraseP (·.region = r)) }

end Stopwatch

/-! ## Runs -/

/-- What a thread does inside a parallel construct. Every change of the state follows an update of the sample. -/
inductive LocalOp (ρ : Type*) where
  | start (arg : RegionArg ρ)
  | stop (arg : RegionArg ρ)
  | update
  | change (state : SampleState)

/-- An operation of a thread, after the clock has gone on for `delay`. -/
structure LocalEvent (τ ρ : Type*) where
  thread : τ
  op : LocalOp ρ
  delay : ℕ
  cpuid : ℕ := 0
  hwc : Option HwCounters := none

/-- The process, the clock, and the stopwatch next to them. -/
structure LocalState (τ ρ : Type*) where
  talp : TalpInfo τ ρ
  clock : ℤ
  watch : Stopwatch τ ρ

namespace LocalState

variable (s : LocalState τ ρ) (e : LocalEvent τ ρ)

def now : ℤ := s.clock + e.delay

def readings : Readings := { created := s.now e, now := s.now e, cpuid := e.cpuid, hwc := e.hwc }

/-- What an operation does to the process, and what it returns. -/
def exec : TalpInfo τ ρ × DlbError :=
  match e.op with
  | .start arg => s.talp.regionStart e.thread (s.readings e) arg
  | .stop arg => s.talp.regionStop e.thread (s.readings e) arg
  | .update => (s.talp.talpSampleUpdate e.thread (s.readings e), .success)
  | .change state =>
    ((s.talp.talpSampleUpdate e.thread (s.readings e)).talpSampleSetState e.thread (s.readings e) state, .success)

end LocalState

/-- The region that an argument of a stop names, if it is not the last open one. -/
def RegionArg.named (global : ρ) : RegionArg ρ → Option ρ
  | .global => some global
  | .lastOpen => none
  | .region r => some r

namespace LocalState

variable (s : LocalState τ ρ) (e : LocalEvent τ ρ)

/-- What an operation does to the stopwatch; a start or a stop counts if it succeeds. -/
def follow : Stopwatch τ ρ :=
  match e.op, (s.exec e).2 with
  | .start arg, .success => s.watch.start e.thread (s.now e) ((arg.named s.talp.monitor).getD s.talp.monitor)
  | .stop arg, .success =>
    match s.watch.closing e.thread (s.now e) (arg.named s.talp.monitor) with
    | some i => s.watch.stop e.thread (s.now e) i.region
    | none => s.watch
  | .update, _ => s.watch.advance e.thread (s.now e)
  | .change state, _ => s.watch.change e.thread (s.now e) state
  | _, _ => s.watch

def next : LocalState τ ρ where
  talp := (s.exec e).1
  clock := s.now e
  watch := s.follow e

end LocalState

/-! ## What the calls do -/

theorem isProfiled_of_isParallel {role : ThreadRole} (h : role.isParallel = true) : role.isProfiled = true := by
  revert h
  cases role <;> decide

section Calls

variable {d : TalpInfo τ ρ} {t : τ} {r : Readings}

theorem regionStart_cases (hpar : (d.role t).isParallel = true) (arg : RegionArg ρ) :
    (∃ error, error ≠ .success ∧ d.regionStart t r arg = (d, error)) ∨
      ∃ region, arg = .region region ∧ d.regionStart t r arg = d.openEntry t r region := by
  have hprof := isProfiled_of_isParallel hpar
  unfold TalpInfo.regionStart
  rw [if_neg (by simp [hprof])]
  cases arg with
  | global => exact .inl ⟨.errPerm, by decide, by simp [hpar]⟩
  | lastOpen => exact .inl ⟨.errNoent, by decide, rfl⟩
  | region region =>
    dsimp only
    rw [if_pos hpar]
    split
    · exact .inl ⟨.errPerm, by decide, rfl⟩
    · unfold TalpInfo.regionStartThread
      split
      · exact .inl ⟨.noupdt, by decide, rfl⟩
      · exact .inr ⟨region, rfl, rfl⟩

theorem regionStop_cases (hpar : (d.role t).isParallel = true) (arg : RegionArg ρ) :
    (∃ error, error ≠ .success ∧ d.regionStop t r arg = (d, error)) ∨
      ∃ entry, d.findEntry t (arg.named d.monitor) = some entry ∧
        d.regionStop t r arg = d.closeEntry t r entry := by
  have hprof := isProfiled_of_isParallel hpar
  have hthread : ∀ monitor, (∃ error, error ≠ .success ∧ d.regionStopThread t r monitor = (d, error)) ∨
      ∃ entry, d.findEntry t monitor = some entry ∧ d.regionStopThread t r monitor = d.closeEntry t r entry := by
    intro monitor
    unfold TalpInfo.regionStopThread
    cases hfind : d.findEntry t monitor with
    | some entry => exact .inr ⟨entry, rfl, rfl⟩
    | none => exact .inl ⟨_, by split <;> decide, rfl⟩
  unfold TalpInfo.regionStop
  rw [if_neg (by simp [hprof]), if_pos hpar]
  cases arg with
  | global => exact .inl ⟨.errPerm, by decide, rfl⟩
  | lastOpen => exact hthread none
  | region region =>
    dsimp only
    split
    · exact .inl ⟨.errPerm, by decide, rfl⟩
    · exact hthread (some region)

end Calls

/-! ## The snapshots and the stopwatch -/

/-- An entry of a local region and the interval that it stands for, with the timers of the thread at the time `last`. -/
structure EntryTracks (timers : SampleTimers) (last : ℤ) (entry : LocalRegionEntry ρ) (i : Interval ρ) : Prop where
  region : entry.monitor = i.region
  snapshot : entry.snapshot.lastUpdatedTs = 0
  useful : timers.useful - entry.snapshot.timers.useful = i.spent .useful
  mpi : timers.notUsefulMpi - entry.snapshot.timers.notUsefulMpi = i.spent .notUsefulMpi
  ompIn : timers.notUsefulOmpIn - entry.snapshot.timers.notUsefulOmpIn = i.spent .notUsefulOmpIn
  gpu : timers.notUsefulGpu - entry.snapshot.timers.notUsefulGpu = i.spent .notUsefulGpu
  nonneg : ∀ state, 0 ≤ i.spent state
  total : i.spent .useful + i.spent .notUsefulMpi + i.spent .notUsefulOmpIn + i.spent .notUsefulGpu +
    i.spent .disabled + i.spent .notUsefulOmpOut = last - i.start

/-- A sample that has just been updated, with the stopwatch of its thread. -/
structure Fresh (d : TalpInfo τ ρ) (k : Stopwatch τ ρ) (t : τ) (now : ℤ) (sample : Sample) : Prop where
  sample_eq : d.samples t = some sample
  state : sample.state = k.state t
  generation : d.currentGenerationTs ≤ sample.generationTs
  updated : sample.lastUpdatedTs = now
  last : k.last t = now
  entries : List.Forall₂ (EntryTracks sample.timers now) (d.localRegions t) (k.running t)

/-- What holds of a thread between its events: its state is that of the stopwatch, and if it has local regions, its
sample is as it was left at the last event. -/
structure ThreadTracks (s : LocalState τ ρ) (t : τ) : Prop where
  state : s.talp.stateOf t = s.watch.state t
  entries : (s.talp.localRegions t = [] ∧ s.watch.running t = []) ∨
    ∃ sample, Fresh s.talp s.watch t (s.watch.last t) sample ∧ s.watch.last t ≤ s.clock

section Advance

variable {timers timers' : SampleTimers} {last duration : ℤ} {entry : LocalRegionEntry ρ} {i : Interval ρ}

omit [DecidableEq ρ] in
theorem EntryTracks.advance (h : EntryTracks timers last entry i) (hd : 0 ≤ duration) {state : SampleState}
    {unused : Option ℤ} (ht : timers' = timers.add state duration unused) :
    EntryTracks timers' (last + duration) entry (i.advance state duration) := by
  obtain ⟨hregion, hsnap, huseful, hmpi, homp, hgpu, hnn, htotal⟩ := h
  have hnn' : ∀ st, 0 ≤ (i.advance state duration).spent st := by
    intro st
    rw [Interval.advance_spent]
    split
    · exact Int.add_nonneg (hnn state) hd
    · exact hnn st
  refine ⟨hregion, hsnap, ?_, ?_, ?_, ?_, hnn', ?_⟩ <;> cases state <;>
    simp only [ht, SampleTimers.add, Interval.advance_spent, Interval.advance_start, reduceCtorEq, if_true, if_false] <;>
    omega

end Advance

section Step

variable {s : LocalState τ ρ} {d : TalpInfo τ ρ} {k : Stopwatch τ ρ} {t : τ} {now : ℤ} {sample : Sample} {r : Readings}

omit [DecidableEq ρ] in
theorem ThreadTracks.update (h : ThreadTracks s t) (hprof : (s.talp.role t).isProfiled = true)
    (hclock : s.clock ≤ r.now) : ∃ sample threads,
    s.talp.talpSampleUpdate t r = s.talp.withSample t sample threads ∧
    Fresh (s.talp.withSample t sample threads) (s.watch.advance t r.now) t r.now sample := by
  obtain ⟨sample, threads, heq, hup, -⟩ := s.talp.talpSampleUpdate_spec (e := r) hprof
  refine ⟨sample, threads, heq, ⟨Function.update_self _ _ _, hup.state.trans h.state, hup.generation,
    hup.lastUpdatedTs, Function.update_self _ _ _, ?_⟩⟩
  dsimp only [Stopwatch.advance]
  rw [Function.update_self, List.forall₂_map_right_iff]
  obtain ⟨hlocal, hrunning⟩ | ⟨old, hf, hle⟩ := h.entries
  · rw [hlocal, hrunning]
    exact .nil
  · obtain ⟨-, htimers⟩ := hup.timers old hf.sample_eq hf.generation
    have hdur : 0 ≤ r.now - s.watch.last t := by
      have := hle.trans hclock
      omega
    have hsum : s.watch.last t + (r.now - s.watch.last t) = r.now := by omega
    rw [hf.updated, hf.state] at htimers
    refine hf.entries.imp fun entry i hi => ?_
    have hnew := hi.advance hdur htimers
    rwa [hsum] at hnew

omit [DecidableEq τ] [DecidableEq ρ] in
theorem Fresh.threadTracks (h : Fresh d k t now sample) : ThreadTracks { talp := d, clock := now, watch := k } t := by
  have hlast := h.last
  refine ⟨by simp [TalpInfo.stateOf, h.sample_eq, h.state], .inr ⟨sample, ?_, h.last.le⟩⟩
  subst hlast
  exact h

omit [DecidableEq τ] [DecidableEq ρ] in
theorem ThreadTracks.other {s' : LocalState τ ρ} (h : ThreadTracks s t) (hsamples : s'.talp.samples t = s.talp.samples t)
    (hlocal : s'.talp.localRegions t = s.talp.localRegions t)
    (hgen : s'.talp.currentGenerationTs = s.talp.currentGenerationTs) (hstate : s'.watch.state t = s.watch.state t)
    (hlast : s'.watch.last t = s.watch.last t) (hrunning : s'.watch.running t = s.watch.running t)
    (hclock : s.clock ≤ s'.clock) : ThreadTracks s' t := by
  refine ⟨?_, ?_⟩
  · rw [TalpInfo.stateOf, hsamples, hstate]
    exact h.state
  · rw [hlocal, hrunning, hlast]
    obtain hnone | ⟨sample, hf, hle⟩ := h.entries
    · exact .inl hnone
    · exact .inr ⟨sample, ⟨hsamples.trans hf.sample_eq, hf.state.trans hstate.symm, hgen ▸ hf.generation, hf.updated,
        hlast, by rw [hlocal, hrunning]; exact hf.entries⟩, hle.trans hclock⟩

omit [DecidableEq ρ] in
theorem Fresh.change (h : Fresh d (s.watch.advance t now) t now sample) (state : SampleState) :
    Fresh (d.talpSampleSetState t r state) (s.watch.change t now state) t now { sample with state := state } := by
  have heq : d.talpSampleSetState t r state = d.setSample t { sample with state := state } := by
    rw [TalpInfo.talpSampleSetState, TalpInfo.talpSampleGet, h.sample_eq]
  rw [heq]
  exact ⟨Function.update_self _ _ _, (Function.update_self (f := s.watch.state) _ _).symm, h.generation, h.updated,
    h.last, h.entries⟩

omit [DecidableEq ρ] in
theorem Fresh.start (h : Fresh d (s.watch.advance t now) t now sample) (region : ρ) (cpuid : ℕ) :
    Fresh (d.setLocalRegions t (.ofSample region sample cpuid :: d.localRegions t)) (s.watch.start t now region) t now
      sample := by
  refine ⟨h.sample_eq, h.state, h.generation, h.updated, h.last, ?_⟩
  simp only [TalpInfo.setLocalRegions, LocalRegionEntry.ofSample, Stopwatch.start, Function.update_self]
  refine .cons ⟨rfl, rfl, ?_, ?_, ?_, ?_, fun _ => le_rfl, ?_⟩ h.entries <;> simp

theorem forall₂_find? {α β : Type*} {R : α → β → Prop} {p : α → Bool} {q : β → Bool} {l : List α} {m : List β}
    (h : List.Forall₂ R l m) (hpq : ∀ a b, R a b → p a = q b) {a : α} (ha : l.find? p = some a) :
    ∃ b, m.find? q = some b ∧ R a b := by
  induction h with
  | nil => cases ha
  | @cons x y l m hxy _ ih =>
    rw [List.find?_cons] at ha ⊢
    rw [← hpq x y hxy]
    cases hx : p x with
    | true =>
      rw [hx] at ha
      cases ha
      exact ⟨y, rfl, hxy⟩
    | false =>
      rw [hx] at ha
      exact ih ha

theorem forall₂_eraseP {α β : Type*} {R : α → β → Prop} {p : α → Bool} {q : β → Bool} {l : List α} {m : List β}
    (h : List.Forall₂ R l m) (hpq : ∀ a b, R a b → p a = q b) : List.Forall₂ R (l.eraseP p) (m.eraseP q) := by
  induction h with
  | nil => exact .nil
  | @cons x y l m hxy hrest ih =>
    rw [List.eraseP_cons, List.eraseP_cons, ← hpq x y hxy]
    cases p x with
    | true => exact hrest
    | false => exact .cons hxy ih

theorem Fresh.found (h : Fresh d (s.watch.advance t now) t now sample) {m : Option ρ} {entry : LocalRegionEntry ρ}
    (hfind : d.findEntry t m = some entry) :
    ∃ i, s.watch.closing t now m = some i ∧ EntryTracks sample.timers now entry i := by
  have hentries := h.entries
  cases m with
  | none =>
    obtain ⟨rest, hlocal⟩ := List.head?_eq_some_iff.mp (show (d.localRegions t).head? = some entry from hfind)
    rw [hlocal] at hentries
    obtain ⟨i, l, hi, -, hrunning⟩ := List.forall₂_cons_left_iff.mp hentries
    exact ⟨i, by rw [Stopwatch.closing, hrunning, List.head?_cons], hi⟩
  | some region =>
    exact forall₂_find? hentries (fun entry i hi => by simp [hi.region]) hfind

theorem Fresh.stop (h : Fresh d (s.watch.advance t now) t now sample) (region : ρ) (delta : Sample) (elapsed : ℤ) :
    Fresh ((d.talpAggregateSampleToRegion region delta elapsed).setLocalRegions t
      ((d.localRegions t).eraseP (·.monitor = region))) (s.watch.stop t now region) t now sample := by
  refine ⟨h.sample_eq, h.state, h.generation, h.updated, h.last, ?_⟩
  simp only [TalpInfo.setLocalRegions, Stopwatch.stop, Function.update_self]
  exact forall₂_eraseP h.entries fun entry i hi => by simp [hi.region]

end Step

/-! ## What a stop adds -/

/-- What a stop adds to the monitor `m` is the interval: its elapsed time, one measurement, and the time that the
thread has spent in each state, whose sum is not more than the elapsed time. -/
structure AddsInterval (m m' : Monitor) (i : Interval ρ) (now : ℤ) : Prop where
  elapsed : m'.elapsedTime = m.elapsedTime + (now - i.start)
  measurements : m'.numMeasurements = m.numMeasurements + 1
  useful : m'.usefulTime = m.usefulTime + i.spent .useful
  mpi : m'.mpiTime = m.mpiTime + i.spent .notUsefulMpi
  ompScheduling : m'.ompSchedulingTime = m.ompSchedulingTime + i.spent .notUsefulOmpIn
  gpuRuntime : m'.gpuRuntimeTime = m.gpuRuntimeTime + i.spent .notUsefulGpu
  sum_le : i.spent .useful + i.spent .notUsefulMpi + i.spent .notUsefulOmpIn + i.spent .notUsefulGpu ≤
    m'.elapsedTime - m.elapsedTime

omit [DecidableEq τ] [DecidableEq ρ] in
theorem EntryTracks.addsInterval_iff {sample : Sample} {now : ℤ} {entry : LocalRegionEntry ρ} {i : Interval ρ}
    (h : EntryTracks sample.timers now entry i) (hnow : sample.lastUpdatedTs = now) (m : Monitor) (numCpus : ℕ)
    (cpuMask : Finset ℕ) :
    AddsInterval m (TalpInfo.aggregateSample numCpus { talpSampleDelta sample entry.snapshot with cpuMask := cpuMask }
      (sample.lastUpdatedTs - entry.snapshot.lastUpdatedTs) m) i now ↔ i.start = 0 := by
  have hdis := h.nonneg .disabled
  have hout := h.nonneg .notUsefulOmpOut
  have htotal := h.total
  constructor
  · intro hadd
    have := hadd.elapsed
    simp only [TalpInfo.aggregateSample, h.snapshot, hnow] at this
    omega
  · intro h0
    refine ⟨?_, rfl, ?_, ?_, ?_, ?_, ?_⟩ <;>
      simp only [TalpInfo.aggregateSample, talpSampleDelta, h.snapshot, hnow, h.useful, h.mpi, h.ompIn, h.gpu, h0]
    omega

/-! ## Runs of events -/

namespace LocalState

variable (s : LocalState τ ρ) (e : LocalEvent τ ρ)

/-- A successful stop measures the interval that it closes. -/
def MeasuresInterval : Prop := ∀ arg, e.op = .stop arg → (s.exec e).2 = .success →
  ∃ i, s.watch.closing e.thread (s.now e) (arg.named s.talp.monitor) = some i ∧
    AddsInterval (s.talp.monitors i.region) ((s.exec e).1.monitors i.region) i (s.now e)

/-- A successful stop closes an interval that was started when the clock was at zero. -/
def ClosesFromZero : Prop := ∀ arg, e.op = .stop arg → (s.exec e).2 = .success →
  ∃ i, s.watch.closing e.thread (s.now e) (arg.named s.talp.monitor) = some i ∧ i.start = 0

end LocalState

section Runs

variable {s : LocalState τ ρ} {e : LocalEvent τ ρ}

/-- The samples and the snapshots agree with the stopwatch. -/
def Tracks (s : LocalState τ ρ) : Prop := ∀ t, ThreadTracks s t

omit [DecidableEq τ] [DecidableEq ρ] in
theorem LocalState.clock_le_now : s.clock ≤ s.now e := by
  unfold LocalState.now
  omega

theorem exec_stop (h : Tracks s) (hpar : (s.talp.role e.thread).isParallel = true) {arg : RegionArg ρ}
    (hop : e.op = .stop arg) :
    (∃ error, error ≠ .success ∧ s.exec e = (s.talp, error)) ∨
      ∃ sample threads entry i,
        Fresh (s.talp.withSample e.thread sample threads) (s.watch.advance e.thread (s.now e)) e.thread (s.now e)
          sample ∧
        s.watch.closing e.thread (s.now e) (arg.named s.talp.monitor) = some i ∧
        EntryTracks sample.timers (s.now e) entry i ∧
        s.exec e = ((((s.talp.withSample e.thread sample threads).talpAggregateSampleToRegion i.region
            { talpSampleDelta sample entry.snapshot with cpuMask := {entry.cpuid} }
            (sample.lastUpdatedTs - entry.snapshot.lastUpdatedTs)).setLocalRegions e.thread
          ((s.talp.localRegions e.thread).eraseP (·.monitor = i.region))), .success) := by
  have hexec : s.exec e = s.talp.regionStop e.thread (s.readings e) arg := by rw [LocalState.exec, hop]
  rw [hexec]
  obtain ⟨error, hne, herr⟩ | ⟨entry, hfind, hclose⟩ := regionStop_cases (r := s.readings e) hpar arg
  · exact .inl ⟨error, hne, herr⟩
  · obtain ⟨sample, threads, heq, hf⟩ := (h e.thread).update (r := s.readings e) (isProfiled_of_isParallel hpar)
      LocalState.clock_le_now
    obtain ⟨i, hi, htracks⟩ := hf.found (m := arg.named s.talp.monitor) hfind
    refine .inr ⟨sample, threads, entry, i, hf, hi, htracks, ?_⟩
    rw [hclose, TalpInfo.closeEntry, heq, TalpInfo.talpSampleGet, hf.sample_eq, htracks.region]
    rfl

theorem exec_start (h : Tracks s) (hpar : (s.talp.role e.thread).isParallel = true) {arg : RegionArg ρ}
    (hop : e.op = .start arg) :
    (∃ error, error ≠ .success ∧ s.exec e = (s.talp, error)) ∨
      ∃ sample threads region, arg = .region region ∧
        Fresh (s.talp.withSample e.thread sample threads) (s.watch.advance e.thread (s.now e)) e.thread (s.now e)
          sample ∧
        s.exec e = ((s.talp.withSample e.thread sample threads).setLocalRegions e.thread
          (.ofSample region sample e.cpuid :: s.talp.localRegions e.thread), .success) := by
  have hexec : s.exec e = s.talp.regionStart e.thread (s.readings e) arg := by rw [LocalState.exec, hop]
  rw [hexec]
  obtain ⟨error, hne, herr⟩ | ⟨region, harg, hopen⟩ := regionStart_cases (r := s.readings e) hpar arg
  · exact .inl ⟨error, hne, herr⟩
  · obtain ⟨sample, threads, heq, hf⟩ := (h e.thread).update (r := s.readings e) (isProfiled_of_isParallel hpar)
      LocalState.clock_le_now
    refine .inr ⟨sample, threads, region, harg, hf, ?_⟩
    rw [hopen, TalpInfo.openEntry, heq, TalpInfo.talpSampleGet, hf.sample_eq]
    rfl

/-- What the event of a thread leaves as it is. -/
structure Frame (s s' : LocalState τ ρ) (t : τ) : Prop where
  role : s'.talp.role = s.talp.role
  generation : s'.talp.currentGenerationTs = s.talp.currentGenerationTs
  samples : ∀ u, u ≠ t → s'.talp.samples u = s.talp.samples u
  localRegions : ∀ u, u ≠ t → s'.talp.localRegions u = s.talp.localRegions u
  state : ∀ u, u ≠ t → s'.watch.state u = s.watch.state u
  last : ∀ u, u ≠ t → s'.watch.last u = s.watch.last u
  running : ∀ u, u ≠ t → s'.watch.running u = s.watch.running u

theorem next_thread (h : Tracks s) (hpar : (s.talp.role e.thread).isParallel = true) :
    ThreadTracks (s.next e) e.thread ∧ Frame s (s.next e) e.thread := by
  -- a call that fails does nothing
  have hfail : ∀ error, s.exec e = (s.talp, error) → s.follow e = s.watch →
      ThreadTracks (s.next e) e.thread ∧ Frame s (s.next e) e.thread := by
    intro error hexec hfollow
    have hnext : s.next e = { s with clock := s.now e } := by rw [LocalState.next, hexec, hfollow]
    rw [hnext]
    exact ⟨(h e.thread).other rfl rfl rfl rfl rfl rfl LocalState.clock_le_now,
      ⟨rfl, rfl, fun _ _ => rfl, fun _ _ => rfl, fun _ _ => rfl, fun _ _ => rfl, fun _ _ => rfl⟩⟩
  cases hop : e.op with
  | start arg =>
    obtain ⟨error, hne, herr⟩ | ⟨sample, threads, region, rfl, hf, hexec⟩ := exec_start h hpar hop
    · refine hfail error herr ?_
      rw [LocalState.follow, hop, herr]
      cases error <;> first | rfl | exact absurd rfl hne
    · have hfollow : s.follow e = s.watch.start e.thread (s.now e) region := by
        rw [LocalState.follow, hop, hexec]
        rfl
      rw [LocalState.next, hexec, hfollow]
      refine ⟨(hf.start region e.cpuid).threadTracks, ⟨rfl, rfl, fun u hu => ?_, fun u hu => ?_, fun _ _ => rfl,
        fun u hu => ?_, fun u hu => ?_⟩⟩ <;>
        simp [TalpInfo.setLocalRegions, Stopwatch.start, Stopwatch.advance, hu]
  | stop arg =>
    obtain ⟨error, hne, herr⟩ | ⟨sample, threads, entry, i, hf, hi, -, hexec⟩ := exec_stop h hpar hop
    · refine hfail error herr ?_
      rw [LocalState.follow, hop, herr]
      cases error <;> first | rfl | exact absurd rfl hne
    · have hfollow : s.follow e = s.watch.stop e.thread (s.now e) i.region := by
        rw [LocalState.follow, hop, hexec]
        dsimp only
        rw [hi]
      rw [LocalState.next, hexec, hfollow]
      refine ⟨(hf.stop i.region _ _).threadTracks, ⟨rfl, rfl, fun u hu => ?_, fun u hu => ?_, fun _ _ => rfl,
        fun u hu => ?_, fun u hu => ?_⟩⟩ <;>
        simp [TalpInfo.setLocalRegions, TalpInfo.talpAggregateSampleToRegion, TalpInfo.modifyMonitor, Stopwatch.stop,
          Stopwatch.advance, hu]
  | update =>
    obtain ⟨sample, threads, heq, hf⟩ := (h e.thread).update (r := s.readings e) (isProfiled_of_isParallel hpar)
      LocalState.clock_le_now
    have hexec : s.exec e = (s.talp.withSample e.thread sample threads, .success) := by
      rw [LocalState.exec, hop, ← heq]
    have hfollow : s.follow e = s.watch.advance e.thread (s.now e) := by rw [LocalState.follow, hop]
    rw [LocalState.next, hexec, hfollow]
    refine ⟨hf.threadTracks, ⟨rfl, rfl, fun u hu => ?_, fun _ _ => rfl, fun _ _ => rfl, fun u hu => ?_,
      fun u hu => ?_⟩⟩ <;> simp [Stopwatch.advance, hu]
  | change state =>
    obtain ⟨sample, threads, heq, hf⟩ := (h e.thread).update (r := s.readings e) (isProfiled_of_isParallel hpar)
      LocalState.clock_le_now
    have hexec : s.exec e = ((s.talp.withSample e.thread sample threads).talpSampleSetState e.thread (s.readings e)
        state, .success) := by rw [LocalState.exec, hop, ← heq]
    have hfollow : s.follow e = s.watch.change e.thread (s.now e) state := by rw [LocalState.follow, hop]
    have hset : (s.talp.withSample e.thread sample threads).talpSampleSetState e.thread (s.readings e) state =
        (s.talp.withSample e.thread sample threads).setSample e.thread { sample with state := state } := by
      rw [TalpInfo.talpSampleSetState, TalpInfo.talpSampleGet, hf.sample_eq]
    have hchange := hf.change (r := s.readings e) state
    rw [LocalState.next, hexec, hfollow]
    rw [hset] at hchange ⊢
    refine ⟨hchange.threadTracks, ⟨rfl, rfl, fun u hu => ?_, fun _ _ => rfl, fun u hu => ?_, fun u hu => ?_,
      fun u hu => ?_⟩⟩ <;> simp [TalpInfo.setSample, Stopwatch.change, Stopwatch.advance, hu]

theorem Tracks.next (h : Tracks s) (hpar : (s.talp.role e.thread).isParallel = true) : Tracks (s.next e) := by
  obtain ⟨hself, hframe⟩ := next_thread h hpar
  intro t
  by_cases ht : t = e.thread
  · exact ht ▸ hself
  · exact (h t).other (hframe.samples t ht) (hframe.localRegions t ht) hframe.generation (hframe.state t ht)
      (hframe.last t ht) (hframe.running t ht) LocalState.clock_le_now

theorem measuresInterval_iff (h : Tracks s) (hpar : (s.talp.role e.thread).isParallel = true) :
    s.MeasuresInterval e ↔ s.ClosesFromZero e := by
  refine forall_congr' fun arg => imp_congr_right fun hop => ?_
  obtain ⟨error, hne, herr⟩ | ⟨sample, threads, entry, i, hf, hi, htracks, hexec⟩ := exec_stop h hpar hop
  · rw [herr]
    exact iff_of_true (fun hok => absurd hok hne) fun hok => absurd hok hne
  · have hmon : (s.exec e).1.monitors i.region =
        TalpInfo.aggregateSample s.talp.numCpus
          { talpSampleDelta sample entry.snapshot with cpuMask := {entry.cpuid} }
          (sample.lastUpdatedTs - entry.snapshot.lastUpdatedTs) (s.talp.monitors i.region) := by
      rw [hexec]
      simp [TalpInfo.setLocalRegions, TalpInfo.talpAggregateSampleToRegion, TalpInfo.modifyMonitor]
    have hiff := htracks.addsInterval_iff hf.updated (s.talp.monitors i.region) s.talp.numCpus {entry.cpuid}
    rw [← hmon] at hiff
    rw [hi]
    constructor
    · intro hm hok
      obtain ⟨j, hj, hadd⟩ := hm hok
      cases hj
      exact ⟨i, rfl, hiff.mp hadd⟩
    · intro hc hok
      obtain ⟨j, hj, h0⟩ := hc hok
      cases hj
      exact ⟨i, rfl, hiff.mpr h0⟩

/-- The process at the beginning of a parallel construct: no thread has local regions. -/
def LocalState.begin (talp : TalpInfo τ ρ) (clock : ℤ) : LocalState τ ρ where
  talp := { talp with localRegions := fun _ => [] }
  clock := clock
  watch := { state := talp.stateOf, last := fun _ => clock, running := fun _ => [] }

omit [DecidableEq τ] [DecidableEq ρ] in
theorem tracks_begin (talp : TalpInfo τ ρ) (clock : ℤ) : Tracks (LocalState.begin talp clock) :=
  fun _ => ⟨rfl, .inl ⟨rfl, rfl⟩⟩

/-- **Local regions.** In every run of threads inside a parallel construct, the successful stops measure the intervals
that they close exactly when these were started when the clock was at zero. -/
theorem local_region_measures_iff (talp : TalpInfo τ ρ) (clock : ℤ) (events : List (LocalEvent τ ρ))
    (hpar : ∀ e ∈ events, (talp.role e.thread).isParallel = true) :
    Along LocalState.next LocalState.MeasuresInterval (LocalState.begin talp clock) events ↔
      Along LocalState.next LocalState.ClosesFromZero (LocalState.begin talp clock) events := by
  refine Along.congr (I := fun s => Tracks s ∧ s.talp.role = talp.role)
    (R := fun e => (talp.role e.thread).isParallel = true) ?_ ?_ _ events ⟨tracks_begin talp clock, rfl⟩ hpar
  · rintro s e ⟨htracks, hrole⟩ hpar -
    rw [← hrole] at hpar
    exact ⟨htracks.next hpar, (next_thread htracks hpar).2.role.trans hrole⟩
  · rintro s e ⟨htracks, hrole⟩ hpar
    rw [← hrole] at hpar
    exact measuresInterval_iff htracks hpar

end Runs

/-! ## One worker -/

/-- A worker thread, the global region `false` and another region. -/
def workerTalp : TalpInfo Unit Bool where
  numCpus := 2
  monitor := false
  monitors := fun _ => {}
  role := fun _ => .worker

/-- The worker starts the region and stops it three units later. -/
def startAndStop : List (LocalEvent Unit Bool) :=
  [{ thread := (), op := .start (.region true), delay := 0 }, { thread := (), op := .stop .lastOpen, delay := 3 }]

/-- When the clock is at zero, the stop measures the interval. -/
theorem measures_from_zero :
    Along LocalState.next LocalState.MeasuresInterval (LocalState.begin workerTalp 0) startAndStop := by
  refine (local_region_measures_iff workerTalp 0 startAndStop (by decide)).mpr ⟨?_, ?_, trivial⟩
  · intro arg hop
    cases hop
  · intro arg hop _
    cases hop
    exact ⟨_, rfl, rfl⟩

/-- When the clock is at 5, the stop adds 8 units of elapsed time for an interval of three. -/
theorem elapsed_from_zero :
    ¬ Along LocalState.next LocalState.MeasuresInterval (LocalState.begin workerTalp 5) startAndStop := by
  rintro ⟨-, hstop, -⟩
  obtain ⟨i, hi, hadd⟩ := hstop .lastOpen rfl (by decide)
  cases hi
  exact absurd hadd.elapsed (by decide)

end Dlb.Talp
