import Dlb.Talp.Cupti
import Dlb.Talp.RocprofilerSdk

/-!
# The activities of the GPUs in the collect calls

Over whole runs of the two backends, with collect calls that may overlap. CUPTI's timestamp is taken before the flush, that of
rocprofiler-sdk after it: the first loses no activity but may count time twice, the second counts no time twice but may lose
activities.

* `activities_counted`, `activity_lost`: every activity counts in one collect call, with rocprofiler-sdk if no one that
  still has to be delivered has started between the flush and the timestamp;
* `time_counted_once`, `time_counted_twice`: no time of a device counts in two collect calls, with CUPTI if no activity that
  still has to be processed overlaps with one that a call reads.
-/

namespace Dlb.Talp

open Lib

variable {α κ : Type*} [DecidableEq α] [DecidableEq κ]

/-- **Every activity counts once**, unless it was in progress when a collect call began. -/
theorem activities_counted :
    (∀ (g : CuptiTrace α) (now : ℕ) (events : List (CuptiEvent α κ)),
      Along (fun s e => s.next g e) (fun s e => s.Allowed g e) (Cupti.init now) events →
        Along (fun s e => s.next g e) (fun s e => (s.next g e).gpus.Counted g.trace) (Cupti.init now) events) ∧
    (∀ (g : RocprofilerTrace α) (now : ℕ) (events : List (RocprofilerEvent α κ)),
      Along (fun s e => s.next g e) (fun s e => s.Allowed g e) (Rocprofiler.init α κ now) events →
      Along (fun s e => s.next g e) (fun s e => s.InTime g e) (Rocprofiler.init α κ now) events →
        Along (fun s e => s.next g e) (fun s e => (s.next g e).gpus.Counted g.trace) (Rocprofiler.init α κ now) events) := by
  refine ⟨fun g now events hallowed => ?_, fun g now events hallowed htime => ?_⟩
  · have hnext : ∀ (s : Cupti α κ) e, s.Sound g → s.Allowed g e → (s.next g e).Sound g := fun _ _ hs he => hs.next he
    exact (Along.invariant_of (Q := fun s e => s.Allowed g e) (fun s e hs ha _ => hnext s e hs ha)
      (fun s e hs ha _ => (hnext s e hs ha).counts.counted) _ events (Cupti.Sound.init g now) hallowed hallowed).1
  · have hnext : ∀ (s : Rocprofiler α κ) e, s.Sound g ∧ s.gpus.Counts g.trace → s.Allowed g e → s.InTime g e →
        (s.next g e).Sound g ∧ (s.next g e).gpus.Counts g.trace := fun _ _ hs ha ht =>
      ⟨hs.1.next ha, hs.1.counts hs.2 ha ht⟩
    exact (Along.invariant_of (fun s e hs ha ht => hnext s e hs ha ht) (fun s e hs ha ht => (hnext s e hs ha ht).2.counted)
      _ events ⟨Rocprofiler.Sound.init g now, Gpus.Counts.init now⟩ hallowed htime).1

/-! ### One activity -/

def oneKernel (start finish : ℕ) : CuptiRecord := { kind := .concurrentKernel, record := ⟨start, finish⟩, deviceId := 0 }

def oneCuda {α : Type} (record : α → CuptiRecord) : CuptiTrace α where
  record := record
  numDevices := 1
  capacity := maxLocalGpus
  qsort := insertionQsort

def oneRocm {α : Type} (start finish : α → ℕ) : RocprofilerTrace α where
  record a := .kernelDispatch ⟨start a, finish a⟩ 7
  deviceInfo := [7]
  capacity := maxLocalGpus
  qsort := insertionQsort

/-- A collect call of CUPTI, with one record to process that CUPTI writes during the flush. -/
def cuptiCollect {α κ : Type} (c : κ) (a : α) : List (CuptiEvent α κ) :=
  [.collect c, .collect c, .bufferRequested, .write 0 a, .bufferCompleted 0, .collect c, .collect c, .nextRecord, .unlock,
    .collect c, .collect c]

/-- An activity that has ended when a call begins. -/
theorem activities_counted_kernel :
    Along (fun s e => s.next (oneCuda fun _ => oneKernel 0 1) e)
      (fun s e => (s.next (oneCuda fun _ => oneKernel 0 1) e).gpus.Counted (oneCuda fun _ => oneKernel 0 1).trace)
      (Cupti.init 0) ([.start (), .tick, .finish ()] ++ cuptiCollect () ()) ∧
    Along (fun s e => s.next (oneRocm (fun _ => 0) fun _ => 1) e)
      (fun s e => (s.next (oneRocm (fun _ => 0) fun _ => 1) e).gpus.Counted (oneRocm (fun _ => 0) fun _ => 1).trace)
      (Rocprofiler.init Unit Unit 0)
      [.start (), .tick, .finish (), .collect (), .deliver (), .collect (), .collect ()] :=
  ⟨activities_counted.1 _ 0 _ (by decide), activities_counted.2 _ 0 _ (by decide) (by decide)⟩

/-- **An activity gets lost** with rocprofiler-sdk: it starts and ends between the flush of the first call and its timestamp,
and the second call, which begins after its end, gets its record and drops it. -/
theorem activity_lost :
    let g : RocprofilerTrace Unit := oneRocm (fun _ => 1) fun _ => 2
    let run : List (RocprofilerEvent Unit Bool) := [.collect false, .collect false, .tick, .start (), .tick, .finish (),
      .tick, .collect false, .collect true, .deliver (), .collect true, .collect true]
    Along (fun s e => s.next g e) (fun s e => s.Allowed g e) (Rocprofiler.init Unit Bool 0) run ∧
      ¬(run.foldl (fun s e => s.next g e) (Rocprofiler.init Unit Bool 0)).gpus.Counted g.trace := by
  intro g run
  refine ⟨by decide, fun h => ?_⟩
  have hcounted := (h () (by decide) (by decide) (.kernel, 0) (by decide) (by decide)).2 true
    (by decide) (by decide)
  exact absurd hcounted (by decide)

/-- **No time counts twice.** -/
theorem time_counted_once :
    (∀ (g : CuptiTrace α) (now : ℕ) (events : List (CuptiEvent α κ)),
      Along (fun s e => s.next g e) (fun s e => s.Allowed g e) (Cupti.init now) events →
      Along (fun s e => s.next g e) (fun s e => s.Clear g e) (Cupti.init now) events →
        Along (fun s e => s.next g e) (fun s e => (s.next g e).gpus.CountedOnce g.trace) (Cupti.init now) events) ∧
    (∀ (g : RocprofilerTrace α) (now : ℕ) (events : List (RocprofilerEvent α κ)),
      Along (fun s e => s.next g e) (fun s e => s.Allowed g e) (Rocprofiler.init α κ now) events →
        Along (fun s e => s.next g e) (fun s e => (s.next g e).gpus.CountedOnce g.trace) (Rocprofiler.init α κ now)
          events) := by
  refine ⟨fun g now events hallowed hclear => ?_, fun g now events hallowed => ?_⟩
  · have hnext : ∀ (s : Cupti α κ) e, s.Sound g ∧ s.gpus.Once g.trace → s.Allowed g e → s.Clear g e →
        (s.next g e).Sound g ∧ (s.next g e).gpus.Once g.trace := fun _ _ hs ha hc => ⟨hs.1.next ha, hs.1.once hs.2 ha hc⟩
    exact (Along.invariant_of (fun s e hs ha hc => hnext s e hs ha hc)
      (fun s e hs ha hc => (hnext s e hs ha hc).2.countedOnce (hnext s e hs ha hc).1.recorded)
      _ events ⟨Cupti.Sound.init g now, Gpus.Once.init now⟩ hallowed hclear).1
  · have hnext : ∀ (s : Rocprofiler α κ) e, s.Sound g ∧ s.gpus.Once g.trace → s.Allowed g e →
        (s.next g e).Sound g ∧ (s.next g e).gpus.Once g.trace := fun _ _ hs ha => ⟨hs.1.next ha, hs.1.once hs.2 ha⟩
    exact (Along.invariant_of (Q := fun s e => s.Allowed g e) (fun s e hs ha _ => hnext s e hs ha)
      (fun s e hs ha _ => (hnext s e hs ha).2.countedOnce (hnext s e hs ha).1.recorded)
      _ events ⟨Rocprofiler.Sound.init g now, Gpus.Once.init now⟩ hallowed hallowed).1

/-! ### Two kernels -/

/-- An activity that has ended when a call begins. -/
theorem time_counted_once_kernel :
    Along (fun s e => s.next (oneCuda fun _ => oneKernel 0 1) e)
      (fun s e => (s.next (oneCuda fun _ => oneKernel 0 1) e).gpus.CountedOnce (oneCuda fun _ => oneKernel 0 1).trace)
      (Cupti.init 0) ([.start (), .tick, .finish ()] ++ cuptiCollect () ()) ∧
    Along (fun s e => s.next (oneRocm (fun _ => 0) fun _ => 1) e)
      (fun s e => (s.next (oneRocm (fun _ => 0) fun _ => 1) e).gpus.CountedOnce (oneRocm (fun _ => 0) fun _ => 1).trace)
      (Rocprofiler.init Unit Unit 0)
      [.start (), .tick, .finish (), .collect (), .deliver (), .collect (), .collect ()] :=
  ⟨time_counted_once.1 _ 0 _ (by decide)
      (Along.mono (fun _ _ => Cupti.clear_of_drained) _ _ (by decide)),
    time_counted_once.2 _ 0 _ (by decide)⟩

/-- **Time counts twice** with CUPTI: the first call takes its timestamp at 0; the kernel from 1 to 3 ends before the flush,
and counts; the kernel from 2 to 5 counts in the second call. Five units of time are reported between 1 and 5. -/
theorem time_counted_twice :
    let g : CuptiTrace Bool := oneCuda fun a => if a then oneKernel 2 5 else oneKernel 1 3
    let run : List (CuptiEvent Bool Bool) := [.collect false, .tick, .start false, .tick, .start true, .tick, .finish false] ++
      (cuptiCollect false false).tail ++ [.tick, .tick, .finish true] ++ cuptiCollect true true
    Along (fun s e => s.next g e) (fun s e => s.Allowed g e) (Cupti.init 0) run ∧
      ¬(run.foldl (fun s e => s.next g e) (Cupti.init 0)).gpus.CountedOnce g.trace := by
  intro g run
  refine ⟨by decide, fun h => ?_⟩
  have hsum := (h 0).2 Finset.univ 1 5 (by decide) (by decide)
  exact absurd hsum (by decide)

end Dlb.Talp
