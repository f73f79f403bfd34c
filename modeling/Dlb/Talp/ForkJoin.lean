import Dlb.Talp.OpenMp
import Mathlib.Data.Fintype.Basic

/-!
# Fork-join runs

A process with OpenMP as the tool interface shows it: the main thread in sequential code, parallels with their teams,
which may be nested, and the events of each member in the order that the interface promises (`Ordered`). The events of
all threads are interleaved, and the clock goes on by any delay between two of them.

What each thread has given to each region is kept next to the process (`TimeLedger`): the load imbalance and the
scheduling, which the primary thread of a parallel writes into its own sample, are shared out to the members that have
waited.
-/

namespace Dlb.Talp

/-- `omptool_callback__implicit_task`, at the beginning of a task: the primary thread writes the size of the team. -/
def omptoolImplicitTaskBegin {τ ρ : Type*} [DecidableEq τ] (d : TalpInfo τ ρ) (t : τ) (e : Readings)
    (data : OmptoolParallelData τ) (actualParallelism index : ℕ) : TalpInfo τ ρ × OmptoolParallelData τ :=
  d.talpOpenmpIntoParallelFunction t e
    (if index = 0 then { data with actualParallelism := actualParallelism } else data) index

/-! ## The order of the events -/

/-- What a member of a parallel is doing: it executes code, which may be a task while it is in the implicit barrier; it
has begun an inner parallel; it waits in the implicit barrier; or its implicit task has ended. -/
inductive TaskPhase where
  | running (inBarrier : Bool)
  | forked (inBarrier : Bool)
  | waiting
  | ended
deriving DecidableEq

/-- The membership of a thread in a parallel; `saved` is the waiting time of the enclosing parallel that the primary
thread of an inner one has saved. -/
structure TaskFrame (π : Type*) where
  parallel : π
  level : ℕ
  index : ℕ
  phase : TaskPhase
  saved : ℤ := 0

def levelOf {π : Type*} : List (TaskFrame π) → ℕ
  | [] => 0
  | frame :: _ => frame.level

/-- A condition on a thread outside of parallels, or else on its membership in the innermost one. -/
def Innermost {π : Type*} (outside : Prop) (member : TaskFrame π → Prop) : List (TaskFrame π) → Prop
  | [] => outside
  | frame :: _ => member frame

instance {π : Type*} (outside : Prop) (member : TaskFrame π → Prop) [Decidable outside] [DecidablePred member] :
    DecidablePred (Innermost outside member)
  | [] => inferInstanceAs (Decidable outside)
  | frame :: _ => inferInstanceAs (Decidable (member frame))

/-- Changes the phase of a thread in its innermost parallel. -/
def mapPhase {π : Type*} (f : TaskPhase → TaskPhase) : List (TaskFrame π) → List (TaskFrame π)
  | [] => []
  | frame :: rest => { frame with phase := f frame.phase } :: rest

namespace TaskPhase

def fork : TaskPhase → TaskPhase
  | running inBarrier => forked inBarrier
  | phase => phase

def join : TaskPhase → TaskPhase
  | forked inBarrier => running inBarrier
  | phase => phase

/-- A thread that waits for the others, or that has left before them. -/
def IsOver (phase : TaskPhase) : Prop := phase = waiting ∨ phase = ended

instance : DecidablePred IsOver := fun phase => inferInstanceAs (Decidable (phase = waiting ∨ phase = ended))

end TaskPhase

/-- The events of a member of a parallel between the beginning of its implicit task and the end of the parallel. -/
inductive TaskOp where
  | intoSync | outofSync | taskCreate | taskComplete | taskSwitch | implicitBarrierBegin | implicitTaskEnd
deriving DecidableEq

namespace TaskOp

def Allowed (phase : TaskPhase) : TaskOp → Prop
  | intoSync | outofSync | taskCreate | taskComplete => ∃ inBarrier, phase = .running inBarrier
  | taskSwitch => (∃ inBarrier, phase = .running inBarrier) ∨ phase = .waiting
  | implicitBarrierBegin => phase = .running false
  | implicitTaskEnd => phase = .waiting

instance (phase : TaskPhase) : DecidablePred (Allowed phase)
  | intoSync | outofSync | taskCreate | taskComplete =>
    inferInstanceAs (Decidable (∃ inBarrier, phase = .running inBarrier))
  | taskSwitch => inferInstanceAs (Decidable ((∃ inBarrier, phase = .running inBarrier) ∨ phase = .waiting))
  | implicitBarrierBegin => inferInstanceAs (Decidable (phase = .running false))
  | implicitTaskEnd => inferInstanceAs (Decidable (phase = .waiting))

/-- The phase after an event; a task that is complete leaves its thread in the barrier where it was. -/
def next (phase : TaskPhase) : TaskOp → TaskPhase
  | intoSync | outofSync | taskCreate => phase
  | taskComplete => if phase = .running true then .waiting else phase
  | taskSwitch => if phase = .waiting then .running true else phase
  | implicitBarrierBegin => .waiting
  | implicitTaskEnd => .ended

def exec {τ ρ : Type*} [DecidableEq τ] (d : TalpInfo τ ρ) (t : τ) (e : Readings) : TaskOp → TalpInfo τ ρ
  | intoSync => d.talpOpenmpIntoParallelSync t e
  | outofSync => d.talpOpenmpOutofParallelSync t e
  | taskCreate => d.talpOpenmpTaskCreate t
  | taskComplete => d.talpOpenmpTaskComplete t e
  | taskSwitch => d.talpOpenmpTaskSwitch t e
  | implicitBarrierBegin => d.talpOpenmpIntoParallelImplicitBarrier t e
  | implicitTaskEnd => d.talpOpenmpOutofParallelFunction t e

end TaskOp

/-- The events of the process. A parallel is named by the pointer to its data. -/
inductive ForkJoinOp (τ ρ π : Type*) where
  | openmpInit
  | sequential (op : SequentialOp ρ)
  | threadBegin (t : τ)
  | parallelBegin (t : τ) (p : π) (requested actual : ℕ)
  | implicitTaskBegin (t : τ) (p : π) (index : ℕ)
  | task (t : τ) (op : TaskOp)
  | parallelEnd (t : τ)

/-- An event, after the clock has gone on for `delay`, with what its calls read. -/
structure ForkJoinEvent (τ ρ π : Type*) where
  op : ForkJoinOp τ ρ π
  delay : ℕ
  cpuid : ℕ := 0
  hwc : Option HwCounters := none
  gpuMask : Finset ℕ := ∅
  gpuTimers : ℕ → GpuTimers := fun _ => {}

/-- A parallel between its begin and its end, with the size of its team. -/
structure ActiveParallel (τ : Type*) where
  data : OmptoolParallelData τ
  primary : τ
  size : ℕ

/-! ## The ledger -/

/-- The time in a sample, without what it has waited in the parallels. -/
def SampleTimers.own (timers : SampleTimers) : ℤ :=
  timers.useful + timers.notUsefulMpi + timers.notUsefulOmpOut + timers.notUsefulGpu

/-- The time that each thread has waited in the parallels since the last aggregation, which the samples of their
primary threads hold as load imbalance and scheduling; and the time of each thread that each region has received. -/
structure TimeLedger (τ ρ : Type*) where
  share : τ → ℤ := fun _ => 0
  account : τ → ρ → ℤ := fun _ _ => 0

section Ledger

variable {τ ρ : Type*} [DecidableEq τ] [DecidableEq ρ]

/-- What the sample of another thread adds to the macrosample at the time `now`, without its load imbalance and
scheduling. -/
def Sample.charge (sample : Sample) (currentGenerationTs now : ℤ) : ℤ :=
  (if sample.state = .notUsefulOmpIn ∨ sample.state = .notUsefulOmpOut then
    min (now - currentGenerationTs) (now - sample.lastParallelEndTs) else 0) +
  if sample.generationTs < currentGenerationTs then 0 else sample.timers.own

/-- What a thread adds to the macrosample, without load imbalance and scheduling. -/
def TalpInfo.charge (d : TalpInfo τ ρ) (main u : τ) : ℤ :=
  match d.samples u with
  | none => 0
  | some sample =>
    if u = main then sample.timers.own else sample.charge d.currentGenerationTs (d.lastUpdatedTs main)

variable (k : TimeLedger τ ρ) (main : τ) (d : TalpInfo τ ρ)

namespace TimeLedger

/-- The samples are aggregated into the open regions. -/
def flush : TimeLedger τ ρ where
  share := fun _ => 0
  account := fun u r => if r ∈ d.openRegions then k.account u r + (d.charge main u + k.share u) else k.account u r

def reset (r : ρ) : TimeLedger τ ρ := { k with account := fun u r' => if r' = r then 0 else k.account u r' }

/-- A thread gets its sample: all it has given is the correction of the open regions. -/
def enroll (t : τ) (e : Readings) : TimeLedger τ ρ :=
  { k with
    account := fun u r =>
      if u = t then if r ∈ d.openRegions.tail then d.initialTs e - (d.monitors r).startTime else 0
      else k.account u r }

def shareOut (members : List τ) (now : ℤ) : TimeLedger τ ρ :=
  { k with
    share := fun u => k.share u + if u ∈ members then ((d.samples u).map (·.waited now)).getD 0 else 0 }

end TimeLedger

/-- The region that `region_start` is called for. -/
def TalpInfo.startTarget : RegionArg ρ → Option ρ
  | .global => some d.monitor
  | .region r => some r
  | .lastOpen => none

/-- The region that `region_stop` is called for. -/
def TalpInfo.stopTarget : RegionArg ρ → Option ρ
  | .global => some d.monitor
  | .region r => some r
  | .lastOpen => d.openRegions.head?

namespace SequentialOp

/-- What an operation of the main thread in sequential code does to the process. -/
def exec (e : Readings) : SequentialOp ρ → TalpInfo τ ρ
  | update => d.talpSampleUpdate main e
  | change state => (d.talpSampleUpdate main e).talpSampleSetState main e state.toSampleState
  | aggregate => (d.talpAggregateSamplesToRegions main e).1
  | start arg => (d.regionStart main e arg).1
  | stop arg => (d.regionStop main e arg).1
  | reset monitor => (d.regionReset monitor).1

/-- What it does to the ledger: a start and a stop that are not refused aggregate the samples. -/
def follow (e : Readings) : SequentialOp ρ → TimeLedger τ ρ
  | update | change _ => k
  | aggregate => k.flush main d
  | start arg =>
    match d.startTarget arg with
    | some r =>
      if ¬ (d.monitors r).data.started ∧ (d.monitors r).data.enabled then k.flush main (d.talpSampleUpdate main e)
      else k
    | none => k
  | stop arg =>
    match d.stopTarget arg with
    | some r => if (d.monitors r).data.started then k.flush main (d.talpSampleUpdate main e) else k
    | none => k
  | reset monitor => k.reset (monitor.getD d.monitor)

end SequentialOp

end Ledger

/-! ## Runs -/

/-- The process, the clock, the static storage of the first level, the parallels, the parallels that each thread is a
member of, the innermost first, and the ledger. -/
structure ForkJoinState (τ ρ π : Type*) where
  talp : TalpInfo τ ρ
  clock : ℤ
  talpParallelDataL1 : TalpParallelData τ := {}
  parallels : π → Option (ActiveParallel τ) := fun _ => none
  stack : τ → List (TaskFrame π) := fun _ => []
  ledger : TimeLedger τ ρ := {}

namespace ForkJoinState

variable {τ ρ π : Type*} [DecidableEq τ] [DecidableEq ρ] [DecidableEq π]
variable (main : τ) (s : ForkJoinState τ ρ π) (e : ForkJoinEvent τ ρ π)

def now : ℤ := s.clock + e.delay

def readings : Readings :=
  { created := s.now e, now := s.now e, cpuid := e.cpuid, hwc := e.hwc, gpuMask := e.gpuMask, gpuTimers := e.gpuTimers }

def IsSequential : Prop := ∀ p, s.parallels p = none

/-- The order of the events. A thread begins its implicit task as the primary of the parallel that it has just begun,
or, if it is idle, with a free index of any parallel. A parallel ends when all its members have begun their implicit
tasks and are in the implicit barrier, with no task to execute, and a parallel of the first level when no inner one is
left. A worker may end its implicit task from the implicit barrier on, also when the parallel has ended. -/
def Allows : ForkJoinOp τ ρ π → Prop
  | .openmpInit => s.IsSequential
  | .sequential _ => s.IsSequential
  | .threadBegin _ => s.talp.flags.haveOpenmp = true
  | .parallelBegin t p requested actual =>
    s.talp.flags.haveOpenmp = true ∧ 1 ≤ actual ∧ actual ≤ requested ∧ s.parallels p = none ∧
      Innermost (t = main ∧ s.IsSequential) (fun frame => ∃ inBarrier, frame.phase = .running inBarrier) (s.stack t)
  | .implicitTaskBegin t p index =>
    t ∈ s.talp.threads ∧ (∀ u, ∀ frame ∈ s.stack u, frame.parallel = p → frame.index ≠ index) ∧
      ∃ parallel ∈ s.parallels p, index < parallel.size ∧
        if index = 0 then
          t = parallel.primary ∧ parallel.data.level = levelOf (s.stack t) + 1 ∧
            Innermost (t = main) (fun frame => ∃ inBarrier, frame.phase = .forked inBarrier) (s.stack t)
        else t ≠ main ∧ s.stack t = []
  | .task t op =>
    Innermost (op = .implicitTaskEnd ∧ t ≠ main ∧ t ∈ s.talp.threads)
      (fun frame => op.Allowed frame.phase ∧ (op = .implicitTaskEnd → frame.index ≠ 0)) (s.stack t)
  | .parallelEnd t =>
    Innermost False (fun frame =>
      frame.index = 0 ∧ ∃ parallel ∈ s.parallels frame.parallel,
        (∀ index < parallel.size, ∃ u, Innermost False (fun member =>
          member.parallel = frame.parallel ∧ member.index = index ∧ member.phase.IsOver) (s.stack u)) ∧
        (parallel.data.level = 1 → ∀ q, q ≠ frame.parallel → s.parallels q = none)) (s.stack t)

def Ordered : Prop := s.Allows main e.op

section Decidable

variable [Fintype τ] [Fintype π]

instance : Decidable s.IsSequential := inferInstanceAs (Decidable (∀ p, s.parallels p = none))

instance : DecidablePred (s.Allows main)
  | .openmpInit => inferInstanceAs (Decidable s.IsSequential)
  | .sequential _ => inferInstanceAs (Decidable s.IsSequential)
  | .threadBegin _ => inferInstanceAs (Decidable (s.talp.flags.haveOpenmp = true))
  | .parallelBegin _ _ _ _ => show Decidable (_ ∧ _) from inferInstance
  | .implicitTaskBegin _ _ _ => show Decidable (_ ∧ _) from inferInstance
  | .task _ _ => show Decidable (Innermost _ _ _) from inferInstance
  | .parallelEnd _ => show Decidable (Innermost _ _ _) from inferInstance

instance : Decidable (s.Ordered main e) := inferInstanceAs (Decidable (s.Allows main e.op))

end Decidable

def beginParallel (t : τ) (p : π) (requested actual : ℕ) : ForkJoinState τ ρ π :=
  let begun := s.talp.talpOpenmpParallelBegin t s.talpParallelDataL1
    { level := levelOf (s.stack t) + 1, requestedParallelism := requested }
  { s with
    talp := begun.1
    parallels := Function.update s.parallels p (some { data := begun.2, primary := t, size := actual })
    stack := Function.update s.stack t (mapPhase TaskPhase.fork (s.stack t)) }

/-- A member of a parallel begins its implicit task. -/
def beginTask (t : τ) (p : π) (index : ℕ) (parallel : ActiveParallel τ) : ForkJoinState τ ρ π :=
  let begun := omptoolImplicitTaskBegin s.talp t (s.readings e) parallel.data parallel.size index
  { s with
    talp := begun.1
    parallels := Function.update s.parallels p (some { parallel with data := begun.2 })
    stack := Function.update s.stack t
      ({ parallel := p
         level := parallel.data.level
         index := index
         phase := .running false
         saved :=
          if index = 0 ∧ 1 < parallel.data.level then begun.2.talpParallelData.previousNotUsefulOmpIn else 0 } ::
        s.stack t) }

/-- A parallel ends, and all its members leave it. -/
def endParallel (t : τ) (p : π) (parallel : ActiveParallel τ) : ForkJoinState τ ρ π :=
  { s with
    talp := s.talp.talpOpenmpParallelEnd t (s.readings e) parallel.data
    talpParallelDataL1 := if parallel.data.level = 1 then parallel.data.talpParallelData else s.talpParallelDataL1
    parallels := Function.update s.parallels p none
    stack := fun u =>
      match s.stack u with
      | [] => []
      | member :: more => if member.parallel = p then mapPhase TaskPhase.join more else member :: more
    ledger :=
      s.ledger.shareOut (s.talp.talpSampleUpdate t (s.readings e)) parallel.data.members (s.now e) }

def exec : ForkJoinState τ ρ π :=
  match e.op with
  | .openmpInit =>
    -- the start of the global region is after the flag has been set
    let d := { s.talp with flags := { s.talp.flags with haveOpenmp := true } }
    { s with
      talp := s.talp.talpOpenmpInit main (s.readings e)
      ledger := SequentialOp.follow s.ledger main d (s.readings e) (.start .global) }
  | .sequential op =>
    { s with
      talp := op.exec main s.talp (s.readings e)
      ledger := op.follow s.ledger main s.talp (s.readings e) }
  | .threadBegin t =>
    { s with
      talp := s.talp.talpOpenmpThreadBegin t (s.readings e)
      ledger := if s.talp.samples t = none then s.ledger.enroll s.talp t (s.readings e) else s.ledger }
  | .parallelBegin t p requested actual => s.beginParallel t p requested actual
  | .implicitTaskBegin t p index =>
    match s.parallels p with
    | some parallel => s.beginTask e t p index parallel
    | none => s
  | .task t op =>
    { s with
      talp := op.exec s.talp t (s.readings e)
      stack := Function.update s.stack t (mapPhase op.next (s.stack t)) }
  | .parallelEnd t =>
    match s.stack t with
    | [] => s
    | frame :: _ =>
      match s.parallels frame.parallel with
      | some parallel => s.endParallel e t frame.parallel parallel
      | none => s

def next : ForkJoinState τ ρ π := { s.exec main e with clock := s.now e }

/-- After `talp_init`. -/
def init (numCpus : ℕ) (haveHwc haveGpu : Bool) (global : ρ) (enabled : ρ → Bool) (clock : ℤ) (cpuid : ℕ) :
    ForkJoinState τ ρ π :=
  let talp := TalpInfo.talpInit numCpus haveHwc main global enabled { created := clock, now := clock, cpuid := cpuid }
  { talp := { talp with flags := { talp.flags with haveGpu := haveGpu } }
    clock := clock }

end ForkJoinState

end Dlb.Talp
