import Dlb.Lib.Run
import Dlb.Talp.GpuCollect

/-!
# The rocprofiler-sdk backend

The profiling library calls `async_events_callback` with records, which are copied to the local buffers at once. A collect
call flushes first; then, with `buffer_mutex` locked, it takes the timestamp, sets `safe_timestamp` to it and reads the local
buffers. An activity that starts after the call has begun, and ends before the timestamp, need not have been delivered by
the flush: then its record is older than the timestamp when it arrives.

* `Flushed`: a call that has flushed has all activities copied that had ended before it;
* `Flushed.guard`, `clear`: each step of a call is one of the common part and meets its guard, and what is read
  is clear of all activities still to come.
-/

namespace Dlb.Talp

open Function Lib

/-! ## The records -/

inductive MemoryCopyOperation where
  | hostToDevice
  | deviceToDevice
  | deviceToHost
  | other
deriving DecidableEq

/-- The records that `async_events_callback` gets, with the handles of their agents. -/
inductive RocprofilerRecord where
  | kernelDispatch (record : GpuRecord) (agent : ℕ)
  | memoryCopy (record : GpuRecord) (operation : MemoryCopyOperation) (dstAgent srcAgent : ℕ)
  | other (record : GpuRecord)

def RocprofilerRecord.record : RocprofilerRecord → GpuRecord
  | .kernelDispatch record _ => record
  | .memoryCopy record _ _ _ => record
  | .other record => record

/-- `agent_to_gpu_index`, with the handles of `device_info`; `none` is -1. -/
def agentToGpuIndex (deviceInfo : List ℕ) (agent : ℕ) : Option ℕ := deviceInfo.findIdx? (· = agent)

/-- The local buffers that a record is copied to. -/
def RocprofilerRecord.slots (deviceInfo : List ℕ) : RocprofilerRecord → List (BufferKind × ℕ)
  | .kernelDispatch _ agent => (agentToGpuIndex deviceInfo agent).toList.map fun id => (.kernel, id)
  | .memoryCopy _ operation dstAgent srcAgent =>
    let dstId := if operation = .hostToDevice ∨ operation = .deviceToDevice then agentToGpuIndex deviceInfo dstAgent
      else none
    let srcId := if operation = .deviceToHost ∨ operation = .deviceToDevice then agentToGpuIndex deviceInfo srcAgent
      else none
    (dstId.toList ++ srcId.toList).map fun id => (.memory, id)
  | .other _ => []

/-- The activities, as the profiling library describes them. -/
structure RocprofilerTrace (α : Type*) where
  record : α → RocprofilerRecord
  deviceInfo : List ℕ
  capacity : ℕ
  qsort : Qsort

def RocprofilerTrace.trace {α : Type*} (g : RocprofilerTrace α) : GpuTrace α where
  activity a := { record := (g.record a).record, slots := (g.record a).slots g.deviceInfo }
  numDevices := g.deviceInfo.length
  capacity := g.capacity
  qsort := g.qsort

/-! ## The backend -/

/-- Where a collect call is in `rocprofiler_sdk_backend_collect`. -/
inductive RocprofilerPhase where
  | idle
  | flushing
  | flushed
  | done
deriving DecidableEq

def RocprofilerPhase.call : RocprofilerPhase → CallPhase
  | .idle => .idle
  | .done => .done
  | _ => .entered

structure Rocprofiler (α κ : Type*) where
  gpus : Gpus α κ
  phase : κ → RocprofilerPhase := fun _ => .idle

/-- An activity begins or ends, its record is delivered to `async_events_callback`, or a collect call goes on. -/
inductive RocprofilerEvent (α κ : Type*) where
  | tick
  | start (a : α)
  | finish (a : α)
  | deliver (a : α)
  | collect (c : κ)

namespace Rocprofiler

variable {α κ : Type*}

section Code

variable [DecidableEq α] [DecidableEq κ] (s : Rocprofiler α κ) (g : RocprofilerTrace α)

def init (α κ : Type*) (now : ℕ) : Rocprofiler α κ where
  gpus := Gpus.init now

/-- `rocprofiler_sdk_backend_collect`, one step: the flush begins, returns, and `buffer_mutex` is held from the timestamp to
the end of the loop. -/
def collect (c : κ) : Rocprofiler α κ :=
  match s.phase c with
  | .idle => { gpus := s.gpus.enter c, phase := update s.phase c .flushing }
  | .flushing => { s with phase := update s.phase c .flushed }
  | .flushed =>
    { gpus := (s.gpus.advance c s.gpus.now).read g.trace c
      phase := update s.phase c .done }
  | .done => s

def next : RocprofilerEvent α κ → Rocprofiler α κ
  | .tick => { s with gpus := s.gpus.next g.trace .tick }
  | .start a => { s with gpus := s.gpus.next g.trace (.start a) }
  | .finish a => { s with gpus := s.gpus.next g.trace (.finish a) }
  | .deliver a => { s with gpus := s.gpus.copyRecord g.trace a }
  | .collect c => s.collect g c

end Code

section Runs

variable (s : Rocprofiler α κ) (g : RocprofilerTrace α)

/-- What the profiling library guarantees: the record of an activity is delivered once, after its end; a flush returns when
all activities that had ended before it are delivered. -/
def Allowed : RocprofilerEvent α κ → Prop
  | .tick => True
  | .start a => s.gpus.Guard g.trace (.start a)
  | .finish a => s.gpus.Guard g.trace (.finish a)
  | .deliver a => s.gpus.Guard g.trace (.copy a)
  | .collect c =>
    match s.phase c with
    | .flushing => ∀ a, (s.gpus.call c).before a → s.gpus.processed a
    | .done => False
    | _ => True

instance [Fintype α] : ∀ e, Decidable (s.Allowed g e)
  | .tick => inferInstanceAs (Decidable True)
  | .start a => inferInstanceAs (Decidable (s.gpus.Guard g.trace (.start a)))
  | .finish a => inferInstanceAs (Decidable (s.gpus.Guard g.trace (.finish a)))
  | .deliver a => inferInstanceAs (Decidable (s.gpus.Guard g.trace (.copy a)))
  | .collect c =>
    decidable_of_iff ((s.phase c = .flushing → ∀ a, (s.gpus.call c).before a → s.gpus.processed a) ∧ s.phase c ≠ .done)
      (by unfold Allowed; dsimp only; cases s.phase c <;> simp)

/-- When a call takes its timestamp, every activity that counts and has started before it has been delivered, if it was not
in progress when a call began. -/
def InTime : RocprofilerEvent α κ → Prop
  | .collect c =>
    s.phase c = .flushed → ∀ a, g.trace.Wanted a → s.gpus.begun a → s.gpus.straddled a = false →
      (g.trace.record a).start < s.gpus.now → s.gpus.processed a
  | _ => True

instance [Fintype α] : ∀ e, Decidable (s.InTime g e)
  | .tick => inferInstanceAs (Decidable True)
  | .start _ => inferInstanceAs (Decidable True)
  | .finish _ => inferInstanceAs (Decidable True)
  | .deliver _ => inferInstanceAs (Decidable True)
  | .collect c => inferInstanceAs (Decidable (s.phase c = .flushed → ∀ a, g.trace.Wanted a → s.gpus.begun a →
      s.gpus.straddled a = false → (g.trace.record a).start < s.gpus.now → s.gpus.processed a))

/-- The steps of the common part that a step is. -/
def gpuEvents : RocprofilerEvent α κ → List (GpuEvent α κ)
  | .tick => [.tick]
  | .start a => [.start a]
  | .finish a => [.finish a]
  | .deliver a => [.copy a]
  | .collect c =>
    match s.phase c with
    | .idle => [.enter c]
    | .flushing => []
    | .flushed => [.advance c s.gpus.now, .read c]
    | .done => []

end Runs

/-! ## What every run keeps -/

variable [DecidableEq α] [DecidableEq κ] {g : RocprofilerTrace α} {s : Rocprofiler α κ} {e : RocprofilerEvent α κ}
  {c : κ}

theorem next_gpus : (s.next g e).gpus = (s.gpuEvents e).foldl (Gpus.next g.trace) s.gpus := by
  cases e with
  | tick | start | finish | deliver => rfl
  | collect c =>
    show (s.collect g c).gpus = _
    unfold collect gpuEvents
    dsimp only
    cases s.phase c <;> rfl

/-- A call that has flushed has all activities copied that had ended before it. -/
structure Flushed (s : Rocprofiler α κ) : Prop where
  phase_eq : ∀ c, (s.gpus.call c).phase = (s.phase c).call
  processed : ∀ c, s.phase c = .flushed → ∀ a, (s.gpus.call c).before a → s.gpus.processed a

omit [DecidableEq α] [DecidableEq κ] in
theorem Flushed.init (now : ℕ) : (init α κ now).Flushed where
  phase_eq _ := rfl
  processed _ h := nomatch h

omit [DecidableEq α] in
theorem Flushed.of_phase (h : s.Flushed) {gpus : Gpus α κ} {phase : RocprofilerPhase}
    (hprocessed : gpus.processed = s.gpus.processed)
    (hothers : ∀ c' ≠ c, gpus.call c' = s.gpus.call c') (hphase : (gpus.call c).phase = phase.call)
    (hflushed : phase = .flushed → ∀ a, (gpus.call c).before a → s.gpus.processed a) :
    ({ gpus := gpus, phase := update s.phase c phase } : Rocprofiler α κ).Flushed where
  phase_eq := (Function.forall_update_iff s.phase fun c phase => (gpus.call c).phase = phase.call).mpr
    ⟨hphase, fun c' hc => (congrArg CollectCall.phase (hothers c' hc)).trans (h.phase_eq c')⟩
  processed := (Function.forall_update_iff s.phase fun c phase => phase = .flushed → ∀ a, (gpus.call c).before a →
      gpus.processed a).mpr
    ⟨fun hc => hprocessed ▸ hflushed hc, fun c' hc => by
      rw [hothers c' hc, hprocessed]
      exact h.processed c'⟩

theorem Flushed.next (h : s.Flushed) (hallowed : s.Allowed g e) : (s.next g e).Flushed := by
  cases e with
  | tick | start | finish => exact ⟨h.phase_eq, h.processed⟩
  | deliver a => exact ⟨h.phase_eq, fun c hc b hb => Gpus.update_true.mpr (.inr (h.processed c hc b hb))⟩
  | collect c =>
    have hphase := h.phase_eq c
    unfold Allowed at hallowed
    show (s.collect g c).Flushed
    unfold collect
    dsimp only at hallowed
    cases hc : s.phase c with
    | idle =>
      refine h.of_phase rfl (fun c' hne => update_of_ne hne _ _) ?_ nofun
      exact congrArg CollectCall.phase (update_self c _ s.gpus.call)
    | flushing =>
      rw [hc] at hallowed
      exact h.of_phase rfl (fun _ _ => rfl) (hphase.trans (hc ▸ rfl)) fun _ => hallowed
    | flushed =>
      refine h.of_phase rfl (fun c' hne => ?_) ?_ nofun
      · exact (update_of_ne hne _ _).trans (update_of_ne hne _ _)
      · exact congrArg CollectCall.phase (update_self c _ (s.gpus.advance c s.gpus.now).call)
    | done => exact h

theorem Flushed.guard (h : s.Flushed) (hallowed : s.Allowed g e) :
    Along (Gpus.next g.trace) (fun s e => s.Guard g.trace e) s.gpus (s.gpuEvents e) := by
  cases e with
  | tick => exact ⟨trivial, trivial⟩
  | start | finish | deliver => exact ⟨hallowed, trivial⟩
  | collect c =>
    have hphase := h.phase_eq c
    unfold gpuEvents
    dsimp only
    cases hc : s.phase c with
    | idle => exact ⟨hphase.trans (hc ▸ rfl), trivial⟩
    | flushing => trivial
    | flushed =>
      refine ⟨⟨hphase.trans (hc ▸ rfl), Nat.le_refl _, h.processed c hc⟩, ?_, trivial⟩
      exact congrArg CollectCall.phase (update_self c _ s.gpus.call)
    | done => trivial

theorem inTime (htime : s.InTime g e) :
    Along (Gpus.next g.trace) (fun s e => s.InTime g.trace e) s.gpus (s.gpuEvents e) := by
  cases e with
  | tick | start | finish | deliver => exact ⟨trivial, trivial⟩
  | collect c =>
    unfold gpuEvents
    dsimp only
    cases hc : s.phase c with
    | idle => exact ⟨trivial, trivial⟩
    | flushing | done => trivial
    | flushed =>
      refine ⟨fun a hwanted hbegun hwaits hmark => Nat.le_of_not_lt fun hlt => ?_, trivial, trivial⟩
      exact absurd (htime hc a hwanted hbegun hmark hlt) (Bool.eq_false_iff.mp hwaits)

theorem clear (hrec : s.gpus.Recorded g.trace) :
    Along (Gpus.next g.trace) (fun s e => s.Clear g.trace e) s.gpus (s.gpuEvents e) := by
  cases e with
  | tick | start | finish | deliver => exact ⟨trivial, trivial⟩
  | collect c =>
    unfold gpuEvents
    dsimp only
    cases s.phase c with
    | idle => exact ⟨trivial, trivial⟩
    | flushing | done => trivial
    | flushed =>
      exact ⟨fun c' slot a ha => hrec.clearOf_now (hrec.of_taken c' slot a ha).1,
        fun slot _ a ha => hrec.clearOf_now (hrec.of_buffer slot a ha).1, trivial⟩

structure Sound (g : RocprofilerTrace α) (s : Rocprofiler α κ) : Prop where
  flushed : s.Flushed
  recorded : s.gpus.Recorded g.trace

omit [DecidableEq α] [DecidableEq κ] in
theorem Sound.init (g : RocprofilerTrace α) (now : ℕ) : (init α κ now).Sound g where
  flushed := Flushed.init now
  recorded := Gpus.Recorded.init now

theorem Sound.next (h : s.Sound g) (hallowed : s.Allowed g e) : (s.next g e).Sound g where
  flushed := h.flushed.next hallowed
  recorded := by
    rw [next_gpus]
    exact (Along.invariant (P := fun _ _ => True) (R := fun _ => True) (fun _ _ hrec _ hguard => hrec.next hguard)
      (fun _ _ _ _ _ => trivial) _ _ h.recorded (fun _ _ => trivial) (h.flushed.guard hallowed)).2

theorem Sound.counts (h : s.Sound g) (hcounts : s.gpus.Counts g.trace) (hallowed : s.Allowed g e)
    (htime : s.InTime g e) : (s.next g e).gpus.Counts g.trace := by
  rw [next_gpus]
  exact (Along.invariant (I := fun s => s.Recorded g.trace ∧ s.Counts g.trace) (P := fun _ _ => True)
    (R := fun _ => True) (fun _ _ hs _ he => ⟨hs.1.next he.1, hs.2.next hs.1 he.1 he.2⟩) (fun _ _ _ _ _ => trivial)
    _ _ ⟨h.recorded, hcounts⟩ (fun _ _ => trivial)
    ((Along.and _ _).mpr ⟨h.flushed.guard hallowed, inTime htime⟩)).2.2

theorem Sound.once (h : s.Sound g) (honce : s.gpus.Once g.trace) (hallowed : s.Allowed g e) :
    (s.next g e).gpus.Once g.trace := by
  rw [next_gpus]
  exact (Along.invariant (I := fun s => s.Recorded g.trace ∧ s.Once g.trace) (P := fun _ _ => True)
    (R := fun _ => True) (fun _ _ hs _ he => ⟨hs.1.next he.1, hs.2.next hs.1 he.1 he.2⟩) (fun _ _ _ _ _ => trivial)
    _ _ ⟨h.recorded, honce⟩ (fun _ _ => trivial)
    ((Along.and _ _).mpr ⟨h.flushed.guard hallowed, clear h.recorded⟩)).2.2

end Rocprofiler

end Dlb.Talp
