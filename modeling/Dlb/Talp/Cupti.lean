import Dlb.Lib.Table
import Dlb.Talp.GpuCollect

/-!
# The CUPTI backend

CUPTI asks for buffers, writes the records of activities to them, and gives them back as completed. Records wait in the
completed buffers, until a collect call processes them all, or CUPTI asks for a buffer while none is free. A collect call
takes its timestamp first, flushes, processes the buffers, sets `safe_timestamp` to the timestamp and reads the local
buffers. `buffer_mutex` is held while records are processed, one after the other; `safe_timestamp` is set without it.

* `Piped`: where the record of an activity is, and what a collect call knows of the activities that had ended before it;
* `next_gpus`, `Piped.guard`, `Piped.inTime`: each step is one of the common part, or none, meets its guard, and sets the
  timestamp in time.
-/

namespace Dlb.Talp

open List Function Lib

/-! ## The records -/

/-- The kinds of `CUpti_Activity` that are profiled. -/
inductive CuptiKind where
  | concurrentKernel
  | memset
  | memcpy
  | memcpy2
  | unknown
deriving DecidableEq

structure CuptiRecord where
  kind : CuptiKind
  record : GpuRecord
  deviceId : ℕ

/-- The local buffer that `process_buffer_records` copies a record to. -/
def CuptiRecord.slots (r : CuptiRecord) : List (BufferKind × ℕ) :=
  match r.kind with
  | .concurrentKernel => [(.kernel, r.deviceId)]
  | .memset => [(.memory, r.deviceId)]
  | .memcpy => [(.memory, r.deviceId)]
  | .memcpy2 => [(.memory, r.deviceId)]
  | .unknown => []

structure CuptiTrace (α : Type*) where
  record : α → CuptiRecord
  numDevices : ℕ
  capacity : ℕ
  qsort : Qsort

def CuptiTrace.trace {α : Type*} (g : CuptiTrace α) : GpuTrace α where
  activity a := { record := (g.record a).record, slots := (g.record a).slots }
  numDevices := g.numDevices
  capacity := g.capacity
  qsort := g.qsort

/-! ## The backend -/

/-- `NUM_BUFFERS` -/
def numBuffers : ℕ := 16

/-- `buffer_state_t` -/
inductive BufferState where
  | free
  | inUse
  | ready
deriving DecidableEq

/-- `buffer_entry_t` -/
structure BufferEntry (α : Type*) where
  state : BufferState := .free
  records : List α := []

/-- Who holds `buffer_mutex` and processes records: a collect call, or CUPTI; and the records that are left. -/
structure CuptiJob (α κ : Type*) where
  owner : Option κ
  todo : List α

/-- Where a collect call is in `cupti_backend_collect`. -/
inductive CuptiPhase where
  | idle
  | captured
  | flushing
  | flushed
  | processing
  | processed
  | advanced
  | done
deriving DecidableEq

def CuptiPhase.call : CuptiPhase → CallPhase
  | .idle => .idle
  | .advanced => .advanced
  | .done => .done
  | _ => .entered

/-- The state. `written` are the activities whose records CUPTI has written, and `atFlush` those that had ended when a
collect call began to flush. -/
structure Cupti (α κ : Type*) where
  gpus : Gpus α κ
  pool : ℕ → BufferEntry α := fun _ => {}
  job : Option (CuptiJob α κ) := none
  phase : κ → CuptiPhase := fun _ => .idle
  written : α → Bool := fun _ => false
  atFlush : κ → α → Bool := fun _ _ => false

/-- An activity begins or ends; CUPTI calls `bufferRequested`, writes a record, or calls `bufferCompleted`; the holder of
`buffer_mutex` processes the next record or unlocks it; a collect call goes on. -/
inductive CuptiEvent (α κ : Type*) where
  | tick
  | start (a : α)
  | finish (a : α)
  | bufferRequested
  | write (i : ℕ) (a : α)
  | bufferCompleted (i : ℕ)
  | nextRecord
  | unlock
  | collect (c : κ)

namespace Cupti

variable {α κ : Type*}

section Code

variable (s : Cupti α κ)

def init (now : ℕ) : Cupti α κ where
  gpus := Gpus.init now

def firstBuffer (state : BufferState) : Option ℕ := (range numBuffers).find? fun i => (s.pool i).state = state

def readyRecords : List α :=
  (range numBuffers).flatMap fun i => if (s.pool i).state = .ready then (s.pool i).records else []

/-- `bufferRequested`. If no buffer is free, the first ready one is processed. -/
def bufferRequested : Cupti α κ :=
  match s.firstBuffer .free with
  | some i => { s with pool := update s.pool i { s.pool i with state := .inUse } }
  | none =>
    match s.firstBuffer .ready with
    | some i =>
      { s with
        pool := update s.pool i { state := .inUse }
        job := some { owner := none, todo := (s.pool i).records } }
    | none => s

/-- `process_ready_buffers` takes `buffer_mutex`. -/
def processReadyBuffers (c : κ) : Cupti α κ :=
  { s with
    pool := fun i => if i < numBuffers ∧ (s.pool i).state = .ready then {} else s.pool i
    job := some { owner := some c, todo := s.readyRecords } }

variable [DecidableEq α] [DecidableEq κ] (g : CuptiTrace α)

/-- `cupti_backend_collect`, one step. -/
def collect (c : κ) : Cupti α κ :=
  match s.phase c with
  | .idle => { s with gpus := s.gpus.enter c, phase := update s.phase c .captured }
  | .captured =>
    { s with
      phase := update s.phase c .flushing
      atFlush := update s.atFlush c s.gpus.ended }
  | .flushing => { s with phase := update s.phase c .flushed }
  | .flushed => { s.processReadyBuffers c with phase := update s.phase c .processing }
  | .processing => s
  | .processed =>
    { s with
      gpus := s.gpus.advance c (s.gpus.call c).enteredAt
      phase := update s.phase c .advanced }
  | .advanced => { s with gpus := s.gpus.read g.trace c, phase := update s.phase c .done }
  | .done => s

def next : CuptiEvent α κ → Cupti α κ
  | .tick => { s with gpus := s.gpus.next g.trace .tick }
  | .start a => { s with gpus := s.gpus.next g.trace (.start a) }
  | .finish a => { s with gpus := s.gpus.next g.trace (.finish a) }
  | .bufferRequested => s.bufferRequested
  | .write i a =>
    { s with
      pool := update s.pool i { s.pool i with records := (s.pool i).records ++ [a] }
      written := update s.written a true }
  | .bufferCompleted i => { s with pool := update s.pool i { s.pool i with state := .ready } }
  | .nextRecord =>
    match s.job with
    | some ⟨owner, a :: todo⟩ => { s with gpus := s.gpus.copyRecord g.trace a, job := some ⟨owner, todo⟩ }
    | _ => s
  | .unlock =>
    match s.job with
    | some ⟨some c, []⟩ => { s with job := none, phase := update s.phase c .processed }
    | some ⟨none, []⟩ => { s with job := none }
    | _ => s
  | .collect c => s.collect g c

end Code

section Runs

variable (s : Cupti α κ)

/-- The record has been written, to a buffer that is completed. -/
def Delivered (a : α) : Prop := s.written a ∧ ∀ i < numBuffers, (s.pool i).state = .inUse → a ∉ (s.pool i).records

/-- What CUPTI guarantees, and what `buffer_mutex` allows. The record of an activity is written once, after its end, to a
buffer in use; a buffer in use is completed; a flush returns when all activities that had ended before it are delivered. -/
def Allowed (g : CuptiTrace α) : CuptiEvent α κ → Prop
  | .tick => True
  | .start a => s.gpus.Guard g.trace (.start a)
  | .finish a => s.gpus.Guard g.trace (.finish a)
  | .bufferRequested => s.job.isNone
  | .write i a => i < numBuffers ∧ (s.pool i).state = .inUse ∧ s.gpus.ended a ∧ s.written a = false
  | .bufferCompleted i => i < numBuffers ∧ (s.pool i).state = .inUse ∧ s.job.isNone
  | .nextRecord => ∃ job ∈ s.job, job.todo ≠ []
  | .unlock => ∃ job ∈ s.job, job.todo = []
  | .collect c =>
    match s.phase c with
    | .flushing => ∀ a, s.atFlush c a → s.Delivered a
    | .flushed => s.job.isNone
    | .processing => False
    | .done => False
    | _ => True

instance [DecidableEq α] (a : α) : Decidable (s.Delivered a) := inferInstanceAs (Decidable (_ ∧ _))

instance [Fintype α] [DecidableEq α] (g : CuptiTrace α) : ∀ e, Decidable (s.Allowed g e)
  | .tick => inferInstanceAs (Decidable True)
  | .start a => inferInstanceAs (Decidable (s.gpus.Guard g.trace (.start a)))
  | .finish a => inferInstanceAs (Decidable (s.gpus.Guard g.trace (.finish a)))
  | .bufferRequested => inferInstanceAs (Decidable s.job.isNone)
  | .write i a => inferInstanceAs (Decidable (i < numBuffers ∧ (s.pool i).state = .inUse ∧ s.gpus.ended a ∧
      s.written a = false))
  | .bufferCompleted i => inferInstanceAs (Decidable (i < numBuffers ∧ (s.pool i).state = .inUse ∧ s.job.isNone))
  | .nextRecord => inferInstanceAs (Decidable (∃ job ∈ s.job, job.todo ≠ []))
  | .unlock => inferInstanceAs (Decidable (∃ job ∈ s.job, job.todo = []))
  | .collect c =>
    decidable_of_iff ((s.phase c = .flushing → ∀ a, s.atFlush c a → s.Delivered a) ∧
      (s.phase c = .flushed → s.job.isNone) ∧ s.phase c ≠ .processing ∧ s.phase c ≠ .done)
      (by unfold Allowed; dsimp only; cases s.phase c <;> simp)

/-- When a call reads the local buffers, what it reads overlaps with no activity that still has to be processed and has
started since `safe_timestamp`; and when a call sets `safe_timestamp`, the same holds of what has been read. -/
def Clear (g : CuptiTrace α) : CuptiEvent α κ → Prop
  | .collect c =>
    match s.phase c with
    | .processed => s.gpus.Clear g.trace (.advance c (s.gpus.call c).enteredAt)
    | .advanced => s.gpus.Clear g.trace (.read c)
    | _ => True
  | _ => True

/-- All activities that have begun are processed when a call sets `safe_timestamp` and reads. -/
def Drained : CuptiEvent α κ → Prop
  | .collect c => s.phase c = .processed ∨ s.phase c = .advanced → ∀ a, s.gpus.begun a → s.gpus.processed a
  | _ => True

instance [Fintype α] : ∀ e, Decidable (s.Drained e)
  | .tick => inferInstanceAs (Decidable True)
  | .start _ => inferInstanceAs (Decidable True)
  | .finish _ => inferInstanceAs (Decidable True)
  | .bufferRequested => inferInstanceAs (Decidable True)
  | .write _ _ => inferInstanceAs (Decidable True)
  | .bufferCompleted _ => inferInstanceAs (Decidable True)
  | .nextRecord => inferInstanceAs (Decidable True)
  | .unlock => inferInstanceAs (Decidable True)
  | .collect c => inferInstanceAs (Decidable (s.phase c = .processed ∨ s.phase c = .advanced →
      ∀ a, s.gpus.begun a → s.gpus.processed a))

/-- The step of the common part that a step is, if any. -/
def gpuEvent : CuptiEvent α κ → Option (GpuEvent α κ)
  | .tick => some .tick
  | .start a => some (.start a)
  | .finish a => some (.finish a)
  | .nextRecord =>
    match s.job with
    | some ⟨_, a :: _⟩ => some (.copy a)
    | _ => none
  | .collect c =>
    match s.phase c with
    | .idle => some (.enter c)
    | .processed => some (.advance c (s.gpus.call c).enteredAt)
    | .advanced => some (.read c)
    | _ => none
  | _ => none

end Runs

variable [DecidableEq α] [DecidableEq κ] {g : CuptiTrace α} {s : Cupti α κ} {e : CuptiEvent α κ} {a : α} {c : κ}

theorem next_gpus : (s.next g e).gpus = (s.gpuEvent e).elim s.gpus (s.gpus.next g.trace) := by
  cases e with
  | tick | start | finish | write | bufferCompleted => rfl
  | bufferRequested =>
    show s.bufferRequested.gpus = s.gpus
    unfold bufferRequested
    split
    · rfl
    · split <;> rfl
  | nextRecord =>
    unfold next gpuEvent
    dsimp only
    split <;> rfl
  | unlock =>
    unfold next gpuEvent
    dsimp only
    split <;> rfl
  | collect c =>
    show (s.collect g c).gpus = _
    unfold collect gpuEvent
    dsimp only
    cases s.phase c <;> rfl

/-! ## Where the records are -/

/-- The records that still have to be processed by the holder of `buffer_mutex`. -/
def todo (s : Cupti α κ) : List α := s.job.elim [] CuptiJob.todo

/-- **The way of a record**: it is in one buffer of the pool, in the hands of who processes it, or processed. A collect call
has all activities processed that had ended before it flushed, from when it has processed the buffers. -/
structure Piped (s : Cupti α κ) : Prop where
  count : ∀ a, ∑ i ∈ Finset.range numBuffers, (s.pool i).records.count a + s.todo.count a +
    (s.gpus.processed a).toNat = (s.written a).toNat
  ended_of_written : ∀ a, s.written a → s.gpus.ended a
  free_nil : ∀ i < numBuffers, (s.pool i).state = .free → (s.pool i).records = []
  phase_eq : ∀ c, (s.gpus.call c).phase = (s.phase c).call
  owner : ∀ c, s.phase c = .processing ↔ ∃ job ∈ s.job, job.owner = some c
  before_atFlush : ∀ c, s.phase c ≠ .idle → s.phase c ≠ .captured → ∀ a, (s.gpus.call c).before a → s.atFlush c a
  flushed : ∀ c, s.phase c = .flushed → ∀ a, s.atFlush c a → s.Delivered a
  processing : ∀ c, s.phase c = .processing → ∀ a, s.atFlush c a → a ∈ s.todo ∨ s.gpus.processed a
  processed : ∀ c, s.phase c = .processed → ∀ a, s.atFlush c a → s.gpus.processed a

omit [DecidableEq κ] in
theorem Piped.init (now : ℕ) : (init now : Cupti α κ).Piped where
  count a := by simp [Cupti.init, Cupti.todo, Gpus.init]
  ended_of_written _ h := nomatch h
  free_nil _ _ _ := rfl
  phase_eq _ := rfl
  owner _ := ⟨nofun, fun ⟨_, h, _⟩ => nomatch h⟩
  before_atFlush _ h := absurd rfl h
  flushed _ h := nomatch h
  processing _ h := nomatch h
  processed _ h := nomatch h

omit [DecidableEq κ] in
theorem Piped.of_todo (h : s.Piped) (ha : a ∈ s.todo) : s.gpus.ended a ∧ s.gpus.processed a = false := by
  have hcount := h.count a
  have hpos := count_pos_iff.mpr ha
  have hle := Bool.toNat_le (s.written a)
  refine ⟨h.ended_of_written a ?_, ?_⟩
  · cases hw : s.written a
    · rw [hw, Bool.toNat_false] at hcount
      omega
    · rfl
  · cases hp : s.gpus.processed a
    · rfl
    · rw [hp, Bool.toNat_true] at hcount
      omega

omit [DecidableEq κ] in
theorem Piped.guard (h : s.Piped) (hcounts : s.gpus.Counts g.trace) (hallowed : s.Allowed g e) : ∀ e' ∈ s.gpuEvent e, s.gpus.Guard g.trace e' := by
  intro e' he'
  unfold gpuEvent at he'
  cases e with
  | tick =>
    obtain rfl := Option.some.inj he'
    trivial
  | start a | finish a =>
    obtain rfl := Option.some.inj he'
    exact hallowed
  | bufferRequested | write | bufferCompleted | unlock => exact nomatch he'
  | nextRecord =>
    dsimp only at he'
    split at he'
    · next owner a todo hjob =>
      obtain rfl := Option.some.inj he'
      refine h.of_todo ?_
      rw [Cupti.todo, hjob]
      exact mem_cons_self
    · exact nomatch he'
  | collect c =>
    have hphase := h.phase_eq c
    dsimp only at he'
    split at he'
    · next hc =>
      obtain rfl := Option.some.inj he'
      rwa [hc] at hphase
    · next hc =>
      obtain rfl := Option.some.inj he'
      refine ⟨by rwa [hc] at hphase, hcounts.entered_le c, fun a ha => h.processed c hc a ?_⟩
      exact h.before_atFlush c (hc ▸ nofun) (hc ▸ nofun) a ha
    · next hc =>
      obtain rfl := Option.some.inj he'
      rwa [hc] at hphase
    · exact nomatch he'

omit [DecidableEq κ] in
theorem Piped.inTime (h : s.Piped) (hcounts : s.gpus.Counts g.trace) (hallowed : s.Allowed g e) :
    ∀ e' ∈ s.gpuEvent e, s.gpus.InTime g.trace e' := by
  intro e' he'
  have hguard := h.guard hcounts hallowed e' he'
  cases e' with
  | tick | start | finish | copy | enter | read => trivial
  | advance c timestamp =>
    obtain ⟨hphase, -, hprocessed⟩ := hguard
    have htimestamp : timestamp = (s.gpus.call c).enteredAt := by
      cases e with
      | tick | start | finish | bufferRequested | write | bufferCompleted | unlock => exact nomatch he'
      | nextRecord =>
        unfold gpuEvent at he'
        dsimp only at he'
        split at he' <;> exact nomatch he'
      | collect c' =>
        unfold gpuEvent at he'
        dsimp only at he'
        split at he'
        · exact nomatch he'
        · obtain ⟨rfl, rfl⟩ := GpuEvent.advance.inj (Option.some.inj he')
          rfl
        · exact nomatch he'
        · exact nomatch he'
    intro a _ hbegun hwaits hmark
    rcases hcounts.entered c (hphase ▸ nofun) a hbegun with hbefore | hmarked | hle
    · exact absurd (hprocessed a hbefore) (Bool.eq_false_iff.mp hwaits)
    · exact absurd hmarked (Bool.eq_false_iff.mp hmark)
    · exact htimestamp ▸ hle

omit [DecidableEq α] [DecidableEq κ] in
theorem Delivered.mono {s' : Cupti α κ} (h : s.Delivered a) (hwritten : s.written a → s'.written a)
    (hpool : ∀ i < numBuffers, (s'.pool i).state = .inUse → a ∈ (s'.pool i).records →
      (s.pool i).state = .inUse ∧ a ∈ (s.pool i).records) : s'.Delivered a :=
  ⟨hwritten h.1, fun i hi hstate ha => h.2 i hi (hpool i hi hstate ha).1 (hpool i hi hstate ha).2⟩

omit [DecidableEq α] [DecidableEq κ] in
theorem firstBuffer_some {state : BufferState} {i : ℕ} (h : s.firstBuffer state = some i) :
    i < numBuffers ∧ (s.pool i).state = state :=
  ⟨mem_range.mp (mem_of_find?_eq_some h), by simpa using find?_some h⟩

omit [DecidableEq α] in
theorem forall_phase {P : κ → CuptiPhase → Prop} {phase : CuptiPhase} (hc : P c phase) (h : ∀ c', P c' (s.phase c')) :
    ∀ c', P c' (update s.phase c phase c') :=
  (Function.forall_update_iff s.phase P).mpr ⟨hc, fun c' _ => h c'⟩

omit [DecidableEq κ] in
theorem Piped.bufferRequested (h : s.Piped) (hjob : s.job.isNone) : s.bufferRequested.Piped := by
  have hnone : s.job = none := Option.isNone_iff_eq_none.mp hjob
  unfold Cupti.bufferRequested
  split
  · next i hi =>
    obtain ⟨hi, hstate⟩ := firstBuffer_some hi
    have hnil := h.free_nil i hi hstate
    refine { h with
      count := fun a => ?_
      free_nil := fun j hj hfree => ?_
      flushed := fun c hc a ha => (h.flushed c hc a ha).mono id fun j _ hstate ha => ?_ }
    · have hsum := sum_update s.pool (fun entry => entry.records.count a) i ⟨.inUse, (s.pool i).records⟩ hi
      have hcount := h.count a
      dsimp only at hsum
      simp only [Cupti.todo] at hcount ⊢
      omega
    · dsimp only at hfree ⊢
      by_cases hji : j = i
      · subst hji
        rw [update_self] at hfree
        exact nomatch hfree
      · rw [update_of_ne hji] at hfree ⊢
        exact h.free_nil j hj hfree
    · dsimp only at hstate ha
      by_cases hji : j = i
      · subst hji
        rw [update_self, hnil] at ha
        exact nomatch ha
      · rw [update_of_ne hji] at hstate ha
        exact ⟨hstate, ha⟩
  · split
    · next i hi =>
      obtain ⟨hi, hstate⟩ := firstBuffer_some hi
      have hno : ∀ c, s.phase c ≠ .processing := fun c hc => by
        obtain ⟨job, hmem, -⟩ := (h.owner c).mp hc
        rw [hnone] at hmem
        exact nomatch hmem
      refine { h with
        count := fun a => ?_
        free_nil := fun j hj hfree => ?_
        owner := fun c => iff_of_false (hno c) ?_
        flushed := fun c hc a ha => (h.flushed c hc a ha).mono id fun j _ hstate ha => ?_
        processing := fun c hc => absurd hc (hno c) }
      · have hsum := sum_update s.pool (fun entry => entry.records.count a) i { state := .inUse } hi
        have hcount := h.count a
        simp only [Cupti.todo, hnone, Option.elim_none, Option.elim_some, count_nil] at hsum hcount ⊢
        omega
      · dsimp only at hfree ⊢
        by_cases hji : j = i
        · subst hji
          rw [update_self]
        · rw [update_of_ne hji] at hfree ⊢
          exact h.free_nil j hj hfree
      · rintro ⟨job, hmem, howner⟩
        obtain rfl := Option.some.inj hmem
        exact nomatch howner
      · dsimp only at hstate ha
        by_cases hji : j = i
        · subst hji
          rw [update_self] at ha
          exact nomatch ha
        · rw [update_of_ne hji] at hstate ha
          exact ⟨hstate, ha⟩
    · exact h

omit [DecidableEq κ] in
theorem count_readyRecords (a : α) : s.readyRecords.count a =
    ∑ i ∈ Finset.range numBuffers, if (s.pool i).state = .ready then (s.pool i).records.count a else 0 := by
  rw [Cupti.readyRecords, count_flatMap]
  refine congrArg sum (map_congr_left fun i _ => ?_)
  dsimp only [Function.comp_apply]
  split <;> rfl

theorem Piped.processReadyBuffers (h : s.Piped) (hjob : s.job.isNone) (hc : s.phase c = .flushed) :
    ({ s.processReadyBuffers c with phase := update s.phase c .processing } : Cupti α κ).Piped := by
  have hnone : s.job = none := Option.isNone_iff_eq_none.mp hjob
  have hno : ∀ c, s.phase c ≠ .processing := fun c hc => by
    obtain ⟨job, hmem, -⟩ := (h.owner c).mp hc
    rw [hnone] at hmem
    exact nomatch hmem
  -- an entry that is taken over becomes free and empty
  have hentry : ∀ i, ((s.processReadyBuffers c).pool i) =
      if i < numBuffers ∧ (s.pool i).state = .ready then {} else s.pool i := fun _ => rfl
  refine {
    count := fun a => ?_
    ended_of_written := h.ended_of_written
    free_nil := fun i hi hfree => ?_
    phase_eq := forall_phase (P := fun c phase => (s.gpus.call c).phase = phase.call) ((h.phase_eq c).trans (hc ▸ rfl))
      h.phase_eq
    owner := fun c' => ?_
    before_atFlush := forall_phase (P := fun c phase => phase ≠ .idle → phase ≠ .captured → ∀ a,
      (s.gpus.call c).before a → s.atFlush c a) (fun _ _ => h.before_atFlush c (hc ▸ nofun) (hc ▸ nofun)) h.before_atFlush
    flushed := fun c' hc' a ha => ?_
    processing := fun c' hc' a ha => ?_
    processed := forall_phase (P := fun c phase => phase = .processed → ∀ a, s.atFlush c a → s.gpus.processed a) nofun
      h.processed }
  · have hcount := h.count a
    have hsum : ∑ i ∈ Finset.range numBuffers, ((s.processReadyBuffers c).pool i).records.count a +
        s.readyRecords.count a = ∑ i ∈ Finset.range numBuffers, (s.pool i).records.count a := by
      rw [count_readyRecords, ← Finset.sum_add_distrib]
      refine Finset.sum_congr rfl fun i hi => ?_
      rw [hentry]
      by_cases hready : (s.pool i).state = .ready
      · rw [if_pos ⟨Finset.mem_range.mp hi, hready⟩, if_pos hready]
        exact Nat.zero_add _
      · rw [if_neg fun h => hready h.2, if_neg hready, Nat.add_zero]
    simp only [Cupti.todo, hnone, Option.elim_none, count_nil] at hcount
    show ∑ i ∈ Finset.range numBuffers, ((s.processReadyBuffers c).pool i).records.count a + s.readyRecords.count a +
      (s.gpus.processed a).toNat = (s.written a).toNat
    omega
  · show ((s.processReadyBuffers c).pool i).records = []
    have hfree : ((s.processReadyBuffers c).pool i).state = .free := hfree
    rw [hentry] at hfree ⊢
    split
    · rfl
    · next hno => exact h.free_nil i hi (by rwa [if_neg hno] at hfree)
  · show update s.phase c .processing c' = .processing ↔ _
    by_cases hcc : c' = c
    · subst hcc
      rw [update_self]
      exact iff_of_true rfl ⟨_, rfl, rfl⟩
    · rw [update_of_ne hcc]
      refine iff_of_false (hno c') ?_
      rintro ⟨job, hmem, howner⟩
      obtain rfl := Option.some.inj hmem
      exact hcc (Option.some.inj howner).symm
  · have hc' : update s.phase c .processing c' = .flushed := hc'
    by_cases hcc : c' = c
    · subst hcc
      rw [update_self] at hc'
      exact nomatch hc'
    · rw [update_of_ne hcc] at hc'
      refine (h.flushed c' hc' a ha).mono id fun i _ hstate ha => ?_
      have hstate : ((s.processReadyBuffers c).pool i).state = .inUse := hstate
      have ha : a ∈ ((s.processReadyBuffers c).pool i).records := ha
      rw [hentry] at hstate ha
      split at hstate
      · exact nomatch hstate
      · next hno =>
        rw [if_neg hno] at ha
        exact ⟨hstate, ha⟩
  · have hc' : update s.phase c .processing c' = .processing := hc'
    by_cases hcc : c' = c
    · subst hcc
      obtain ⟨hwritten, hcompleted⟩ := h.flushed c' hc a ha
      by_cases hprocessed : s.gpus.processed a
      · exact .inr hprocessed
      -- the record is in the pool, in a buffer that is neither in use nor free
      have hcount := h.count a
      rw [hwritten, Bool.eq_false_iff.mpr hprocessed, Cupti.todo, hnone] at hcount
      have hpos : 0 < ∑ i ∈ Finset.range numBuffers, (s.pool i).records.count a := by
        simp only [Option.elim_none, count_nil, Bool.toNat_true, Bool.toNat_false] at hcount
        omega
      obtain ⟨i, hi, hcounti⟩ := Finset.exists_ne_zero_of_sum_ne_zero (Nat.ne_of_gt hpos)
      have hi := Finset.mem_range.mp hi
      have hmem := count_pos_iff.mp (Nat.pos_of_ne_zero hcounti)
      refine .inl (mem_flatMap.mpr ⟨i, mem_range.mpr hi, ?_⟩)
      cases hstate : (s.pool i).state with
      | inUse => exact absurd hmem (hcompleted i hi hstate)
      | free =>
        rw [h.free_nil i hi hstate] at hmem
        exact nomatch hmem
      | ready => rwa [if_pos rfl]
    · rw [update_of_ne hcc] at hc'
      exact absurd hc' (hno c')

theorem Piped.of_phase (h : s.Piped) {gpus : Gpus α κ} {atFlush : κ → α → Bool} {phase : CuptiPhase}
    (hprocessed : gpus.processed = s.gpus.processed) (hended : gpus.ended = s.gpus.ended)
    (hothers : ∀ c' ≠ c, (gpus.call c').phase = (s.gpus.call c').phase ∧
      (gpus.call c').before = (s.gpus.call c').before ∧ atFlush c' = s.atFlush c')
    (hold : s.phase c ≠ .processing) (hnew : phase ≠ .processing) (hphase : (gpus.call c).phase = phase.call)
    (hbefore : phase ≠ .idle → phase ≠ .captured → ∀ a, (gpus.call c).before a → atFlush c a)
    (hflushed : phase = .flushed → ∀ a, atFlush c a → s.Delivered a)
    (hdone : phase = .processed → ∀ a, atFlush c a → s.gpus.processed a) :
    ({ s with gpus := gpus, phase := update s.phase c phase, atFlush := atFlush } : Cupti α κ).Piped where
  count a := by
    show _ + (gpus.processed a).toNat = _
    rw [hprocessed]
    exact h.count a
  ended_of_written a ha := (congrFun hended a).trans (h.ended_of_written a ha)
  free_nil := h.free_nil
  phase_eq := (Function.forall_update_iff s.phase fun c phase => (gpus.call c).phase = phase.call).mpr
    ⟨hphase, fun c' hc => (hothers c' hc).1.trans (h.phase_eq c')⟩
  owner c' := by
    show update s.phase c phase c' = .processing ↔ _
    by_cases hcc : c' = c
    · subst hcc
      rw [update_self]
      exact iff_of_false hnew fun hjob => hold ((h.owner c').mpr hjob)
    · rw [update_of_ne hcc]
      exact h.owner c'
  before_atFlush := (Function.forall_update_iff s.phase fun c phase => phase ≠ .idle → phase ≠ .captured → ∀ a,
      (gpus.call c).before a → atFlush c a).mpr
    ⟨hbefore, fun c' hc => by
      rw [(hothers c' hc).2.1, (hothers c' hc).2.2]
      exact h.before_atFlush c'⟩
  flushed := (Function.forall_update_iff s.phase fun c phase => phase = .flushed → ∀ a, atFlush c a → s.Delivered a).mpr
    ⟨hflushed, fun c' hc => by
      rw [(hothers c' hc).2.2]
      exact h.flushed c'⟩
  processing := (Function.forall_update_iff s.phase fun c phase => phase = .processing → ∀ a, atFlush c a →
      a ∈ s.todo ∨ gpus.processed a).mpr
    ⟨fun hc => absurd hc hnew, fun c' hc => by
      rw [(hothers c' hc).2.2, hprocessed]
      exact h.processing c'⟩
  processed := (Function.forall_update_iff s.phase fun c phase => phase = .processed → ∀ a, atFlush c a →
      gpus.processed a).mpr
    ⟨fun hc => hprocessed ▸ hdone hc, fun c' hc => by
      rw [(hothers c' hc).2.2, hprocessed]
      exact h.processed c'⟩

theorem Piped.collect (h : s.Piped) (hcounts : s.gpus.Counts g.trace) (hallowed : s.Allowed g (.collect c)) :
    (s.collect g c).Piped := by
  have hphase := h.phase_eq c
  have hother : ∀ {call : CollectCall α}, ∀ c' ≠ c, update s.gpus.call c call c' = s.gpus.call c' :=
    fun c' hc => update_of_ne hc _ _
  unfold Allowed at hallowed
  unfold Cupti.collect
  dsimp only at hallowed ⊢
  cases hc : s.phase c with
  | idle =>
    refine h.of_phase rfl rfl (fun c' hne => ?_) (hc ▸ nofun) nofun ?_ (fun _ h => absurd rfl h) nofun nofun
    · exact ⟨congrArg CollectCall.phase (hother c' hne), congrArg CollectCall.before (hother c' hne), rfl⟩
    · exact congrArg CollectCall.phase (update_self c _ s.gpus.call)
  | captured =>
    refine h.of_phase rfl rfl (fun c' hne => ⟨rfl, rfl, update_of_ne hne _ _⟩) (hc ▸ nofun) nofun
      (hphase.trans (hc ▸ rfl)) (fun _ _ a ha => ?_) nofun nofun
    rw [update_self]
    exact hcounts.ended_of_before c a ha
  | flushing =>
    rw [hc] at hallowed
    exact h.of_phase rfl rfl (fun _ _ => ⟨rfl, rfl, rfl⟩) (hc ▸ nofun) nofun (hphase.trans (hc ▸ rfl))
      (fun _ _ => h.before_atFlush c (hc ▸ nofun) (hc ▸ nofun)) (fun _ => hallowed) nofun
  | flushed =>
    rw [hc] at hallowed
    exact h.processReadyBuffers hallowed hc
  | processing => exact h
  | processed =>
    refine h.of_phase rfl rfl (fun c' hne => ?_) (hc ▸ nofun) nofun ?_ (fun _ _ => ?_) nofun nofun
    · exact ⟨congrArg CollectCall.phase (hother c' hne), congrArg CollectCall.before (hother c' hne), rfl⟩
    · exact congrArg CollectCall.phase (update_self c _ s.gpus.call)
    · rw [Gpus.advance_before]
      exact h.before_atFlush c (hc ▸ nofun) (hc ▸ nofun)
  | advanced =>
    refine h.of_phase rfl rfl (fun c' hne => ?_) (hc ▸ nofun) nofun ?_ (fun _ _ => ?_) nofun nofun
    · exact ⟨congrArg CollectCall.phase (hother c' hne), congrArg CollectCall.before (hother c' hne), rfl⟩
    · exact congrArg CollectCall.phase (update_self c _ s.gpus.call)
    · rw [Gpus.read_before]
      exact h.before_atFlush c (hc ▸ nofun) (hc ▸ nofun)
  | done => exact h

theorem Piped.write (h : s.Piped) {i : ℕ} (hallowed : s.Allowed g (.write i a)) : (s.next g (.write i a)).Piped := by
  obtain ⟨hi, hstate, hended, hno⟩ := hallowed
  have hold : ∀ {b}, s.written b → b ≠ a := fun {b} hb he => by
    rw [he, hno] at hb
    exact nomatch hb
  refine { h with
    count := fun b => ?_
    ended_of_written := fun b hb => (Gpus.update_true.mp hb).elim (· ▸ hended) (h.ended_of_written b)
    free_nil := fun j hj hfree => ?_
    flushed := fun c hc b hb => ?_ }
  · have hsum := sum_update s.pool (fun entry => entry.records.count b) i
      ⟨(s.pool i).state, (s.pool i).records ++ [a]⟩ hi
    have hcount := h.count b
    rw [count_append, count_singleton] at hsum
    show ∑ j ∈ Finset.range numBuffers, (update s.pool i
      ⟨(s.pool i).state, (s.pool i).records ++ [a]⟩ j).records.count b + s.todo.count b +
        (s.gpus.processed b).toNat = (update s.written a true b).toNat
    by_cases hba : b = a
    · subst hba
      rw [update_self, Bool.toNat_true]
      rw [hno, Bool.toNat_false] at hcount
      rw [if_pos (beq_self_eq_true b)] at hsum
      omega
    · rw [update_of_ne hba]
      rw [if_neg (by simpa using Ne.symm hba)] at hsum
      omega
  · dsimp only [Cupti.next] at hfree ⊢
    by_cases hji : j = i
    · subst hji
      rw [update_self] at hfree
      exact nomatch hfree.symm.trans hstate
    · rw [update_of_ne hji] at hfree ⊢
      exact h.free_nil j hj hfree
  · have hdelivered := h.flushed c hc b hb
    refine hdelivered.mono (fun hb => Gpus.update_true.mpr (.inr hb)) fun j _ hj hmem => ?_
    dsimp only [Cupti.next] at hj hmem
    by_cases hji : j = i
    · subst hji
      rw [update_self] at hmem
      rcases mem_append.mp hmem with hmem | hmem
      · exact ⟨hstate, hmem⟩
      · exact absurd (mem_singleton.mp hmem) (hold hdelivered.1)
    · rw [update_of_ne hji] at hj hmem
      exact ⟨hj, hmem⟩

theorem Piped.bufferCompleted (h : s.Piped) {i : ℕ} (hallowed : s.Allowed g (.bufferCompleted i)) :
    (s.next g (.bufferCompleted i)).Piped := by
  obtain ⟨hi, hstate, -⟩ := hallowed
  refine { h with
    count := fun a => ?_
    free_nil := fun j hj hfree => ?_
    flushed := fun c hc a ha => (h.flushed c hc a ha).mono id fun j _ hj hmem => ?_ }
  · have hsum := sum_update s.pool (fun entry => entry.records.count a) i ⟨.ready, (s.pool i).records⟩ hi
    have hcount := h.count a
    dsimp only at hsum
    show ∑ j ∈ Finset.range numBuffers, (update s.pool i ⟨.ready, (s.pool i).records⟩ j).records.count a +
      s.todo.count a + (s.gpus.processed a).toNat = (s.written a).toNat
    omega
  · dsimp only [Cupti.next] at hfree ⊢
    by_cases hji : j = i
    · subst hji
      rw [update_self] at hfree
      exact nomatch hfree
    · rw [update_of_ne hji] at hfree ⊢
      exact h.free_nil j hj hfree
  · dsimp only [Cupti.next] at hj hmem
    by_cases hji : j = i
    · subst hji
      rw [update_self] at hj
      exact nomatch hj
    · rw [update_of_ne hji] at hj hmem
      exact ⟨hj, hmem⟩

omit [DecidableEq κ] in
theorem Piped.copyRecord (h : s.Piped) {owner : Option κ} {rest : List α} (hjob : s.job = some ⟨owner, a :: rest⟩) :
    ({ s with gpus := s.gpus.copyRecord g.trace a, job := some ⟨owner, rest⟩ } : Cupti α κ).Piped := by
  have htodo : s.todo = a :: rest := by
    rw [Cupti.todo, hjob]
    rfl
  obtain ⟨-, hno⟩ := h.of_todo (a := a) (htodo ▸ mem_cons_self)
  exact {
    count := fun b => by
      have hcount := h.count b
      rw [htodo, count_cons] at hcount
      show ∑ i ∈ Finset.range numBuffers, (s.pool i).records.count b + rest.count b +
        (update s.gpus.processed a true b).toNat = (s.written b).toNat
      by_cases hba : b = a
      · subst hba
        rw [update_self, Bool.toNat_true]
        rw [hno, Bool.toNat_false, if_pos (beq_self_eq_true b)] at hcount
        omega
      · rw [update_of_ne hba]
        rw [if_neg (by simpa using Ne.symm hba)] at hcount
        omega
    ended_of_written := h.ended_of_written
    free_nil := h.free_nil
    phase_eq := h.phase_eq
    owner := fun c => (h.owner c).trans (by simp [hjob])
    before_atFlush := h.before_atFlush
    flushed := h.flushed
    processing := fun c hc b hb => by
      rcases h.processing c hc b hb with hmem | hprocessed
      · rw [htodo] at hmem
        rcases mem_cons.mp hmem with rfl | hmem
        · exact .inr (Gpus.update_true.mpr (.inl rfl))
        · exact .inl hmem
      · exact .inr (Gpus.update_true.mpr (.inr hprocessed))
    processed := fun c hc b hb => Gpus.update_true.mpr (.inr (h.processed c hc b hb)) }

theorem Piped.unlock (h : s.Piped) (hjob : s.job = some ⟨some c, []⟩) :
    ({ s with job := none, phase := update s.phase c .processed } : Cupti α κ).Piped := by
  have hphase : s.phase c = .processing := (h.owner c).mpr ⟨_, hjob, rfl⟩
  have hothers : ∀ c' ≠ c, s.phase c' ≠ .processing := fun c' hne hc' => by
    obtain ⟨job, hmem, howner⟩ := (h.owner c').mp hc'
    obtain rfl := Option.some.inj (hjob.symm.trans hmem)
    exact hne (Option.some.inj howner).symm
  have htodo : s.todo = [] := by
    rw [Cupti.todo, hjob]
    rfl
  exact {
    h with
    count := fun a => by
      have hcount := h.count a
      rw [htodo] at hcount
      exact hcount
    phase_eq := forall_phase (P := fun c phase => (s.gpus.call c).phase = phase.call)
      ((h.phase_eq c).trans (hphase ▸ rfl)) h.phase_eq
    owner := fun c' => by
      show update s.phase c .processed c' = .processing ↔ _
      refine iff_of_false ?_ fun ⟨_, hmem, _⟩ => nomatch hmem
      by_cases hcc : c' = c
      · subst hcc
        rw [update_self]
        exact nofun
      · rw [update_of_ne hcc]
        exact hothers c' hcc
    before_atFlush := forall_phase (P := fun c phase => phase ≠ .idle → phase ≠ .captured → ∀ a,
      (s.gpus.call c).before a → s.atFlush c a) (fun _ _ => h.before_atFlush c (hphase ▸ nofun) (hphase ▸ nofun))
      h.before_atFlush
    flushed := forall_phase (P := fun c phase => phase = .flushed → ∀ a, s.atFlush c a → s.Delivered a) nofun h.flushed
    processing := (Function.forall_update_iff s.phase fun c phase => phase = .processing → ∀ a, s.atFlush c a →
      a ∈ [] ∨ s.gpus.processed a).mpr ⟨nofun, fun c' hne hc' => absurd hc' (hothers c' hne)⟩
    processed := by
      refine forall_phase (P := fun c phase => phase = .processed → ∀ a, s.atFlush c a → s.gpus.processed a)
        (fun _ a ha => ?_) h.processed
      rcases h.processing c hphase a ha with hmem | hprocessed
      · rw [htodo] at hmem
        exact nomatch hmem
      · exact hprocessed }

omit [DecidableEq κ] in
theorem Piped.unlockRequested (h : s.Piped) (hjob : s.job = some ⟨none, []⟩) :
    ({ s with job := none } : Cupti α κ).Piped := by
  have hno : ∀ c, s.phase c ≠ .processing := fun c hc => by
    obtain ⟨job, hmem, howner⟩ := (h.owner c).mp hc
    obtain rfl := Option.some.inj (hjob.symm.trans hmem)
    exact nomatch howner
  have htodo : s.todo = [] := by
    rw [Cupti.todo, hjob]
    rfl
  exact {
    h with
    count := fun a => by
      have hcount := h.count a
      rw [htodo] at hcount
      exact hcount
    owner := fun c => iff_of_false (hno c) fun ⟨_, hmem, _⟩ => nomatch hmem
    processing := fun c hc => absurd hc (hno c) }

theorem Piped.next (h : s.Piped) (hcounts : s.gpus.Counts g.trace) (hallowed : s.Allowed g e) : (s.next g e).Piped := by
  cases e with
  | tick => exact { h with }
  | start a => exact { h with }
  | finish a =>
    exact {
      h with
      ended_of_written := fun b hb => Gpus.update_true.mpr (.inr (h.ended_of_written b hb)) }
  | bufferRequested => exact h.bufferRequested hallowed
  | write i a => exact h.write hallowed
  | bufferCompleted i => exact h.bufferCompleted hallowed
  | nextRecord =>
    unfold Cupti.next
    dsimp only
    split
    · next hjob => exact h.copyRecord hjob
    · exact h
  | unlock =>
    unfold Cupti.next
    dsimp only
    split
    · next hjob => exact h.unlock hjob
    · next hjob => exact h.unlockRequested hjob
    · exact h
  | collect c => exact h.collect hcounts hallowed

omit [DecidableEq α] [DecidableEq κ] in
theorem clear_of_drained (h : s.Drained e) : s.Clear g e := by
  cases e with
  | collect c =>
    unfold Clear
    dsimp only
    split
    · next hc => exact Gpus.clear_of_processed (h (.inl hc))
    · next hc => exact Gpus.clear_of_processed (h (.inr hc))
    · trivial
  | tick | start | finish | bufferRequested | write | bufferCompleted | nextRecord | unlock => trivial

omit [DecidableEq α] [DecidableEq κ] in
theorem clear (hclear : s.Clear g e) : ∀ e' ∈ s.gpuEvent e, s.gpus.Clear g.trace e' := by
  intro e' he'
  unfold gpuEvent at he'
  cases e with
  | tick | start | finish =>
    obtain rfl := Option.some.inj he'
    trivial
  | bufferRequested | write | bufferCompleted | unlock => exact nomatch he'
  | nextRecord =>
    dsimp only at he'
    split at he'
    · obtain rfl := Option.some.inj he'
      trivial
    · exact nomatch he'
  | collect c =>
    unfold Clear at hclear
    dsimp only at he' hclear
    split at he'
    · obtain rfl := Option.some.inj he'
      trivial
    · next hc =>
      obtain rfl := Option.some.inj he'
      rwa [hc] at hclear
    · next hc =>
      obtain rfl := Option.some.inj he'
      rwa [hc] at hclear
    · exact nomatch he'

structure Sound (g : CuptiTrace α) (s : Cupti α κ) : Prop where
  piped : s.Piped
  recorded : s.gpus.Recorded g.trace
  counts : s.gpus.Counts g.trace

omit [DecidableEq κ] in
theorem Sound.init (g : CuptiTrace α) (now : ℕ) : (init now : Cupti α κ).Sound g where
  piped := Piped.init now
  recorded := Gpus.Recorded.init now
  counts := Gpus.Counts.init now

theorem Sound.next (h : s.Sound g) (hallowed : s.Allowed g e) : (s.next g e).Sound g := by
  have hguard := h.piped.guard h.counts hallowed
  have htime := h.piped.inTime h.counts hallowed
  refine ⟨h.piped.next h.counts hallowed, ?_, ?_⟩ <;> rw [next_gpus]
  · cases hevent : s.gpuEvent e with
    | none => exact h.recorded
    | some e' => exact h.recorded.next (hguard e' hevent)
  · cases hevent : s.gpuEvent e with
    | none => exact h.counts
    | some e' => exact h.counts.next h.recorded (hguard e' hevent) (htime e' hevent)

theorem Sound.once (h : s.Sound g) (honce : s.gpus.Once g.trace) (hallowed : s.Allowed g e) (hclear : s.Clear g e) :
    (s.next g e).gpus.Once g.trace := by
  rw [next_gpus]
  cases hevent : s.gpuEvent e with
  | none => exact honce
  | some e' => exact honce.next h.recorded (h.piped.guard h.counts hallowed e' hevent) (clear hclear e' hevent)

end Cupti

end Dlb.Talp
