import Dlb.Talp.GpuRecords
import Dlb.Talp.Types
import Mathlib.Algebra.BigOperators.Ring.Finset

/-!
# What is common to the GPU backends

The GPUs run activities; a backend copies the record of each one to local buffers, and collect calls read the buffers and
report two durations of each device. A record counts only if the activity has started at or after `safe_timestamp`, which
each collect call moves forward. The backends differ in how records arrive, and in where a collect call takes the timestamp.

This is the part that both share, with the steps of both as its events. What is not in the code is what a run is
judged by: which activities were in progress when a call began (`straddled`) or had ended before it (`before`), and what
each call has read (`taken`).

* `Counts.next`: no activity is lost if each one is copied, or starts, before a timestamp that is later than its start;
* `Once.next`: no time counts twice if no activity that still has to be copied overlaps with what a call reads.
-/

namespace Dlb.Talp

open Function Lib Lib.Interval

inductive BufferKind where
  | kernel
  | memory
deriving DecidableEq

/-- An activity: its record, and the local buffers that the record is copied to. -/
structure GpuActivity where
  record : GpuRecord
  slots : List (BufferKind × ℕ)

structure GpuTrace (α : Type*) where
  activity : α → GpuActivity
  numDevices : ℕ
  capacity : ℕ
  qsort : Qsort

namespace GpuTrace

variable {α : Type*} (g : GpuTrace α)

def record (a : α) : GpuRecord := (g.activity a).record

def slots (a : α) : List (BufferKind × ℕ) := (g.activity a).slots

def Known (device : ℕ) : Prop := device < g.numDevices ∧ device < g.capacity

instance (device : ℕ) : Decidable (g.Known device) := inferInstanceAs (Decidable (_ ∧ _))

/-- The times of a device, if there are records. -/
def timers (kernels memories : List α) : Option GpuTimers :=
  if kernels.isEmpty ∧ memories.isEmpty then none
  else
    let kernelBuffer := gpuRecordFlatten g.qsort (kernels.map g.record)
    let memoryBuffer := gpuRecordFlatten g.qsort (memories.map g.record)
    some {
      useful := gpuRecordGetDuration kernelBuffer
      communication := gpuRecordGetMemoryExclusiveDuration memoryBuffer kernelBuffer }

/-- The activity has a duration, and a device that the collect calls read. -/
def Wanted (a : α) : Prop := (g.record a).start < (g.record a).finish ∧ ∃ slot ∈ g.slots a, g.Known slot.2

instance (a : α) : Decidable (g.Wanted a) := inferInstanceAs (Decidable (_ ∧ _))

end GpuTrace

inductive CallPhase where
  | idle
  | entered
  | advanced
  | done
deriving DecidableEq

/-- A collect call: when it began, which activities had ended before, what it has read and what it reports. -/
structure CollectCall (α : Type*) where
  phase : CallPhase := .idle
  enteredAt : ℕ := 0
  before : α → Bool := fun _ => false
  taken : BufferKind × ℕ → List α := fun _ => []
  out : ℕ → Option GpuTimers := fun _ => none

/-- The clock, the activities, and the variables of a backend. -/
structure Gpus (α κ : Type*) where
  now : ℕ
  safeTimestamp : ℕ
  begun : α → Bool := fun _ => false
  ended : α → Bool := fun _ => false
  processed : α → Bool := fun _ => false
  straddled : α → Bool := fun _ => false
  buffer : BufferKind × ℕ → List α := fun _ => []
  call : κ → CollectCall α := fun _ => {}

/-- An activity begins or ends, its record is copied; a collect call begins, sets the timestamp, or reads the buffers. -/
inductive GpuEvent (α κ : Type*) where
  | tick
  | start (a : α)
  | finish (a : α)
  | copy (a : α)
  | enter (c : κ)
  | advance (c : κ) (timestamp : ℕ)
  | read (c : κ)

namespace Gpus

variable {α κ : Type*}

section Code

variable [DecidableEq α] [DecidableEq κ] (g : GpuTrace α) (s : Gpus α κ)

/-- The backend starts, with its first timestamp. -/
def init (now : ℕ) : Gpus α κ where
  now := now
  safeTimestamp := now

/-- A record is copied to the local buffers of its devices, unless it is older than the timestamp. -/
def copyRecord (a : α) : Gpus α κ :=
  { s with
    processed := update s.processed a true
    buffer :=
      if s.safeTimestamp ≤ (g.record a).start ∧ s.safeTimestamp < (g.record a).finish then
        ((g.slots a).filter fun slot => slot.2 < g.numDevices).foldl
          (fun buffer slot => update buffer slot (gpuRecordAppendEvent g.record (buffer slot) a)) s.buffer
      else s.buffer }

def enter (c : κ) : Gpus α κ :=
  { s with
    straddled := fun a => s.straddled a || (s.begun a && !s.ended a)
    call := update s.call c { s.call c with phase := .entered, enteredAt := s.now, before := s.ended } }

/-- `safe_timestamp` is set. -/
def advance (c : κ) (timestamp : ℕ) : Gpus α κ :=
  { s with
    safeTimestamp := timestamp
    call := update s.call c { s.call c with phase := .advanced } }

/-- The loop of a collect call over the devices. -/
def read (c : κ) : Gpus α κ :=
  { s with
    buffer := fun slot => if g.Known slot.2 then [] else s.buffer slot
    call := update s.call c
      { s.call c with
        phase := .done
        taken := fun slot => if g.Known slot.2 then s.buffer slot else []
        out := fun device =>
          if g.Known device then g.timers (s.buffer (.kernel, device)) (s.buffer (.memory, device)) else none } }

def next : GpuEvent α κ → Gpus α κ
  | .tick => { s with now := s.now + 1 }
  | .start a => { s with begun := update s.begun a true }
  | .finish a => { s with ended := update s.ended a true }
  | .copy a => s.copyRecord g a
  | .enter c => s.enter c
  | .advance c timestamp => s.advance c timestamp
  | .read c => s.read g c

end Code

/-! ## Runs -/

section Runs

variable (g : GpuTrace α) (s : Gpus α κ)

/-- What the GPUs, the profiling library and the order of the code guarantee: an activity begins and ends at the times of
its record, is copied once after its end, and before a call sets the timestamp if it had ended before the call. -/
def Guard : GpuEvent α κ → Prop
  | .tick => True
  | .start a => s.begun a = false ∧ (g.record a).start = s.now
  | .finish a => s.begun a ∧ s.ended a = false ∧ (g.record a).finish = s.now
  | .copy a => s.ended a ∧ s.processed a = false
  | .enter c => (s.call c).phase = .idle
  | .advance c timestamp =>
    (s.call c).phase = .entered ∧ timestamp ≤ s.now ∧ ∀ a, (s.call c).before a → s.processed a
  | .read c => (s.call c).phase = .advanced

instance [Fintype α] : ∀ e, Decidable (s.Guard g e)
  | .tick => inferInstanceAs (Decidable True)
  | .start a => inferInstanceAs (Decidable (s.begun a = false ∧ (g.record a).start = s.now))
  | .finish a => inferInstanceAs (Decidable (s.begun a ∧ s.ended a = false ∧ (g.record a).finish = s.now))
  | .copy a => inferInstanceAs (Decidable (s.ended a ∧ s.processed a = false))
  | .enter c => inferInstanceAs (Decidable ((s.call c).phase = .idle))
  | .advance c timestamp => inferInstanceAs (Decidable ((s.call c).phase = .entered ∧ timestamp ≤ s.now ∧
      ∀ a, (s.call c).before a → s.processed a))
  | .read c => inferInstanceAs (Decidable ((s.call c).phase = .advanced))

/-- No activity that still has to be copied, and counts, has started before the timestamp. -/
def InTime : GpuEvent α κ → Prop
  | .advance _ timestamp =>
    ∀ a, g.Wanted a → s.begun a → s.processed a = false → s.straddled a = false → timestamp ≤ (g.record a).start
  | _ => True

/-- **Every activity counts once**: no two collect calls read it, and a call that has begun after its end has read it, or
another one has. Activities that were in progress when a call began may get lost. -/
def Counted : Prop :=
  ∀ a, (g.record a).start < (g.record a).finish → s.straddled a = false → ∀ slot ∈ g.slots a, g.Known slot.2 →
    (∀ c c', a ∈ (s.call c).taken slot → a ∈ (s.call c').taken slot → c = c') ∧
      ∀ c, (s.call c).phase = .done → (s.call c).before a → ∃ c', a ∈ (s.call c').taken slot

def takenOf (c : κ) (device : ℕ) : List α := (s.call c).taken (.kernel, device) ++ (s.call c).taken (.memory, device)

def reported (c : κ) (device : ℕ) : ℤ := ((s.call c).out device).elim 0 fun t => t.useful + t.communication

/-- One activity ends before another one starts. -/
def Apart (a b : α) : Prop := (g.record a).finish ≤ (g.record b).start ∨ (g.record b).finish ≤ (g.record a).start

/-- **No time counts twice**: what different calls read of a device does not overlap, and the reported times add up to no
more than the time from the first activity to the last one. -/
def CountedOnce : Prop :=
  ∀ device, (∀ c c', c ≠ c' → ∀ a ∈ s.takenOf c device, ∀ b ∈ s.takenOf c' device, Apart g a b) ∧
    ∀ (calls : Finset κ) (first last : ℕ), first ≤ last →
      (∀ c ∈ calls, ∀ a ∈ s.takenOf c device, first ≤ (g.record a).start ∧ (g.record a).finish ≤ last) →
        ∑ c ∈ calls, s.reported c device ≤ last - first

/-- Both have records of a common device, which the collect calls read. -/
def SameDevice (a b : α) : Prop := ∃ slot ∈ g.slots a, ∃ slot' ∈ g.slots b, slot.2 = slot'.2 ∧ g.Known slot.2

/-- An activity does not overlap with one that still has to be copied and will count. -/
def ClearOf (timestamp : ℕ) (a : α) : Prop :=
  ∀ b, s.begun b → s.processed b = false → SameDevice g a b → timestamp ≤ (g.record b).start →
    (g.record a).finish ≤ (g.record b).start ∨ s.ended b ∧ (g.record b).finish ≤ (g.record a).start

/-- What a call reads, or has read when a call sets the timestamp, is clear of the activities still to come. -/
def Clear : GpuEvent α κ → Prop
  | .advance _ timestamp => ∀ c slot, ∀ a ∈ (s.call c).taken slot, s.ClearOf g timestamp a
  | .read _ => ∀ slot, g.Known slot.2 → ∀ a ∈ s.buffer slot, s.ClearOf g s.safeTimestamp a
  | _ => True

end Runs

/-! ## Copying -/

variable {g : GpuTrace α} {s : Gpus α κ} {e : GpuEvent α κ} {a b : α} {c : κ} {slot : BufferKind × ℕ} {t : ℕ}

theorem mem_gpuRecordAppendEvent {buf : List α} :
    b ∈ gpuRecordAppendEvent g.record buf a ↔ b ∈ buf ∨ b = a ∧ (g.record a).start < (g.record a).finish := by
  unfold gpuRecordAppendEvent isValidRecord
  split
  · next h => simp [of_decide_eq_true h]
  · next h => simp [of_decide_eq_false (Bool.eq_false_iff.mpr h)]

theorem mem_append_slots {slots : List (BufferKind × ℕ)} {buffer : BufferKind × ℕ → List α} :
    b ∈ slots.foldl (fun buffer slot => update buffer slot (gpuRecordAppendEvent g.record (buffer slot) a))
        buffer slot ↔
      b ∈ buffer slot ∨ b = a ∧ (g.record a).start < (g.record a).finish ∧ slot ∈ slots := by
  induction slots generalizing buffer with
  | nil => simp
  | cons x slots ih =>
    rw [List.foldl_cons, ih, List.mem_cons]
    by_cases hx : slot = x
    · subst hx
      rw [update_self, mem_gpuRecordAppendEvent]
      tauto
    · rw [update_of_ne hx]
      tauto

theorem mem_copyRecord [DecidableEq α] : b ∈ (s.copyRecord g a).buffer slot ↔ b ∈ s.buffer slot ∨
    b = a ∧ s.safeTimestamp ≤ (g.record a).start ∧ (g.record a).start < (g.record a).finish ∧ slot ∈ g.slots a ∧
      slot.2 < g.numDevices := by
  unfold copyRecord
  split
  · next h =>
    rw [mem_append_slots, List.mem_filter, decide_eq_true_iff]
    tauto
  · next h =>
    refine (or_iff_left ?_).symm
    rintro ⟨-, hstart, hvalid, -⟩
    exact h ⟨hstart, Nat.lt_of_le_of_lt hstart hvalid⟩

/-! ## What every run keeps -/

structure Recorded (g : GpuTrace α) (s : Gpus α κ) : Prop where
  start_le : ∀ a, s.begun a → (g.record a).start ≤ s.now
  begun_of_ended : ∀ a, s.ended a → s.begun a
  finish_le : ∀ a, s.ended a → (g.record a).finish ≤ s.now
  ended_of_processed : ∀ a, s.processed a → s.ended a
  of_buffer : ∀ slot, ∀ a ∈ s.buffer slot,
    s.processed a ∧ (g.record a).start < (g.record a).finish ∧ slot ∈ g.slots a
  of_taken : ∀ c slot, ∀ a ∈ (s.call c).taken slot,
    s.processed a ∧ (g.record a).start < (g.record a).finish ∧ slot ∈ g.slots a ∧ g.Known slot.2
  taken_nil : ∀ c, (s.call c).phase ≠ .done → ∀ slot, (s.call c).taken slot = []
  out_eq : ∀ c device, (s.call c).out device =
    g.timers ((s.call c).taken (.kernel, device)) ((s.call c).taken (.memory, device))

theorem Recorded.init (now : ℕ) : (init now : Gpus α κ).Recorded g where
  start_le _ h := nomatch h
  begun_of_ended _ h := nomatch h
  finish_le _ h := nomatch h
  ended_of_processed _ h := nomatch h
  of_buffer _ _ h := nomatch h
  of_taken _ _ _ h := nomatch h
  taken_nil _ _ _ := rfl
  out_eq _ _ := rfl

theorem Recorded.of_calls (h : s.Recorded g) (call : κ → CollectCall α) (htaken : ∀ c, (call c).taken = (s.call c).taken)
    (hout : ∀ c, (call c).out = (s.call c).out) (hdone : ∀ c, (s.call c).phase = .done → (call c).phase = .done)
    (straddled : α → Bool) (timestamp : ℕ) :
    Recorded g { s with safeTimestamp := timestamp, straddled := straddled, call := call } where
  start_le := h.start_le
  begun_of_ended := h.begun_of_ended
  finish_le := h.finish_le
  ended_of_processed := h.ended_of_processed
  of_buffer := h.of_buffer
  of_taken c slot := by
    show ∀ a ∈ (call c).taken slot, _
    rw [htaken c]
    exact h.of_taken c slot
  taken_nil c hc slot := by
    show (call c).taken slot = []
    rw [htaken c]
    exact h.taken_nil c (fun hs => hc (hdone c hs)) slot
  out_eq c device := by
    show (call c).out device = _
    rw [hout c, h.out_eq c device, ← htaken c]

section Steps

variable [DecidableEq α] [DecidableEq κ]

omit [DecidableEq κ] in
theorem update_true {f : α → Bool} : update f a true b ↔ b = a ∨ f b := by
  by_cases hb : b = a
  · subst hb
    rw [update_self]
    exact iff_of_true rfl (.inl rfl)
  · rw [update_of_ne hb]
    exact (or_iff_right hb).symm

omit [DecidableEq α] in
theorem forall_call {P : κ → CollectCall α → Prop} {call : CollectCall α} (hc : P c call) (h : ∀ c', P c' (s.call c')) :
    ∀ c', P c' (update s.call c call c') :=
  (Function.forall_update_iff s.call P).mpr ⟨hc, fun c' _ => h c'⟩

omit [DecidableEq α] in
theorem advance_before : ∀ c', ((s.advance c t).call c').before = (s.call c').before :=
  forall_call (P := fun c call => call.before = (s.call c).before) rfl fun _ => rfl

omit [DecidableEq α] in
theorem read_before : ∀ c', ((s.read g c).call c').before = (s.call c').before :=
  forall_call (P := fun c call => call.before = (s.call c).before) rfl fun _ => rfl

theorem Recorded.next (h : s.Recorded g) (hguard : s.Guard g e) : (s.next g e).Recorded g := by
  cases e with
  | tick =>
    exact {
      h with
      start_le := fun a ha => Nat.le_succ_of_le (h.start_le a ha)
      finish_le := fun a ha => Nat.le_succ_of_le (h.finish_le a ha) }
  | start a =>
    refine { h with
      start_le := fun b hb => ?_
      begun_of_ended := fun b hb => update_true.mpr (.inr (h.begun_of_ended b hb)) }
    rcases update_true.mp hb with rfl | hb
    · exact Nat.le_of_eq hguard.2
    · exact h.start_le b hb
  | finish a =>
    refine { h with
      begun_of_ended := fun b hb => ?_
      finish_le := fun b hb => ?_
      ended_of_processed := fun b hb => update_true.mpr (.inr (h.ended_of_processed b hb)) }
    · rcases update_true.mp hb with rfl | hb
      · exact hguard.1
      · exact h.begun_of_ended b hb
    · rcases update_true.mp hb with rfl | hb
      · exact Nat.le_of_eq hguard.2.2
      · exact h.finish_le b hb
  | copy a =>
    have hkeeps : ∀ {b}, s.processed b → (s.copyRecord g a).processed b := fun hb => update_true.mpr (.inr hb)
    refine { h with
      ended_of_processed := fun b hb => ?_
      of_buffer := fun slot b hb => ?_
      of_taken := fun c slot b hb => ⟨hkeeps (h.of_taken c slot b hb).1, (h.of_taken c slot b hb).2⟩ }
    · rcases update_true.mp hb with rfl | hb
      · exact hguard.1
      · exact h.ended_of_processed b hb
    · rcases mem_copyRecord.mp hb with hb | ⟨rfl, -, hvalid, hslot, -⟩
      · exact ⟨hkeeps (h.of_buffer slot b hb).1, (h.of_buffer slot b hb).2⟩
      · exact ⟨update_true.mpr (.inl rfl), hvalid, hslot⟩
  | enter c =>
    have hidle : (s.call c).phase = .idle := hguard
    exact h.of_calls (s.enter c).call (forall_call (P := fun c call => call.taken = (s.call c).taken) rfl fun _ => rfl)
      (forall_call (P := fun c call => call.out = (s.call c).out) rfl fun _ => rfl)
      (forall_call (P := fun c call => (s.call c).phase = .done → call.phase = .done) (fun hdone => nomatch hidle.symm.trans hdone)
        fun _ => id) _ _
  | advance c timestamp =>
    have hentered : (s.call c).phase = .entered := hguard.1
    exact h.of_calls (s.advance c timestamp).call (forall_call (P := fun c call => call.taken = (s.call c).taken) rfl fun _ => rfl)
      (forall_call (P := fun c call => call.out = (s.call c).out) rfl fun _ => rfl)
      (forall_call (P := fun c call => (s.call c).phase = .done → call.phase = .done) (fun hdone => nomatch hentered.symm.trans hdone)
        fun _ => id) _ _
  | read c =>
    refine { h with
      of_buffer := fun slot => ?_
      of_taken := forall_call (P := fun _ call => ∀ slot, ∀ a ∈ call.taken slot, s.processed a ∧
        (g.record a).start < (g.record a).finish ∧ slot ∈ g.slots a ∧ g.Known slot.2) (fun slot => ?_) h.of_taken
      taken_nil := forall_call (P := fun _ call => call.phase ≠ .done → ∀ slot, call.taken slot = [])
        (fun hne => absurd rfl hne) h.taken_nil
      out_eq := forall_call (P := fun _ call => ∀ device, call.out device =
        g.timers (call.taken (.kernel, device)) (call.taken (.memory, device))) (fun device => ?_) h.out_eq }
    · show ∀ b ∈ (if g.Known slot.2 then [] else s.buffer slot), _
      split
      · exact nofun
      · exact h.of_buffer slot
    · show ∀ b ∈ (if g.Known slot.2 then s.buffer slot else []), _
      split
      · next hknown =>
        intro b hb
        obtain ⟨hprocessed, hvalid, hslot⟩ := h.of_buffer slot b hb
        exact ⟨hprocessed, hvalid, hslot, hknown⟩
      · exact nofun
    · dsimp only
      split
      · rfl
      · rfl

omit [DecidableEq α] in
theorem mem_taken_read (h : s.Recorded g) (hphase : (s.call c).phase = .advanced) (c' : κ)
    (slot : BufferKind × ℕ) (a : α) : a ∈ ((s.read g c).call c').taken slot ↔
      a ∈ (s.call c').taken slot ∨ c' = c ∧ g.Known slot.2 ∧ a ∈ s.buffer slot := by
  show a ∈ (update s.call c _ c').taken slot ↔ _
  by_cases hc : c' = c
  · subst hc
    have hnil : (s.call c').taken slot = [] := h.taken_nil c' (hphase ▸ nofun) slot
    rw [update_self, hnil]
    dsimp only
    split
    · next hknown => simp [hknown]
    · next hknown => simp [hknown]
  · rw [update_of_ne hc]
    exact (or_iff_left fun h => hc h.1).symm

omit [DecidableEq α] in
theorem mem_buffer_read : a ∈ (s.read g c).buffer slot ↔ a ∈ s.buffer slot ∧ ¬g.Known slot.2 := by
  show a ∈ (if g.Known slot.2 then [] else s.buffer slot) ↔ _
  split
  · next hknown => simp [hknown]
  · next hknown => simp [hknown]

/-! ## No activity is lost -/

/-- What keeps the count of the activities: every one that a call has found in progress is marked, every other one that
still has to be copied has started in time, and one that has been copied is in a buffer or has been read. -/
structure Counts (g : GpuTrace α) (s : Gpus α κ) : Prop where
  safe_le : s.safeTimestamp ≤ s.now
  entered_le : ∀ c, (s.call c).enteredAt ≤ s.now
  ended_of_before : ∀ c a, (s.call c).before a → s.ended a
  entered : ∀ c, (s.call c).phase ≠ .idle → ∀ a, s.begun a →
    (s.call c).before a ∨ s.straddled a ∨ (s.call c).enteredAt ≤ (g.record a).start
  begun_of_straddled : ∀ a, s.straddled a → s.begun a
  waiting : ∀ a, g.Wanted a → s.begun a → s.processed a = false → s.straddled a = false →
    s.safeTimestamp ≤ (g.record a).start
  kept : ∀ a, s.processed a → s.straddled a = false → (g.record a).start < (g.record a).finish →
    ∀ slot ∈ g.slots a, g.Known slot.2 → a ∈ s.buffer slot ∨ ∃ c, a ∈ (s.call c).taken slot
  once_buffer : ∀ slot, ∀ a ∈ s.buffer slot, ∀ c, a ∉ (s.call c).taken slot
  once : ∀ slot a c c', a ∈ (s.call c).taken slot → a ∈ (s.call c').taken slot → c = c'
  processed : ∀ c, (s.call c).phase = .advanced ∨ (s.call c).phase = .done → ∀ a, (s.call c).before a → s.processed a
  read : ∀ c, (s.call c).phase = .done → ∀ a, (s.call c).before a → s.straddled a = false →
    (g.record a).start < (g.record a).finish → ∀ slot ∈ g.slots a, g.Known slot.2 → ∃ c', a ∈ (s.call c').taken slot

theorem taken_enter (s : Gpus α κ) (g : GpuTrace α) (c c' : κ) :
    ((s.next g (.enter c)).call c').taken = (s.call c').taken := by
  refine forall_call (P := fun c call => call.taken = (s.call c).taken) ?_ (fun _ => rfl) c'
  rfl

theorem taken_advance (s : Gpus α κ) (g : GpuTrace α) (c : κ) (timestamp : ℕ) (c' : κ) :
    ((s.next g (.advance c timestamp)).call c').taken = (s.call c').taken := by
  refine forall_call (P := fun c call => call.taken = (s.call c).taken) ?_ (fun _ => rfl) c'
  rfl

omit [DecidableEq α] [DecidableEq κ] in
theorem Counts.init (now : ℕ) : (init now : Gpus α κ).Counts g where
  safe_le := Nat.le_refl _
  entered_le _ := Nat.zero_le _
  ended_of_before _ _ h := nomatch h
  entered _ h := absurd rfl h
  begun_of_straddled _ h := nomatch h
  waiting _ _ h := nomatch h
  kept _ h := nomatch h
  once_buffer _ _ h := nomatch h
  once _ _ _ _ h := nomatch h
  processed _ h := h.elim nofun nofun
  read _ h := nomatch h

omit [DecidableEq α] [DecidableEq κ] in
theorem Counts.counted (h : s.Counts g) : s.Counted g := fun a hvalid hno slot hslot hknown =>
  ⟨fun c c' => h.once slot a c c', fun c hdone hbefore => h.read c hdone a hbefore hno hvalid slot hslot hknown⟩

theorem Counts.next (h : s.Counts g) (hrec : s.Recorded g) (hguard : s.Guard g e) (htime : s.InTime g e) :
    (s.next g e).Counts g := by
  cases e with
  | tick =>
    exact {
      h with
      safe_le := Nat.le_succ_of_le h.safe_le
      entered_le := fun c => Nat.le_succ_of_le (h.entered_le c) }
  | start a =>
    refine { h with
      entered := fun c hc b hb => ?_
      begun_of_straddled := fun b hb => update_true.mpr (.inr (h.begun_of_straddled b hb))
      waiting := fun b hwanted hb => ?_ }
    · rcases update_true.mp hb with rfl | hb
      · exact .inr (.inr ((h.entered_le c).trans (Nat.le_of_eq hguard.2.symm)))
      · exact h.entered c hc b hb
    · rcases update_true.mp hb with rfl | hb
      · exact fun _ _ => h.safe_le.trans (Nat.le_of_eq hguard.2.symm)
      · exact h.waiting b hwanted hb
  | finish a =>
    exact { h with ended_of_before := fun c b hb => update_true.mpr (.inr (h.ended_of_before c b hb)) }
  | copy a =>
    have hkeeps : ∀ {b}, s.processed b → (s.copyRecord g a).processed b := fun hb => update_true.mpr (.inr hb)
    have hold : ∀ {b}, (s.copyRecord g a).processed b = false → s.processed b = false := fun {b} hb =>
      Bool.eq_false_iff.mpr fun hb' => Bool.eq_false_iff.mp hb (hkeeps hb')
    refine { h with
      waiting := fun b hwanted hbegun hb => h.waiting b hwanted hbegun (hold hb)
      kept := fun b hb hno hvalid slot hslot hknown => ?_
      once_buffer := fun slot b hb c hc => ?_
      processed := fun c hc b hb => hkeeps (h.processed c hc b hb) }
    · rcases update_true.mp hb with rfl | hb
      · have hstart := h.waiting b ⟨hvalid, slot, hslot, hknown⟩ (hrec.begun_of_ended b hguard.1) hguard.2 hno
        exact .inl (mem_copyRecord.mpr (.inr ⟨rfl, hstart, hvalid, hslot, hknown.1⟩))
      · exact (h.kept b hb hno hvalid slot hslot hknown).imp_left fun h => mem_copyRecord.mpr (.inl h)
    · rcases mem_copyRecord.mp hb with hb | ⟨rfl, -⟩
      · exact h.once_buffer slot b hb c hc
      · exact Bool.eq_false_iff.mp hguard.2 (hrec.of_taken c slot b hc).1
  | enter c =>
    have htaken := s.taken_enter g c
    have hmarked : ∀ {a}, s.straddled a → (s.enter c).straddled a := fun ha => Bool.or_eq_true_iff.mpr (.inl ha)
    have hold : ∀ {a}, (s.enter c).straddled a = false → s.straddled a = false := fun {a} ha =>
      (Bool.or_eq_false_iff.mp ha).1
    exact {
      safe_le := h.safe_le
      entered_le := forall_call (P := fun _ call => call.enteredAt ≤ s.now) (Nat.le_refl _) h.entered_le
      ended_of_before := forall_call (P := fun _ call => ∀ a, call.before a → s.ended a) (fun _ => id) h.ended_of_before
      entered := by
        refine forall_call (P := fun _ call => call.phase ≠ .idle → ∀ a, s.begun a →
          call.before a ∨ (s.enter c).straddled a ∨ call.enteredAt ≤ (g.record a).start) (fun _ a ha => ?_) ?_
        · by_cases hended : s.ended a
          · exact .inl hended
          · refine .inr (.inl (Bool.or_eq_true_iff.mpr (.inr ?_)))
            rw [ha, Bool.eq_false_iff.mpr hended]
            rfl
        · exact fun c' hc' a ha => (h.entered c' hc' a ha).imp_right fun h => h.imp_left hmarked
      begun_of_straddled := fun a ha => by
        rcases Bool.or_eq_true_iff.mp ha with ha | ha
        · exact h.begun_of_straddled a ha
        · exact (Bool.and_eq_true_iff.mp ha).1
      waiting := fun a hwanted hbegun hno hmark => h.waiting a hwanted hbegun hno (hold hmark)
      kept := by
        simp only [htaken]
        exact fun a ha hno => h.kept a ha (hold hno)
      once_buffer := by
        simp only [htaken]
        exact h.once_buffer
      once := by
        simp only [htaken]
        exact h.once
      processed := forall_call (P := fun _ call => call.phase = .advanced ∨ call.phase = .done → ∀ a, call.before a →
        s.processed a) (fun hphase => hphase.elim nofun nofun) h.processed
      read := by
        simp only [htaken]
        exact forall_call (P := fun _ call => call.phase = .done → ∀ a, call.before a → (s.enter c).straddled a = false →
          (g.record a).start < (g.record a).finish → ∀ slot ∈ g.slots a, g.Known slot.2 → ∃ c', a ∈ (s.call c').taken slot)
          nofun fun c' hc' a ha hno => h.read c' hc' a ha (hold hno) }
  | advance c timestamp =>
    have htaken := s.taken_advance g c timestamp
    exact {
      h with
      safe_le := hguard.2.1
      entered_le := forall_call (P := fun _ call => call.enteredAt ≤ s.now) (h.entered_le c) h.entered_le
      ended_of_before := forall_call (P := fun _ call => ∀ a, call.before a → s.ended a) (h.ended_of_before c)
        h.ended_of_before
      entered := forall_call (P := fun _ call => call.phase ≠ .idle → ∀ a, s.begun a →
          call.before a ∨ s.straddled a ∨ call.enteredAt ≤ (g.record a).start)
        (fun _ => h.entered c (hguard.1 ▸ nofun)) h.entered
      waiting := htime
      kept := by
        simp only [htaken]
        exact h.kept
      once_buffer := by
        simp only [htaken]
        exact h.once_buffer
      once := by
        simp only [htaken]
        exact h.once
      processed := forall_call (P := fun _ call => call.phase = .advanced ∨ call.phase = .done → ∀ a, call.before a →
        s.processed a) (fun _ => hguard.2.2) h.processed
      read := by
        simp only [htaken]
        exact forall_call (P := fun _ call => call.phase = .done → ∀ a, call.before a → s.straddled a = false →
          (g.record a).start < (g.record a).finish → ∀ slot ∈ g.slots a, g.Known slot.2 → ∃ c', a ∈ (s.call c').taken slot)
          nofun h.read }
  | read c =>
    have hphase : (s.call c).phase = .advanced := hguard
    have hmem := mem_taken_read hrec hphase
    exact {
      h with
      entered_le := forall_call (P := fun _ call => call.enteredAt ≤ s.now) (h.entered_le c) h.entered_le
      ended_of_before := forall_call (P := fun _ call => ∀ a, call.before a → s.ended a) (h.ended_of_before c)
        h.ended_of_before
      entered := forall_call (P := fun _ call => call.phase ≠ .idle → ∀ a, s.begun a →
          call.before a ∨ s.straddled a ∨ call.enteredAt ≤ (g.record a).start)
        (fun _ => h.entered c (hphase ▸ nofun)) h.entered
      kept := fun a ha hno hvalid slot hslot hknown => by
        rcases h.kept a ha hno hvalid slot hslot hknown with hbuffer | ⟨c', hc'⟩
        · exact .inr ⟨c, (hmem c _ _).mpr (.inr ⟨rfl, hknown, hbuffer⟩)⟩
        · exact .inr ⟨c', (hmem c' _ _).mpr (.inl hc')⟩
      once_buffer := fun slot a ha c' hc' => by
        obtain ⟨hbuffer, hno⟩ := mem_buffer_read.mp ha
        rcases (hmem c' _ _).mp hc' with hc' | ⟨-, hknown, -⟩
        · exact h.once_buffer slot a hbuffer c' hc'
        · exact hno hknown
      once := fun slot a c' c'' hc' hc'' => by
        rcases (hmem c' _ _).mp hc' with h1 | ⟨h1, -, hbuffer⟩
        · rcases (hmem c'' _ _).mp hc'' with h2 | ⟨-, -, hbuffer⟩
          · exact h.once slot a c' c'' h1 h2
          · exact absurd h1 (h.once_buffer slot a hbuffer c')
        · rcases (hmem c'' _ _).mp hc'' with h2 | ⟨h2, -, -⟩
          · exact absurd h2 (h.once_buffer slot a hbuffer c'')
          · exact h1.trans h2.symm
      processed := forall_call (P := fun _ call => call.phase = .advanced ∨ call.phase = .done → ∀ a, call.before a →
        s.processed a) (fun _ => h.processed c (.inl hphase)) h.processed
      read := by
        refine forall_call (P := fun _ call => call.phase = .done → ∀ a, call.before a →
          s.straddled a = false → (g.record a).start < (g.record a).finish → ∀ slot ∈ g.slots a,
            g.Known slot.2 → ∃ c', a ∈ ((s.read g c).call c').taken slot) ?_ ?_
        · intro _ a ha hno hvalid slot hslot hknown
          rcases h.kept a (h.processed c (.inl hphase) a ha) hno hvalid slot hslot hknown with hbuffer | ⟨c', hc'⟩
          · exact ⟨c, (hmem c _ _).mpr (.inr ⟨rfl, hknown, hbuffer⟩)⟩
          · exact ⟨c', (hmem c' _ _).mpr (.inl hc')⟩
        · intro c' hc' a ha hno hvalid slot hslot hknown
          obtain ⟨c'', hc''⟩ := h.read c' hc' a ha hno hvalid slot hslot hknown
          exact ⟨c'', (hmem c'' _ _).mpr (.inl hc'')⟩ }

/-! ## No time counts twice -/

/-- What different calls have read, or will read, does not overlap. -/
structure Once (g : GpuTrace α) (s : Gpus α κ) : Prop where
  taken : ∀ c c', c ≠ c' → ∀ slot slot', slot.2 = slot'.2 → ∀ a ∈ (s.call c).taken slot,
    ∀ b ∈ (s.call c').taken slot', Apart g a b
  buffer : ∀ c slot slot', slot.2 = slot'.2 → ∀ a ∈ (s.call c).taken slot, ∀ b ∈ s.buffer slot', Apart g a b
  clear : ∀ c slot, ∀ a ∈ (s.call c).taken slot, s.ClearOf g s.safeTimestamp a

omit [DecidableEq α] [DecidableEq κ] in
theorem Recorded.clearOf_now (h : s.Recorded g) (ha : s.processed a) : s.ClearOf g s.now a := fun _ _ _ _ hstart =>
  .inl ((h.finish_le a (h.ended_of_processed a ha)).trans hstart)

omit [DecidableEq α] [DecidableEq κ] in
theorem clear_of_processed (h : ∀ a, s.begun a → s.processed a) : s.Clear g e := by
  have hclear : ∀ t a, s.ClearOf g t a := fun t a b hbegun hno => absurd (h b hbegun) (Bool.eq_false_iff.mp hno)
  cases e with
  | advance c timestamp => exact fun _ _ a _ => hclear timestamp a
  | read c => exact fun _ _ a _ => hclear s.safeTimestamp a
  | tick | start | finish | copy | enter => trivial

omit [DecidableEq α] [DecidableEq κ] in
theorem Once.init (now : ℕ) : (init now : Gpus α κ).Once g where
  taken _ _ _ _ _ _ _ h := nomatch h
  buffer _ _ _ _ _ h := nomatch h
  clear _ _ _ h := nomatch h

theorem Once.next (h : s.Once g) (hrec : s.Recorded g) (hguard : s.Guard g e) (hclear : s.Clear g e) :
    (s.next g e).Once g := by
  cases e with
  | tick => exact { h with }
  | start b =>
    refine { h with clear := fun c slot a ha b' hbegun hno hsame hsafe => ?_ }
    rcases update_true.mp hbegun with rfl | hbegun
    · have hended := hrec.ended_of_processed a (hrec.of_taken c slot a ha).1
      exact .inl ((hrec.finish_le a hended).trans (Nat.le_of_eq hguard.2.symm))
    · exact h.clear c slot a ha b' hbegun hno hsame hsafe
  | finish b =>
    refine { h with clear := fun c slot a ha b' hbegun hno hsame hsafe => ?_ }
    exact (h.clear c slot a ha b' hbegun hno hsame hsafe).imp_right fun h => ⟨update_true.mpr (.inr h.1), h.2⟩
  | copy b =>
    refine {
      taken := h.taken
      buffer := fun c slot slot' heq a ha b' hb' => ?_
      clear := fun c slot a ha b' hbegun hno => ?_ }
    · rcases mem_copyRecord.mp hb' with hb' | ⟨rfl, hstart, -, hslot', -⟩
      · exact h.buffer c slot slot' heq a ha b' hb'
      · obtain ⟨-, -, hslot, hknown⟩ := hrec.of_taken c slot a ha
        have hbegun := hrec.begun_of_ended b' hguard.1
        exact (h.clear c slot a ha b' hbegun hguard.2 ⟨slot, hslot, slot', hslot', heq, hknown⟩ hstart).imp_right And.right
    · exact h.clear c slot a ha b' hbegun
        (Bool.eq_false_iff.mpr fun hp => Bool.eq_false_iff.mp hno (update_true.mpr (.inr hp)))
  | enter c =>
    have htaken := s.taken_enter g c
    exact {
      taken := by
        simp only [htaken]
        exact h.taken
      buffer := by
        simp only [htaken]
        exact h.buffer
      clear := by
        simp only [htaken]
        exact h.clear }
  | advance c timestamp =>
    have htaken := s.taken_advance g c timestamp
    exact {
      taken := by
        simp only [htaken]
        exact h.taken
      buffer := by
        simp only [htaken]
        exact h.buffer
      clear := by
        simp only [htaken]
        exact hclear }
  | read c =>
    have hmem := mem_taken_read hrec hguard
    refine {
      taken := fun c' c'' hne slot slot' heq a ha b hb => ?_
      buffer := fun c' slot slot' heq a ha b hb => ?_
      clear := fun c' slot a ha => ?_ }
    · rcases (hmem c' _ _).mp ha with ha | ⟨h1, -, ha⟩
      · rcases (hmem c'' _ _).mp hb with hb | ⟨-, -, hb⟩
        · exact h.taken c' c'' hne slot slot' heq a ha b hb
        · exact h.buffer c' slot slot' heq a ha b hb
      · rcases (hmem c'' _ _).mp hb with hb | ⟨h2, -, -⟩
        · exact (h.buffer c'' slot' slot heq.symm b hb a ha).symm
        · exact absurd (h1.trans h2.symm) hne
    · obtain ⟨hb, hno⟩ := mem_buffer_read.mp hb
      rcases (hmem c' _ _).mp ha with ha | ⟨-, hknown, -⟩
      · exact h.buffer c' slot slot' heq a ha b hb
      · exact absurd (heq ▸ hknown) hno
    · rcases (hmem c' _ _).mp ha with ha | ⟨-, hknown, ha⟩
      · exact h.clear c' slot a ha
      · exact hclear slot hknown a ha

omit [DecidableEq α] [DecidableEq κ] in
theorem mem_takenOf {device : ℕ} : a ∈ s.takenOf c device ↔ ∃ kind, a ∈ (s.call c).taken (kind, device) := by
  rw [takenOf, List.mem_append]
  refine ⟨fun h => h.elim (⟨.kernel, ·⟩) (⟨.memory, ·⟩), fun ⟨kind, h⟩ => ?_⟩
  cases kind with
  | kernel => exact .inl h
  | memory => exact .inr h

omit [DecidableEq α] [DecidableEq κ] in
theorem Recorded.reported_eq (h : s.Recorded g) (c : κ) (device : ℕ) :
    s.reported c device = (cover ((s.takenOf c device).map g.record)).card := by
  have hvalid : ∀ kind, ∀ r ∈ ((s.call c).taken (kind, device)).map g.record, r.start < r.finish := fun kind r hr => by
    obtain ⟨a, ha, rfl⟩ := List.mem_map.mp hr
    exact (h.of_taken c (kind, device) a ha).2.1
  rw [reported, takenOf, h.out_eq, GpuTrace.timers]
  split
  · next hempty => simp [List.isEmpty_iff.mp hempty.1, List.isEmpty_iff.mp hempty.2]
  · rw [List.map_append, ← durations_flatten g.qsort (hvalid .memory) (hvalid .kernel), Int.natCast_add]
    rfl

omit [DecidableEq α] in
theorem Once.countedOnce (h : s.Once g) (hrec : s.Recorded g) : s.CountedOnce g := by
  intro device
  have hapart : ∀ c c', c ≠ c' → ∀ a ∈ s.takenOf c device, ∀ b ∈ s.takenOf c' device, Apart g a b := by
    intro c c' hne a ha b hb
    obtain ⟨kind, ha⟩ := mem_takenOf.mp ha
    obtain ⟨kind', hb⟩ := mem_takenOf.mp hb
    exact h.taken c c' hne (kind, device) (kind', device) rfl a ha b hb
  refine ⟨hapart, fun calls first last hle hwithin => ?_⟩
  have hsum : ∑ c ∈ calls, (cover ((s.takenOf c device).map g.record)).card ≤ last - first :=
    sum_card_le calls _ (fun c _ c' _ hne => ?_) fun c hc t ht => ?_
  · simp only [hrec.reported_eq, ← Nat.cast_sum]
    omega
  · refine Finset.disjoint_left.mpr fun t ht ht' => ?_
    obtain ⟨r, hr, h1⟩ := mem_cover.mp ht
    obtain ⟨r', hr', h2⟩ := mem_cover.mp ht'
    obtain ⟨a, ha, rfl⟩ := List.mem_map.mp hr
    obtain ⟨b, hb, rfl⟩ := List.mem_map.mp hr'
    rcases hapart c c' hne a ha b hb with h | h <;> omega
  · obtain ⟨r, hr, h1⟩ := mem_cover.mp ht
    obtain ⟨a, ha, rfl⟩ := List.mem_map.mp hr
    have := hwithin c hc a ha
    exact Finset.mem_Ico.mpr ⟨by omega, by omega⟩

end Steps

end Gpus

end Dlb.Talp
