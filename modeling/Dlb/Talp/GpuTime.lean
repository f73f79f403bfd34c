import Dlb.Talp.GpuRecords

/-!
# The times of GPU activities in 64 bits

The start and the end of an event are any two `uint64_t`. A buffer of events takes the valid ones and grows up to a limit, and
the durations are sums and differences modulo `2 ^ 64`.

* `foldlM_appendEvent`: below the limit, a buffer has all valid events;
* `duration64_eq`, `exclusive64_eq`: no sum or difference overflows where the durations are less than `2 ^ 64`.
-/

namespace Dlb.Talp

open Lib Lib.Interval

structure EventTimes where
  start : BitVec 64
  finish : BitVec 64

def EventTimes.record (e : EventTimes) : GpuRecord := ⟨e.start.toNat, e.finish.toNat⟩

/-- `gpu_records_buffer_t` -/
structure GpuRecordsBuffer where
  data : List GpuRecord
  capacity : ℕ

/-- `MAX_EVENTS` -/
def maxEvents : ℕ := 64 * 1024 * 1024

/-- `gpu_record_init_buffer`, with `LOCAL_BUFFER_INITIAL_CAPACITY`. -/
def gpuRecordInitBuffer : GpuRecordsBuffer := ⟨[], 256 * 1024⟩

namespace GpuRecordsBuffer

variable (buf : GpuRecordsBuffer)

/-- `ensure_capacity`, which ends the program at the limit. -/
def ensureCapacity : Option GpuRecordsBuffer :=
  if buf.capacity ≤ buf.data.length then
    if maxEvents ≤ buf.capacity then none
    else some { buf with capacity := min (buf.capacity * 2) maxEvents }
  else some buf

/-- `gpu_record_append_event` -/
def appendEvent (e : EventTimes) : Option GpuRecordsBuffer :=
  buf.ensureCapacity.map fun buf => { buf with data := gpuRecordAppendEvent id buf.data e.record }

/-- `gpu_record_flatten` -/
def flatten (qsort : Qsort) : GpuRecordsBuffer := { buf with data := gpuRecordFlatten qsort buf.data }

end GpuRecordsBuffer

def gpuRecordEvents (events : List EventTimes) : Option GpuRecordsBuffer :=
  events.foldlM GpuRecordsBuffer.appendEvent gpuRecordInitBuffer

def add64 (a b : ℕ) : ℕ := (a + b) % 2 ^ 64

def sub64 (a b : ℕ) : ℕ := (a + (2 ^ 64 - b % 2 ^ 64)) % 2 ^ 64

/-- `gpu_record_get_duration` -/
def gpuRecordGetDuration64 (buf : GpuRecordsBuffer) : ℕ :=
  buf.data.foldl (fun total r => add64 total (sub64 r.finish r.start)) 0

/-- The loop over the kernels that may overlap with a memory operation up to `memEnd`, with `mem_excl` and `excl_start`. -/
def overlappingKernels64 (memEnd : ℕ) : ℕ → ℕ → List GpuRecord → ℕ × ℕ × List GpuRecord
  | memExcl, exclStart, [] => (memExcl, exclStart, [])
  | memExcl, exclStart, k :: rest =>
    if k.start < memEnd then
      let memExcl := if exclStart < k.start then add64 memExcl (sub64 k.start exclStart) else memExcl
      if memEnd ≤ k.finish then (memExcl, memEnd, k :: rest)
      else overlappingKernels64 memEnd memExcl k.finish rest
    else (memExcl, exclStart, k :: rest)

/-- The loop of `gpu_record_get_memory_exclusive_duration`, with `total_exclusive`. -/
def exclusiveLoop64 : ℕ → List GpuRecord → List GpuRecord → ℕ
  | totalExclusive, [], _ => totalExclusive
  | totalExclusive, m :: memRecords, kernelRecords =>
    let (memExcl, exclStart, kernels) :=
      overlappingKernels64 m.finish 0 m.start (kernelRecords.dropWhile fun k => k.finish ≤ m.start)
    let memExcl := if exclStart < m.finish then add64 memExcl (sub64 m.finish exclStart) else memExcl
    exclusiveLoop64 (add64 totalExclusive memExcl) memRecords kernels

/-- `gpu_record_get_memory_exclusive_duration` -/
def gpuRecordGetMemoryExclusiveDuration64 (memBuf kernelBuf : GpuRecordsBuffer) : ℕ :=
  exclusiveLoop64 0 memBuf.data kernelBuf.data

/-! ## What is expected -/

/-- The ticks in which some valid event goes on. -/
def ticks (events : List EventTimes) : Finset ℕ := cover (events.map EventTimes.record)

theorem mem_ticks {events : List EventTimes} {t : ℕ} :
    t ∈ ticks events ↔ ∃ e ∈ events, e.start < e.finish ∧ e.start.toNat ≤ t ∧ t < e.finish.toNat := by
  simp only [ticks, mem_cover, List.mem_map, exists_exists_and_eq_and, EventTimes.record, BitVec.lt_def]
  refine exists_congr fun e => and_congr_right fun _ => ?_
  omega

/-- A flattened buffer of events, and its duration. No other order of the events gives another one. -/
structure Flattened (events : List EventTimes) (buf : GpuRecordsBuffer) : Prop where
  nonempty : ∀ r ∈ buf.data, r.start < r.finish
  separated : Separated buf.data
  cover : cover buf.data = ticks events
  duration : gpuRecordGetDuration64 buf = (ticks events).card
  unordered : ∀ (qsort : Qsort) (events' : List EventTimes) (buf' : GpuRecordsBuffer), events'.Perm events →
    gpuRecordEvents events' = some buf' → (buf'.flatten qsort).data = buf.data

/-- What is computed of the memory operations and of the kernels of a device. -/
structure IntervalsExact (memory kernels : List EventTimes) (memBuf kernelBuf : GpuRecordsBuffer) : Prop where
  flattenedMemory : Flattened memory memBuf
  flattenedKernels : Flattened kernels kernelBuf
  exclusive : gpuRecordGetMemoryExclusiveDuration64 memBuf kernelBuf = (ticks memory \ ticks kernels).card
  activity : gpuRecordGetDuration64 kernelBuf + gpuRecordGetMemoryExclusiveDuration64 memBuf kernelBuf ≤
    (ticks memory ∪ ticks kernels).card

/-! ## The buffer -/

variable {buf : GpuRecordsBuffer} {events : List EventTimes} {l kernels : List GpuRecord}

theorem foldlM_appendEvent (hcapacity : 0 < buf.capacity) (hlimit : buf.data.length + events.length ≤ maxEvents) :
    ∃ buf', events.foldlM GpuRecordsBuffer.appendEvent buf = some buf' ∧
      buf'.data = buf.data ++ (events.map EventTimes.record).filter isValidRecord := by
  induction events generalizing buf with
  | nil => exact ⟨buf, rfl, by simp⟩
  | cons e events ih =>
    rw [List.length_cons] at hlimit
    obtain ⟨capacity, hpos, hensure⟩ : ∃ capacity, 0 < capacity ∧
        buf.ensureCapacity = some { buf with capacity := capacity } := by
      unfold GpuRecordsBuffer.ensureCapacity
      split
      · rw [if_neg (by omega)]
        exact ⟨_, by unfold maxEvents; omega, rfl⟩
      · exact ⟨buf.capacity, hcapacity, rfl⟩
    obtain ⟨data, hdata, hlength⟩ : ∃ data, gpuRecordAppendEvent id buf.data e.record = buf.data ++ data ∧
        data = [e.record].filter isValidRecord := by
      refine ⟨_, ?_, rfl⟩
      unfold gpuRecordAppendEvent
      by_cases hvalid : isValidRecord e.record <;> simp [hvalid]
    have hshort : data.length ≤ 1 := hlength ▸ List.length_filter_le _ _
    obtain ⟨buf', hfold, heq⟩ := @ih { data := buf.data ++ data, capacity := capacity } hpos (by simp; omega)
    refine ⟨buf', ?_, ?_⟩
    · rw [List.foldlM_cons, GpuRecordsBuffer.appendEvent, hensure, Option.map_some, hdata]
      exact hfold
    · rw [heq, hlength, List.append_assoc, ← List.filter_append]
      rfl

theorem gpuRecordEvents_eq (h : events.length ≤ maxEvents) : ∃ buf, gpuRecordEvents events = some buf ∧
    buf.data = (events.map EventTimes.record).filter isValidRecord := by
  have hlimit : gpuRecordInitBuffer.data.length + events.length ≤ maxEvents := by simpa [gpuRecordInitBuffer] using h
  obtain ⟨buf, hfold, heq⟩ := foldlM_appendEvent (by decide) hlimit
  exact ⟨buf, hfold, heq⟩

theorem cover_valid (events : List EventTimes) : cover ((events.map EventTimes.record).filter isValidRecord) = ticks events := by
  ext t
  simp only [ticks, mem_cover, List.mem_filter, isValidRecord, decide_eq_true_eq]
  exact ⟨fun ⟨r, ⟨hr, _⟩, h⟩ => ⟨r, hr, h⟩, fun ⟨r, hr, h⟩ => ⟨r, ⟨hr, by omega⟩, h⟩⟩

/-! ## The sums -/

theorem sub64_eq {a b : ℕ} (hle : b ≤ a) (ha : a < 2 ^ 64) : sub64 a b = a - b := by
  unfold sub64
  omega

/-- Both ends of a record are `uint64_t`. -/
def Within (l : List GpuRecord) : Prop := ∀ r ∈ l, r.start < 2 ^ 64 ∧ r.finish < 2 ^ 64

theorem add64_lt (a b : ℕ) : add64 a b < 2 ^ 64 := Nat.mod_lt _ (by decide)

theorem duration64_eq (hwithin : Within l) (hvalid : ∀ r ∈ l, r.start < r.finish) {total : ℕ} (ht : total < 2 ^ 64) :
    l.foldl (fun total r => add64 total (sub64 r.finish r.start)) total = (total + gpuRecordGetDuration l) % 2 ^ 64 := by
  induction l generalizing total with
  | nil => exact (Nat.mod_eq_of_lt ht).symm
  | cons r l ih =>
    obtain ⟨hr, hwithin⟩ := List.forall_mem_cons.mp hwithin
    obtain ⟨hlt, hvalid⟩ := List.forall_mem_cons.mp hvalid
    rw [List.foldl_cons, ih hwithin hvalid (add64_lt _ _), sub64_eq hlt.le hr.2]
    simp only [gpuRecordGetDuration, List.map_cons, List.sum_cons, length, add64]
    omega

theorem overlappingKernels64_eq (hwithin : Within kernels) {memEnd x e : ℕ} (hx : x < 2 ^ 64) :
    overlappingKernels64 memEnd x e kernels =
      ((x + (overlappingKernels memEnd e kernels).1) % 2 ^ 64, (overlappingKernels memEnd e kernels).2) := by
  induction kernels generalizing x e with
  | nil => rw [overlappingKernels64, overlappingKernels, Nat.add_zero, Nat.mod_eq_of_lt hx]
  | cons k rest ih =>
    obtain ⟨hk, hwithin⟩ := List.forall_mem_cons.mp hwithin
    have hstep : (if e < k.start then add64 x (sub64 k.start e) else x) =
        (x + if e < k.start then k.start - e else 0) % 2 ^ 64 := by
      split
      · next hlt => rw [add64, sub64_eq hlt.le hk.1]
      · rw [Nat.add_zero, Nat.mod_eq_of_lt hx]
    rw [overlappingKernels64, overlappingKernels]
    split
    · dsimp only
      rw [hstep]
      split
      · rfl
      · rw [ih hwithin (Nat.mod_lt _ (by decide))]
        rw [Nat.mod_add_mod, Nat.add_assoc]
    · rw [Nat.add_zero, Nat.mod_eq_of_lt hx]

theorem exclusiveLoop64_eq {mem : List GpuRecord} (hmem : Within mem) (hwithin : Within kernels) {total : ℕ} (ht : total < 2 ^ 64) :
    exclusiveLoop64 total mem kernels = (total + gpuRecordGetMemoryExclusiveDuration mem kernels) % 2 ^ 64 := by
  induction mem generalizing kernels total with
  | nil => rw [exclusiveLoop64, gpuRecordGetMemoryExclusiveDuration, Nat.add_zero, Nat.mod_eq_of_lt ht]
  | cons m mem ih =>
    obtain ⟨hm, hmem⟩ := List.forall_mem_cons.mp hmem
    have hsub := List.dropWhile_sublist (l := kernels) fun k : GpuRecord => decide (k.finish ≤ m.start)
    rw [exclusiveLoop64, gpuRecordGetMemoryExclusiveDuration]
    generalize kernels.dropWhile (fun k => decide (k.finish ≤ m.start)) = overlapping at *
    have hoverlapping : Within overlapping := fun k hk => hwithin k (hsub.subset hk)
    rw [overlappingKernels64_eq hoverlapping (by decide)]
    obtain ⟨ended, heq, -⟩ := overlappingKernels_suffix m.finish m.start overlapping
    generalize overlappingKernels m.finish m.start overlapping = found at *
    obtain ⟨excl, exclStart, rest⟩ := found
    have hrest : Within rest := fun k hk => hoverlapping k (heq ▸ List.mem_append_right ended hk)
    dsimp only
    rw [ih hmem hrest (add64_lt _ _)]
    split
    · next hlt =>
      rw [sub64_eq hlt.le hm.2]
      unfold add64
      omega
    · unfold add64
      omega

/-! ## All of it -/

theorem ticks_lt {t : ℕ} (h : t ∈ ticks events) : t < 2 ^ 64 - 1 := by
  obtain ⟨e, -, -, -, hlt⟩ := mem_ticks.mp h
  have := e.finish.isLt
  omega

theorem card_lt_of_subset_ticks {s : Finset ℕ} (h : s ⊆ ticks events) : s.card < 2 ^ 64 := by
  have hsub : s ⊆ Finset.range (2 ^ 64 - 1) := fun t ht => Finset.mem_range.mpr (ticks_lt (h ht))
  have hcard := Finset.card_le_card hsub
  rw [Finset.card_range] at hcard
  omega

theorem within_of_cover (hvalid : ∀ r ∈ l, r.start < r.finish) (hcover : cover l = ticks events) : Within l := fun r hr => by
  have hlt := hvalid r hr
  have hmem : r.finish - 1 ∈ cover l := mem_cover.mpr ⟨r, hr, by omega⟩
  have := ticks_lt (hcover ▸ hmem)
  omega

theorem flattened (qsort : Qsort) (hlimit : events.length ≤ maxEvents)
    (hbuf : buf.data = (events.map EventTimes.record).filter isValidRecord) :
    Flattened events (buf.flatten qsort) := by
  have hnonempty (qsort : Qsort) (events : List EventTimes) :
      ∀ r ∈ gpuRecordFlatten qsort ((events.map EventTimes.record).filter isValidRecord), r.start < r.finish :=
    valid_gpuRecordFlatten qsort fun r hr => of_decide_eq_true (List.mem_filter.mp hr).2
  have hcover (qsort : Qsort) (events : List EventTimes) :
      cover (gpuRecordFlatten qsort ((events.map EventTimes.record).filter isValidRecord)) = ticks events :=
    (cover_gpuRecordFlatten qsort _).trans (cover_valid events)
  have hdata : (buf.flatten qsort).data = gpuRecordFlatten qsort ((events.map EventTimes.record).filter isValidRecord) :=
    congrArg (gpuRecordFlatten qsort) hbuf
  refine ⟨hdata ▸ hnonempty qsort events, separated_gpuRecordFlatten qsort _, hdata ▸ hcover qsort events, ?_, ?_⟩
  · have hwithin := within_of_cover (hnonempty qsort events) (hcover qsort events)
    rw [gpuRecordGetDuration64, hdata, duration64_eq hwithin (hnonempty qsort events) (by decide), Nat.zero_add,
      duration_flatten, cover_valid, Nat.mod_eq_of_lt (card_lt_of_subset_ticks subset_rfl)]
  · intro qsort' events' buf' hperm hevents
    obtain ⟨buf'', hevents', hbuf'⟩ : ∃ buf'', gpuRecordEvents events' = some buf'' ∧
        buf''.data = (events'.map EventTimes.record).filter isValidRecord :=
      gpuRecordEvents_eq (hperm.length_eq.trans_le hlimit)
    obtain rfl : buf' = buf'' := Option.some.inj (hevents.symm.trans hevents')
    have hdata' := congrArg (gpuRecordFlatten qsort') hbuf'
    have hticks : ticks events' = ticks events := cover_congr fun r => (hperm.map EventTimes.record).mem_iff
    refine (hdata'.trans ?_).trans hdata.symm
    refine Separated.eq_of_cover (separated_gpuRecordFlatten qsort' _) (separated_gpuRecordFlatten qsort _)
      (hnonempty qsort' events') (hnonempty qsort events) ?_
    rw [hcover, hcover, hticks]

/-- **The times of a device**: all that the memory operations and the kernels of a device are reduced to, below the limit of
the events. -/
theorem interval_arithmetic_exact (qsort : Qsort) (memory kernels : List EventTimes) (hmemory : memory.length ≤ maxEvents)
    (hkernels : kernels.length ≤ maxEvents) :
    ∃ memBuf kernelBuf, gpuRecordEvents memory = some memBuf ∧ gpuRecordEvents kernels = some kernelBuf ∧
      IntervalsExact memory kernels (memBuf.flatten qsort) (kernelBuf.flatten qsort) := by
  obtain ⟨memBuf, hmemBuf, hmemData⟩ := gpuRecordEvents_eq hmemory
  obtain ⟨kernelBuf, hkernelBuf, hkernelData⟩ := gpuRecordEvents_eq hkernels
  have hmem := flattened qsort hmemory hmemData
  have hkernel := flattened qsort hkernels hkernelData
  have hexclusive : gpuRecordGetMemoryExclusiveDuration64 (memBuf.flatten qsort) (kernelBuf.flatten qsort) =
      (ticks memory \ ticks kernels).card := by
    rw [gpuRecordGetMemoryExclusiveDuration64, exclusiveLoop64_eq (within_of_cover hmem.nonempty hmem.cover)
      (within_of_cover hkernel.nonempty hkernel.cover) (by decide), Nat.zero_add, memoryExclusive_eq hmem.separated
      hmem.nonempty hkernel.separated hkernel.nonempty, hmem.cover, hkernel.cover]
    exact Nat.mod_eq_of_lt (card_lt_of_subset_ticks Finset.sdiff_subset)
  refine ⟨memBuf, kernelBuf, hmemBuf, hkernelBuf, hmem, hkernel, hexclusive, ?_⟩
  rw [hkernel.duration, hexclusive, ← Finset.card_union_of_disjoint Finset.disjoint_sdiff, Finset.union_sdiff_self_eq_union,
    Finset.union_comm]

/-- Memory operations that touch and that end where they start, and a kernel within. -/
theorem interval_arithmetic_exact_three : ∃ memBuf kernelBuf,
    gpuRecordEvents [⟨5, 9⟩, ⟨1, 5⟩, ⟨7, 7⟩] = some memBuf ∧ gpuRecordEvents [⟨2, 6⟩] = some kernelBuf ∧
      IntervalsExact [⟨5, 9⟩, ⟨1, 5⟩, ⟨7, 7⟩] [⟨2, 6⟩] (memBuf.flatten insertionQsort) (kernelBuf.flatten insertionQsort) :=
  interval_arithmetic_exact insertionQsort _ _ (by decide) (by decide)

end Dlb.Talp
