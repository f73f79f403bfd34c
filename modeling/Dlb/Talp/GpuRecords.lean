import Dlb.Lib.Intervals
import Dlb.Lib.Qsort

/-!
# Records of GPU activities

`gpu_record_utils.c`: the buffers of records, their flattening, and the two durations that a backend reports of a device.

* `cover_gpuRecordFlatten`, `separated_gpuRecordFlatten`: flattening keeps what the records cover, in separated records;
* `duration_flatten`: the duration is that of all records together, whatever their order and their overlaps;
* `exclusive_flatten`: the exclusive duration of memory operations is the time in which no kernel runs.
-/

namespace Dlb.Talp

open Lib Lib.Interval

/-- `gpu_record_t`. The field `end` is `finish`. -/
abbrev GpuRecord := Lib.Interval

/-- `compare_records` -/
def compareRecords (a b : GpuRecord) : ℤ := (if b.start < a.start then 1 else 0) - (if a.start < b.start then 1 else 0)

/-- `is_valid_record` -/
def isValidRecord (r : GpuRecord) : Bool := r.start < r.finish

/-- `gpu_record_append_event`, for elements that carry their records. -/
def gpuRecordAppendEvent {α : Type*} (record : α → GpuRecord) (buf : List α) (a : α) : List α :=
  if isValidRecord (record a) then buf ++ [a] else buf

/-- The merging loop of `gpu_record_flatten`, from the record at `new_i`. -/
def mergeRecords (last : GpuRecord) : List GpuRecord → List GpuRecord
  | [] => [last]
  | r :: rest =>
    if r.start ≤ last.finish then
      mergeRecords (if last.finish < r.finish then { last with finish := r.finish } else last) rest
    else last :: mergeRecords r rest

/-- `gpu_record_flatten` -/
def gpuRecordFlatten (qsort : Qsort) (buf : List GpuRecord) : List GpuRecord :=
  match qsort.sort compareRecords buf with
  | [] => []
  | r :: rest => mergeRecords r rest

/-- `gpu_record_get_duration` -/
def gpuRecordGetDuration (buf : List GpuRecord) : ℕ := (buf.map length).sum

/-- The loop over the kernels that may overlap with a memory operation up to `memEnd`: what lies before and between them,
from `exclStart`, where the rest starts, and the kernels from `k_i` on. -/
def overlappingKernels (memEnd : ℕ) : ℕ → List GpuRecord → ℕ × ℕ × List GpuRecord
  | exclStart, [] => (0, exclStart, [])
  | exclStart, k :: rest =>
    if k.start < memEnd then
      let before := if exclStart < k.start then k.start - exclStart else 0
      if memEnd ≤ k.finish then (before, memEnd, k :: rest)
      else
        let (excl, exclStart, kernels) := overlappingKernels memEnd k.finish rest
        (before + excl, exclStart, kernels)
    else (0, exclStart, k :: rest)

/-- `gpu_record_get_memory_exclusive_duration` -/
def gpuRecordGetMemoryExclusiveDuration : List GpuRecord → List GpuRecord → ℕ
  | [], _ => 0
  | m :: memBuf, kernelBuf =>
    let (memExcl, exclStart, kernels) :=
      overlappingKernels m.finish m.start (kernelBuf.dropWhile fun k => k.finish ≤ m.start)
    memExcl + (if exclStart < m.finish then m.finish - exclStart else 0) +
      gpuRecordGetMemoryExclusiveDuration memBuf kernels

/-! ## Flattening -/

variable {last m k : GpuRecord} {l kernels mem : List GpuRecord} {t : ℕ}

theorem compareRecords_nonpos {a b : GpuRecord} : compareRecords a b ≤ 0 ↔ a.start ≤ b.start := by
  unfold compareRecords
  split <;> split <;> omega

theorem sort_compareRecords (qsort : Qsort) (l : List GpuRecord) :
    (qsort.sort compareRecords l).Pairwise fun a b => a.start ≤ b.start := by
  refine (qsort.sorted compareRecords l ?_).imp compareRecords_nonpos.mp
  constructor
  · intro a _ b _
    rw [compareRecords_nonpos, compareRecords_nonpos]
    exact Nat.le_total _ _
  · intro a _ b _ c _
    simp only [compareRecords_nonpos]
    exact Nat.le_trans

theorem grown_eq (last r : GpuRecord) : (if last.finish < r.finish then { last with finish := r.finish } else last) =
    { start := last.start, finish := max last.finish r.finish } := by
  split
  · rw [Nat.max_eq_right (by omega)]
  · rw [Nat.max_eq_left (by omega)]

theorem start_le_mergeRecords (hl : ∀ r ∈ l, last.start ≤ r.start) (hsorted : l.Pairwise fun a b => a.start ≤ b.start) :
    ∀ r ∈ mergeRecords last l, last.start ≤ r.start := by
  induction l generalizing last with
  | nil => simp [mergeRecords]
  | cons x l ih =>
    obtain ⟨hx, hl⟩ := List.forall_mem_cons.mp hl
    obtain ⟨hxl, hsorted⟩ := List.pairwise_cons.mp hsorted
    rw [mergeRecords]
    split
    · rw [grown_eq]
      exact ih hl hsorted
    · intro r hr
      rcases List.mem_cons.mp hr with rfl | hr
      · exact Nat.le_refl _
      · exact Nat.le_trans hx (ih hxl hsorted r hr)

theorem cover_mergeRecords (hl : ∀ r ∈ l, last.start ≤ r.start) (hsorted : l.Pairwise fun a b => a.start ≤ b.start) :
    cover (mergeRecords last l) = cover (last :: l) := by
  induction l generalizing last with
  | nil => rfl
  | cons x l ih =>
    obtain ⟨hx, hl⟩ := List.forall_mem_cons.mp hl
    obtain ⟨hxl, hsorted⟩ := List.pairwise_cons.mp hsorted
    rw [mergeRecords]
    split
    · next htouch =>
      have hgrown : cover (mergeRecords { start := last.start, finish := max last.finish x.finish } l) =
          cover ({ start := last.start, finish := max last.finish x.finish } :: l) := ih hl hsorted
      rw [grown_eq, hgrown, cover_cons, cover_cons, cover_cons, ← Finset.union_assoc, points_union hx htouch]
    · rw [cover_cons, ih hxl hsorted]
      rfl

theorem separated_mergeRecords (hl : ∀ r ∈ l, last.start ≤ r.start)
    (hsorted : l.Pairwise fun a b => a.start ≤ b.start) : Separated (mergeRecords last l) := by
  induction l generalizing last with
  | nil => exact List.pairwise_singleton _ _
  | cons x l ih =>
    obtain ⟨hx, hl⟩ := List.forall_mem_cons.mp hl
    obtain ⟨hxl, hsorted⟩ := List.pairwise_cons.mp hsorted
    rw [mergeRecords]
    split
    · rw [grown_eq]
      exact ih hl hsorted
    · next hgap =>
      refine List.pairwise_cons.mpr ⟨fun r hr => ?_, ih hxl hsorted⟩
      exact Nat.lt_of_lt_of_le (Nat.not_le.mp hgap) (start_le_mergeRecords hxl hsorted r hr)

theorem valid_mergeRecords (hlast : last.start < last.finish) (hl : ∀ r ∈ l, r.start < r.finish) :
    ∀ r ∈ mergeRecords last l, r.start < r.finish := by
  induction l generalizing last with
  | nil => simpa [mergeRecords] using hlast
  | cons x l ih =>
    obtain ⟨hx, hl⟩ := List.forall_mem_cons.mp hl
    rw [mergeRecords]
    split
    · rw [grown_eq]
      exact ih (Nat.lt_of_lt_of_le hlast (Nat.le_max_left _ _)) hl
    · exact List.forall_mem_cons.mpr ⟨hlast, ih hx hl⟩

theorem cover_gpuRecordFlatten (qsort : Qsort) (l : List GpuRecord) : cover (gpuRecordFlatten qsort l) = cover l := by
  have hsorted := sort_compareRecords qsort l
  have hcover : cover (qsort.sort compareRecords l) = cover l := cover_congr fun _ => (qsort.perm compareRecords l).mem_iff
  unfold gpuRecordFlatten
  cases hsort : qsort.sort compareRecords l with
  | nil => rw [← hcover, hsort]
  | cons r rest =>
    rw [hsort] at hsorted hcover
    obtain ⟨hr, hrest⟩ := List.pairwise_cons.mp hsorted
    exact (cover_mergeRecords hr hrest).trans hcover

theorem separated_gpuRecordFlatten (qsort : Qsort) (l : List GpuRecord) : Separated (gpuRecordFlatten qsort l) := by
  have hsorted := sort_compareRecords qsort l
  unfold gpuRecordFlatten
  cases hsort : qsort.sort compareRecords l with
  | nil => exact List.Pairwise.nil
  | cons r rest =>
    rw [hsort] at hsorted
    obtain ⟨hr, hrest⟩ := List.pairwise_cons.mp hsorted
    exact separated_mergeRecords hr hrest

theorem valid_gpuRecordFlatten (qsort : Qsort) (hl : ∀ r ∈ l, r.start < r.finish) :
    ∀ r ∈ gpuRecordFlatten qsort l, r.start < r.finish := by
  have hvalid : ∀ r ∈ qsort.sort compareRecords l, r.start < r.finish := fun r hr =>
    hl r ((qsort.perm compareRecords l).mem_iff.mp hr)
  unfold gpuRecordFlatten
  cases hsort : qsort.sort compareRecords l with
  | nil => simp
  | cons r rest =>
    rw [hsort] at hvalid
    obtain ⟨hr, hrest⟩ := List.forall_mem_cons.mp hvalid
    exact valid_mergeRecords hr hrest

theorem duration_flatten (qsort : Qsort) (l : List GpuRecord) :
    gpuRecordGetDuration (gpuRecordFlatten qsort l) = (cover l).card := by
  rw [gpuRecordGetDuration, sum_length (separated_gpuRecordFlatten qsort l), cover_gpuRecordFlatten]

/-! ## Exclusive time -/

theorem sdiff_cover_append {s : Finset ℕ} (hl : ∀ k ∈ l, ∀ t ∈ s, k.finish ≤ t) :
    s \ cover (l ++ kernels) = s \ cover kernels := by
  ext t
  simp only [Finset.mem_sdiff, mem_cover, List.mem_append]
  refine and_congr_right fun ht => not_congr ⟨?_, fun ⟨k, hk, h⟩ => ⟨k, .inr hk, h⟩⟩
  rintro ⟨k, hk | hk, h⟩
  · exact absurd (hl k hk t ht) (Nat.not_le.mpr h.2)
  · exact ⟨k, hk, h⟩

theorem overlappingKernels_card {memEnd e : ℕ} (he : e ≤ memEnd) (hseparated : Separated kernels)
    (hvalid : ∀ k ∈ kernels, k.start < k.finish) (hlater : ∀ k ∈ kernels, e ≤ k.finish) :
    (overlappingKernels memEnd e kernels).1 + (memEnd - (overlappingKernels memEnd e kernels).2.1) =
      (Finset.Ico e memEnd \ cover kernels).card := by
  induction kernels generalizing e with
  | nil => simp [overlappingKernels]
  | cons k rest ih =>
    obtain ⟨hnext, hrest⟩ := List.pairwise_cons.mp hseparated
    obtain ⟨hk, hvalid⟩ := List.forall_mem_cons.mp hvalid
    have hek : e ≤ k.finish := hlater k List.mem_cons_self
    have hbehind : ∀ t ∈ cover rest, k.finish < t := fun t ht => by
      obtain ⟨k', hk', hle, -⟩ := mem_cover.mp ht
      exact Nat.lt_of_lt_of_le (hnext k' hk') hle
    have hbefore : (if e < k.start then k.start - e else 0) = (Finset.Ico e k.start).card := by
      rw [Nat.card_Ico]
      split <;> omega
    rw [overlappingKernels]
    split
    · next hstart =>
      rw [hbefore]
      split
      · next hend =>
        have hset : Finset.Ico e memEnd \ cover (k :: rest) = Finset.Ico e k.start := by
          ext t
          have := hbehind t
          simp only [cover_cons, Finset.mem_sdiff, Finset.mem_union, mem_points, Finset.mem_Ico, not_or]
          constructor
          · omega
          · exact fun h => ⟨by omega, by omega, fun ht => by have := hbehind t ht; omega⟩
        rw [hset, Nat.sub_self, Nat.add_zero]
      · next hend =>
        have hset : Finset.Ico e memEnd \ cover (k :: rest) =
            Finset.Ico e k.start ∪ (Finset.Ico k.finish memEnd \ cover rest) := by
          ext t
          simp only [cover_cons, Finset.mem_sdiff, Finset.mem_union, mem_points, Finset.mem_Ico, not_or]
          constructor
          · intro h
            by_cases ht : t < k.start
            · exact .inl ⟨h.1.1, ht⟩
            · exact .inr ⟨by omega, h.2.2⟩
          · rintro (h | h)
            · exact ⟨by omega, by omega, fun ht => by have := hbehind t ht; omega⟩
            · exact ⟨by omega, by omega, h.2⟩
        have hdisjoint : Disjoint (Finset.Ico e k.start) (Finset.Ico k.finish memEnd \ cover rest) := by
          refine Finset.disjoint_left.mpr fun t ht ht' => ?_
          have h1 := Finset.mem_Ico.mp ht
          have h2 := Finset.mem_Ico.mp (Finset.mem_sdiff.mp ht').1
          omega
        have hlater' : ∀ k' ∈ rest, k.finish ≤ k'.finish := fun k' hk' => by
          have := hnext k' hk'
          have := hvalid k' hk'
          omega
        rw [hset, Finset.card_union_of_disjoint hdisjoint, ← ih (by omega) hrest hvalid hlater', Nat.add_assoc]
    · next hstart =>
      have hset : Finset.Ico e memEnd \ cover (k :: rest) = Finset.Ico e memEnd := by
        refine Finset.sdiff_eq_self_of_disjoint (Finset.disjoint_left.mpr fun t ht hcover => ?_)
        have := Finset.mem_Ico.mp ht
        rcases Finset.mem_union.mp hcover with h | h
        · have := mem_points.mp h
          omega
        · have := hbehind t h
          omega
      rw [hset, Nat.card_Ico, Nat.zero_add]

theorem overlappingKernels_suffix (memEnd e : ℕ) (kernels : List GpuRecord) :
    ∃ ended, kernels = ended ++ (overlappingKernels memEnd e kernels).2.2 ∧ ∀ k ∈ ended, k.finish ≤ memEnd := by
  induction kernels generalizing e with
  | nil => exact ⟨[], rfl, nofun⟩
  | cons k rest ih =>
    rw [overlappingKernels]
    split
    · dsimp only
      split
      · exact ⟨[], rfl, nofun⟩
      · next hend =>
        obtain ⟨ended, heq, hended⟩ := ih k.finish
        exact ⟨k :: ended, congrArg (k :: ·) heq, List.forall_mem_cons.mpr ⟨by omega, hended⟩⟩
    · exact ⟨[], rfl, nofun⟩

theorem skipKernels (start : ℕ) (hseparated : Separated kernels) (hvalid : ∀ k ∈ kernels, k.start < k.finish) :
    ∃ ended, kernels = ended ++ kernels.dropWhile (fun k => k.finish ≤ start) ∧ (∀ k ∈ ended, k.finish ≤ start) ∧
      ∀ k ∈ kernels.dropWhile fun k => k.finish ≤ start, start ≤ k.finish := by
  induction kernels with
  | nil => exact ⟨[], rfl, nofun, nofun⟩
  | cons k rest ih =>
    obtain ⟨hnext, hrest⟩ := List.pairwise_cons.mp hseparated
    obtain ⟨hk, hvalid⟩ := List.forall_mem_cons.mp hvalid
    obtain ⟨ended, heq, hended, hlater⟩ := ih hrest hvalid
    by_cases hskip : k.finish ≤ start
    · rw [List.dropWhile_cons_of_pos (by simpa using hskip)]
      exact ⟨k :: ended, congrArg (k :: ·) heq, List.forall_mem_cons.mpr ⟨hskip, hended⟩, hlater⟩
    · rw [List.dropWhile_cons_of_neg (by simpa using hskip)]
      refine ⟨[], rfl, nofun, List.forall_mem_cons.mpr ⟨by omega, fun k' hk' => ?_⟩⟩
      have := hnext k' hk'
      have := hvalid k' hk'
      omega

theorem memoryExclusive_eq (hmem : Separated mem) (hmemValid : ∀ m ∈ mem, m.start < m.finish)
    (hkernels : Separated kernels) (hvalid : ∀ k ∈ kernels, k.start < k.finish) :
    gpuRecordGetMemoryExclusiveDuration mem kernels = (cover mem \ cover kernels).card := by
  induction mem generalizing kernels with
  | nil => simp [gpuRecordGetMemoryExclusiveDuration]
  | cons m mem ih =>
    obtain ⟨hnext, hmem'⟩ := List.pairwise_cons.mp hmem
    obtain ⟨hm, hmemValid⟩ := List.forall_mem_cons.mp hmemValid
    obtain ⟨skipped, hskip, hskipped, hlater⟩ := skipKernels m.start hkernels hvalid
    have hsub := List.dropWhile_sublist (l := kernels) fun k : GpuRecord => decide (k.finish ≤ m.start)
    rw [gpuRecordGetMemoryExclusiveDuration]
    generalize kernels.dropWhile (fun k => decide (k.finish ≤ m.start)) = overlapping at *
    have hseparated : Separated overlapping := hkernels.sublist hsub
    have hcard := overlappingKernels_card (Nat.le_of_lt hm) hseparated (fun k hk => hvalid k (hsub.subset hk)) hlater
    obtain ⟨ended, heq, hended⟩ := overlappingKernels_suffix m.finish m.start overlapping
    generalize overlappingKernels m.finish m.start overlapping = found at *
    obtain ⟨excl, exclStart, rest⟩ := found
    dsimp only at hcard heq ⊢
    have hfirst : m.points \ cover kernels = Finset.Ico m.start m.finish \ cover overlapping := by
      rw [hskip]
      exact sdiff_cover_append fun k hk t ht => Nat.le_trans (hskipped k hk) (Finset.mem_Ico.mp ht).1
    have hothers : cover mem \ cover kernels = cover mem \ cover rest := by
      have hafter : ∀ t ∈ cover mem, m.finish ≤ t := fun t ht => by
        obtain ⟨m', hm', hle, -⟩ := mem_cover.mp ht
        exact Nat.le_trans (Nat.le_of_lt (hnext m' hm')) hle
      rw [hskip, heq, ← List.append_assoc]
      refine sdiff_cover_append fun k hk t ht => ?_
      rcases List.mem_append.mp hk with h | h
      · exact Nat.le_trans (Nat.le_trans (hskipped k h) (Nat.le_of_lt hm)) (hafter t ht)
      · exact Nat.le_trans (hended k h) (hafter t ht)
    have hrest : List.Sublist rest kernels := (heq ▸ List.sublist_append_right ended rest).trans hsub
    have hexcl := ih hmem' hmemValid (hkernels.sublist hrest) fun k hk => hvalid k (hrest.subset hk)
    have hdisjoint : Disjoint (m.points \ cover kernels) (cover mem \ cover kernels) :=
      hmem.disjoint.mono Finset.sdiff_subset Finset.sdiff_subset
    rw [cover_cons, Finset.union_sdiff_distrib, Finset.card_union_of_disjoint hdisjoint, hfirst, ← hcard, hothers, ← hexcl]
    split <;> omega

theorem exclusive_flatten (qsort : Qsort) (hmem : ∀ m ∈ mem, m.start < m.finish)
    (hkernels : ∀ k ∈ kernels, k.start < k.finish) :
    gpuRecordGetMemoryExclusiveDuration (gpuRecordFlatten qsort mem) (gpuRecordFlatten qsort kernels) =
      (cover mem \ cover kernels).card := by
  rw [memoryExclusive_eq (separated_gpuRecordFlatten qsort mem) (valid_gpuRecordFlatten qsort hmem)
    (separated_gpuRecordFlatten qsort kernels) (valid_gpuRecordFlatten qsort hkernels), cover_gpuRecordFlatten,
    cover_gpuRecordFlatten]

theorem durations_flatten (qsort : Qsort) (hmem : ∀ m ∈ mem, m.start < m.finish)
    (hkernels : ∀ k ∈ kernels, k.start < k.finish) :
    gpuRecordGetDuration (gpuRecordFlatten qsort kernels) +
      gpuRecordGetMemoryExclusiveDuration (gpuRecordFlatten qsort mem) (gpuRecordFlatten qsort kernels) =
        (cover (kernels ++ mem)).card := by
  have hunion : cover (kernels ++ mem) = cover kernels ∪ cover mem := by
    ext t
    simp only [mem_cover, Finset.mem_union, List.mem_append, or_and_right, exists_or]
  rw [duration_flatten, exclusive_flatten qsort hmem hkernels, hunion, ← Finset.union_sdiff_self_eq_union,
    Finset.card_union_of_disjoint Finset.disjoint_sdiff]

end Dlb.Talp
