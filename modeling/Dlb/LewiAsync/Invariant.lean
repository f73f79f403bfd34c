import Dlb.Support.QueuesSpec
import Dlb.LewiAsync.Shmem

/-!
# The invariant of the LeWI-async shared memory

`Good d s` says that the table and the queue of `s` are well formed and that `d` CPUs are in the hands of the running
operation: idle CPUs, CPUs of the processes and these `d` make up the CPUs that the processes started with. An
operation takes CPUs in hand (`subNcpus_good`, `idle_sub_good`) and gives them away again (`addNcpus_good`,
`idle_add_good`); between operations the hand is empty.
-/

namespace Dlb.LewiAsync

open Finset (range)

def current (s : Shdata) : ℕ := ∑ i ∈ range s.procListHead, (s.processes i).currentNcpus

def initial (s : Shdata) : ℕ := ∑ i ∈ range s.procListHead, (s.processes i).initialNcpus

def registered (s : Shdata) : Finset ℕ := (range s.procListHead).filter fun i => (s.processes i).pid ≠ 0

/-- Well-formed shared memory with `d` CPUs in hand. -/
structure Good (d : ℕ) (s : Shdata) : Prop where
  beyond : ∀ i, s.procListHead ≤ i → (s.processes i).pid = 0
  empty : ∀ i, (s.processes i).pid = 0 → s.processes i = {}
  distinct : ∀ i j, (s.processes i).pid ≠ 0 → (s.processes i).pid = (s.processes j).pid → i = j
  queued : ∀ p ∈ pids s.requests, p ≠ 0 ∧ ∃ i, (s.processes i).pid = p
  nodup : (pids s.requests).Nodup
  attached : s.attachedNprocs = (registered s).card
  conserved : s.idleCpus + current s + d = initial s
  fits : initial s < 2 ^ 32

section Lookup

variable {d : ℕ} {s : Shdata} {i : ℕ}

theorem Good.lt_head (g : Good d s) (hi : (s.processes i).pid ≠ 0) : i < s.procListHead := by
  by_contra h
  exact hi (g.beyond i (by omega))

theorem mem_registered (g : Good d s) : i ∈ registered s ↔ (s.processes i).pid ≠ 0 := by
  simp only [registered, Finset.mem_filter, Finset.mem_range, and_iff_right_iff_imp]
  exact g.lt_head

theorem Good.getProcess (g : Good d s) (c : Caller) (hi : (s.processes i).pid ≠ 0) :
    getProcess c s (s.processes i).pid = some i := by
  have hu : ∀ j, (s.processes j).pid = (s.processes i).pid → j = i := fun j hj =>
    (g.distinct i j hi hj.symm).symm
  have hscan : Lib.scan s.procListHead (fun p => (s.processes p).pid = (s.processes i).pid) = some i :=
    Lib.scan_of_unique (g.lt_head hi) (by simp) fun j hj => hu j (by simpa using hj)
  unfold LewiAsync.getProcess
  cases c.myProcess with
  | none => simp only [hscan]
  | some k =>
    by_cases hk : (s.processes k).pid = (s.processes i).pid
    · simp only [if_true, hu k hk]
    · simp only [hk, if_false, hscan]

theorem getProcess_pid {c : Caller} {pid : Pid} (h : getProcess c s pid = some i) : (s.processes i).pid = pid := by
  unfold LewiAsync.getProcess at h
  have hscan : Lib.scan s.procListHead (fun p => (s.processes p).pid = pid) = some i →
      (s.processes i).pid = pid := fun e => by simpa using (Lib.scan_some e).2.1
  cases hc : c.myProcess with
  | none => exact hscan (by simpa [hc] using h)
  | some k =>
    simp only [hc] at h
    split at h
    · rename_i hk; rw [← Option.some.inj h]; exact hk
    · exact hscan h

theorem Good.current_le (g : Good d s) (hi : (s.processes i).pid ≠ 0) : (s.processes i).currentNcpus ≤ current s :=
  Lib.le_sum (fun i => (s.processes i).currentNcpus) (g.lt_head hi)

theorem Good.initial_le (g : Good d s) (hi : (s.processes i).pid ≠ 0) : (s.processes i).initialNcpus ≤ initial s :=
  Lib.le_sum (fun i => (s.processes i).initialNcpus) (g.lt_head hi)

end Lookup

/-! ## Writing the CPUs of one process -/

/-- Slot `i` with `n` CPUs. -/
def Shdata.setNcpus (s : Shdata) (i n : ℕ) : Shdata := s.set i { s.processes i with currentNcpus := n }

theorem addNcpus_eq (s : Shdata) (i n : ℕ) : s.addNcpus i n = s.setNcpus i (addU32 (s.processes i).currentNcpus n) :=
  rfl

theorem subNcpus_eq (s : Shdata) (i n : ℕ) : s.subNcpus i n = s.setNcpus i ((s.processes i).currentNcpus - n) := rfl

section Frame

variable (s : Shdata) (i n : ℕ)

@[simp] theorem setNcpus_idle : (s.setNcpus i n).idleCpus = s.idleCpus := rfl
@[simp] theorem setNcpus_requests : (s.setNcpus i n).requests = s.requests := rfl
@[simp] theorem setNcpus_head : (s.setNcpus i n).procListHead = s.procListHead := rfl
@[simp] theorem setNcpus_attached : (s.setNcpus i n).attachedNprocs = s.attachedNprocs := rfl

@[simp] theorem setNcpus_pid (j : ℕ) : ((s.setNcpus i n).processes j).pid = (s.processes j).pid := by
  by_cases h : j = i <;> simp [Shdata.setNcpus, Shdata.set, h]

@[simp] theorem setNcpus_initialNcpus (j : ℕ) :
    ((s.setNcpus i n).processes j).initialNcpus = (s.processes j).initialNcpus := by
  by_cases h : j = i <;> simp [Shdata.setNcpus, Shdata.set, h]

@[simp] theorem setNcpus_currentNcpus (j : ℕ) :
    ((s.setNcpus i n).processes j).currentNcpus = if j = i then n else (s.processes j).currentNcpus := by
  by_cases h : j = i <;> simp [Shdata.setNcpus, Shdata.set, h]

@[simp] theorem setNcpus_initial : initial (s.setNcpus i n) = initial s := by simp [initial]

@[simp] theorem setNcpus_registered : registered (s.setNcpus i n) = registered s := by simp [registered]

variable {s i n}

theorem setNcpus_current (hi : i < s.procListHead) :
    current (s.setNcpus i n) + (s.processes i).currentNcpus = current s + n :=
  Lib.sum_update s.processes (·.currentNcpus) i { s.processes i with currentNcpus := n } hi

end Frame

section Hand

variable {d : ℕ} {s : Shdata} {i n : ℕ}

theorem setNcpus_good {d' : ℕ} (g : Good d s) (hi : (s.processes i).pid ≠ 0)
    (hd : s.idleCpus + current (s.setNcpus i n) + d' = initial s) : Good d' (s.setNcpus i n) where
  beyond j hj := by simpa using g.beyond j hj
  empty j hj := by
    rw [setNcpus_pid] at hj
    have hne : j ≠ i := by rintro rfl; exact hi hj
    simpa [Shdata.setNcpus, Shdata.set, Function.update_of_ne hne] using g.empty j hj
  distinct j k hj hjk := by simp only [setNcpus_pid] at hj hjk; exact g.distinct j k hj hjk
  queued p hp := by simpa using g.queued p hp
  nodup := g.nodup
  attached := by simpa using g.attached
  conserved := by simpa using hd
  fits := by simpa using g.fits

theorem subNcpus_good (g : Good d s) (hi : (s.processes i).pid ≠ 0) (hn : n ≤ (s.processes i).currentNcpus) :
    Good (d + n) (s.subNcpus i n) := by
  refine setNcpus_good g hi ?_
  have h1 := setNcpus_current (n := (s.processes i).currentNcpus - n) (g.lt_head hi)
  have h2 := g.conserved
  omega

theorem Good.add_fits (g : Good (d + n) s) (hi : (s.processes i).pid ≠ 0) :
    addU32 (s.processes i).currentNcpus n = (s.processes i).currentNcpus + n := by
  have h1 := g.current_le hi
  have h2 := g.conserved
  have h3 := g.fits
  exact addU32_of_lt (by omega)

theorem addNcpus_good (g : Good (d + n) s) (hi : (s.processes i).pid ≠ 0) : Good d (s.addNcpus i n) := by
  rw [addNcpus_eq, g.add_fits hi]
  refine setNcpus_good g hi ?_
  have h1 := setNcpus_current (n := (s.processes i).currentNcpus + n) (g.lt_head hi)
  have h2 := g.conserved
  omega

theorem idle_add_good (g : Good (d + n) s) : Good d { s with idleCpus := addU32 s.idleCpus n } := by
  have h1 := g.conserved
  have h2 := g.fits
  have h3 : addU32 s.idleCpus n = s.idleCpus + n := addU32_of_lt (by omega)
  rw [h3]
  refine ⟨g.beyond, g.empty, g.distinct, g.queued, g.nodup, g.attached, ?_, g.fits⟩
  show s.idleCpus + n + current s + d = initial s
  omega

theorem idle_sub_good (g : Good d s) (hn : n ≤ s.idleCpus) : Good (d + n) { s with idleCpus := s.idleCpus - n } := by
  have h1 := g.conserved
  refine ⟨g.beyond, g.empty, g.distinct, g.queued, g.nodup, g.attached, ?_, g.fits⟩
  show s.idleCpus - n + current s + (d + n) = initial s
  omega

theorem requests_good {queue : List LewiRequest} (g : Good d s) (hn : (pids queue).Nodup)
    (hq : ∀ p ∈ pids queue, p ≠ 0 ∧ ∃ i, (s.processes i).pid = p) : Good d { s with requests := queue } :=
  ⟨g.beyond, g.empty, g.distinct, hq, hn, g.attached, g.conserved, g.fits⟩

theorem Good.requests_length (g : Good d s) : s.requests.length ≤ (registered s).card := by
  have hsub : (pids s.requests).toFinset ⊆ (registered s).image fun i => (s.processes i).pid := by
    intro p hp
    obtain ⟨hp0, i, hi⟩ := g.queued p (List.mem_toFinset.mp hp)
    exact Finset.mem_image.mpr ⟨i, (mem_registered g).mpr (by rw [hi]; exact hp0), hi⟩
  calc s.requests.length = (pids s.requests).toFinset.card := by
        rw [List.toFinset_card_of_nodup g.nodup, pids, List.length_map]
    _ ≤ ((registered s).image fun i => (s.processes i).pid).card := Finset.card_le_card hsub
    _ ≤ (registered s).card := Finset.card_image_le

theorem Good.room (g : Good d s) (hr : (registered s).card < queueLewiReqsCapacity) (hi : (s.processes i).pid ≠ 0) :
    (s.processes i).pid ∈ pids s.requests ∨ s.requests.length < queueLewiReqsCapacity - 1 := by
  by_cases hm : (s.processes i).pid ∈ pids s.requests
  · exact Or.inl hm
  · right
    have hsub : insert (s.processes i).pid (pids s.requests).toFinset ⊆
        (registered s).image fun i => (s.processes i).pid := by
      intro p hp
      rcases Finset.mem_insert.mp hp with rfl | hp
      · exact Finset.mem_image.mpr ⟨i, (mem_registered g).mpr hi, rfl⟩
      · obtain ⟨hp0, j, hj⟩ := g.queued p (List.mem_toFinset.mp hp)
        exact Finset.mem_image.mpr ⟨j, (mem_registered g).mpr (by rw [hj]; exact hp0), hj⟩
    have hcard := (Finset.card_le_card hsub).trans Finset.card_image_le
    rw [Finset.card_insert_of_notMem (by simpa using hm), List.toFinset_card_of_nodup g.nodup, pids,
      List.length_map] at hcard
    omega

theorem push_good (g : Good d s) (hr : (registered s).card < queueLewiReqsCapacity) (hi : (s.processes i).pid ≠ 0)
    (hn : 0 < n) : Good d { s with requests := (queueLewiReqsPush s.requests (s.processes i).pid n).2 } := by
  obtain ⟨-, hnd, hmem⟩ := push_spec g.nodup hi hn (g.room hr hi)
  refine requests_good g hnd fun p hp => ?_
  rcases (hmem p).mp hp with h | rfl
  · exact g.queued p h
  · exact ⟨hi, i, rfl⟩

theorem remove_good {pid : Pid} (g : Good d s) (hp : pid ≠ 0) :
    Good d { s with requests := (queueLewiReqsRemove s.requests pid).2 } := by
  obtain ⟨-, hnd, hmem⟩ := remove_spec g.nodup hp
  refine requests_good g hnd fun p hp => ?_
  obtain ⟨r, hr, rfl⟩ := List.mem_map.mp hp
  exact g.queued _ (mem_pids ((hmem r).mp hr).1)

end Hand

end Dlb.LewiAsync
