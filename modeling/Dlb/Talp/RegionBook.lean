import Dlb.Talp.Aggregation
import Mathlib.Algebra.BigOperators.Group.Multiset.Basic

/-!
# The books of the regions

What the regions have received from each thread, without the samples: the monitors, the open regions, the beginning of
the current generation and the accounts of the threads. One event of a run is one step here (`BookStep`).

A region owes a thread (`debt`) what it has measured, up to the beginning of the generation, and has not received. No
step changes the debt of a thread that is there already, and a region that is reset owes nothing.
-/

namespace Dlb.Talp

open List Function

structure RegionBook (τ ρ : Type*) where
  threads : List τ
  monitors : ρ → Monitor
  openRegions : List ρ
  generation : ℤ
  account : τ → ρ → ℤ

namespace RegionBook

variable {τ ρ : Type*} [DecidableEq τ] [DecidableEq ρ] (b : RegionBook τ ρ) (r : ρ)

/-- The time that a region has measured and a thread has not given to it. -/
def debt (u : τ) : ℤ :=
  (b.monitors r).elapsedTime + (if r ∈ b.openRegions then b.generation - (b.monitors r).startTime else 0) -
    b.account u r

/-- The accounts of all threads are the time of the region. -/
def Balanced : Prop := (b.monitors r).threadTime = (b.threads.map fun u => b.account u r).sum

/-- A region is opened at the beginning of the generation. -/
def push : RegionBook τ ρ :=
  { b with
    openRegions := r :: b.openRegions
    monitors := update b.monitors r
      { b.monitors r with
        startTime := b.generation, stopTime := 0, data := { (b.monitors r).data with started := true } } }

/-- A region is closed at the beginning of the generation. -/
def pop : RegionBook τ ρ :=
  { b with
    openRegions := b.openRegions.erase r
    monitors := update b.monitors r
      { b.monitors r with
        stopTime := b.generation
        elapsedTime := (b.monitors r).elapsedTime + (b.generation - (b.monitors r).startTime)
        numMeasurements := (b.monitors r).numMeasurements + 1
        data := { (b.monitors r).data with started := false } } }

def reset (numResets : ℕ) (data : MonitorData) : RegionBook τ ρ :=
  { b with
    openRegions := b.openRegions.erase r
    monitors := update b.monitors r { numResets := numResets, data := data }
    account := fun u r' => if r' = r then 0 else b.account u r' }

/-- A thread is created, with the time `initialTs` in its sample. -/
def enroll (t : τ) (initialTs : ℤ) : RegionBook τ ρ :=
  { b with
    threads := b.threads ++ [t]
    monitors := fun r =>
      if r ∈ b.openRegions.tail then
        { b.monitors r with
          ompSerializationTime := (b.monitors r).ompSerializationTime + (initialTs - (b.monitors r).startTime) }
      else b.monitors r
    account := fun u r =>
      if u = t then if r ∈ b.openRegions.tail then initialTs - (b.monitors r).startTime else 0
      else b.account u r }

end RegionBook

variable {τ ρ : Type*} [DecidableEq τ] [DecidableEq ρ]

/-- The open regions receive what every thread gives, and a generation begins. If a region is open, it is all the time
of the last generation. -/
structure Collected (b b' : RegionBook τ ρ) : Prop where
  threads : b'.threads = b.threads
  openRegions : b'.openRegions = b.openRegions
  given : ∃ given : τ → ℤ,
    (∀ u r, b'.account u r = b.account u r + if r ∈ b.openRegions then given u else 0) ∧
    (∀ r ∈ b.openRegions,
      (b'.monitors r).threadTime = (b.monitors r).threadTime + (b.threads.map given).sum) ∧
    (b.openRegions ≠ [] → ∀ u ∈ b.threads, given u = b'.generation - b.generation)
  closed : ∀ r ∉ b.openRegions, b'.monitors r = b.monitors r
  elapsedTime : ∀ r, (b'.monitors r).elapsedTime = (b.monitors r).elapsedTime
  startTime : ∀ r, (b'.monitors r).startTime = (b.monitors r).startTime
  nonneg : ∀ r, (b.monitors r).Nonneg → (b'.monitors r).Nonneg

/-- What one event does to the books, and the threads that it creates. -/
inductive BookStep (b : RegionBook τ ρ) : List τ → RegionBook τ ρ → Prop
  | keep : BookStep b [] b
  | collect {b'} (h : Collected b b') : BookStep b [] b'
  | start {b'} (h : Collected b b') (r : ρ) (hr : r ∉ b.openRegions) : BookStep b [] (b'.push r)
  | stop {b'} (h : Collected b b') (r : ρ) (hr : r ∈ b.openRegions) : BookStep b [] (b'.pop r)
  | reset (r : ρ) (numResets : ℕ) (data : MonitorData) : BookStep b [] (b.reset r numResets data)
  | enroll (t : τ) (initialTs : ℤ) (ht : t ∉ b.threads) : BookStep b [t] (b.enroll t initialTs)

/-- What a stop does to the books: it closes a region, or it is refused. -/
def Stopped (b b' : RegionBook τ ρ) : Prop :=
  b' = b ∨ ∃ b1 r, Collected b b1 ∧ r ∈ b.openRegions ∧ b' = b1.pop r

variable {b b' : RegionBook τ ρ} {new : List τ}

theorem Stopped.bookStep (h : Stopped b b') : BookStep b [] b' := by
  obtain rfl | ⟨b1, r, hcollected, hr, rfl⟩ := h
  · exact BookStep.keep
  · exact BookStep.stop hcollected r hr

theorem BookStep.threads_eq (h : BookStep b new b') : b'.threads = b.threads ++ new := by
  cases h with
  | keep | reset => exact (append_nil _).symm
  | collect h | start h | stop h => exact h.threads.trans (append_nil _).symm
  | enroll t initialTs ht => rfl

/-! ## The debts -/

omit [DecidableEq τ] in
theorem Collected.debt_eq (h : Collected b b') (r : ρ) {u : τ} (hu : u ∈ b.threads) : b'.debt r u = b.debt r u := by
  obtain ⟨given, haccount, -, hall⟩ := h.given
  unfold RegionBook.debt
  rw [h.openRegions, h.elapsedTime, h.startTime, haccount]
  by_cases hr : r ∈ b.openRegions
  · rw [if_pos hr, if_pos hr, if_pos hr, hall (ne_nil_of_mem hr) u hu]
    omega
  · rw [if_neg hr, if_neg hr, if_neg hr]
    omega

omit [DecidableEq τ] in
theorem RegionBook.push_debt {r : ρ} (hr : r ∉ b.openRegions) (r' : ρ) (u : τ) :
    (b.push r).debt r' u = b.debt r' u := by
  unfold RegionBook.debt RegionBook.push
  dsimp only
  by_cases heq : r' = r
  · subst heq
    rw [update_self, if_pos mem_cons_self, if_neg hr]
    dsimp only
    omega
  · rw [update_of_ne heq]
    simp [heq]

omit [DecidableEq τ] in
theorem RegionBook.pop_debt (hnodup : b.openRegions.Nodup) {r : ρ} (hr : r ∈ b.openRegions) (r' : ρ) (u : τ) :
    (b.pop r).debt r' u = b.debt r' u := by
  unfold RegionBook.debt RegionBook.pop
  dsimp only
  by_cases heq : r' = r
  · subst heq
    rw [update_self, if_neg hnodup.not_mem_erase, if_pos hr]
    dsimp only
    omega
  · rw [update_of_ne heq]
    simp [mem_erase_of_ne heq]

omit [DecidableEq τ] in
theorem RegionBook.reset_debt (hnodup : b.openRegions.Nodup) (r r' : ρ) (numResets : ℕ) (data : MonitorData) (u : τ) :
    (b.reset r numResets data).debt r' u = if r' = r then 0 else b.debt r' u := by
  unfold RegionBook.debt RegionBook.reset
  dsimp only
  by_cases heq : r' = r
  · subst heq
    rw [update_self, if_neg hnodup.not_mem_erase, if_pos rfl, if_pos rfl]
    rfl
  · rw [update_of_ne heq, if_neg heq, if_neg heq]
    simp [mem_erase_of_ne heq]

theorem RegionBook.enroll_debt {t u : τ} (hu : u ≠ t) (initialTs : ℤ) (r : ρ) :
    (b.enroll t initialTs).debt r u = b.debt r u := by
  unfold RegionBook.debt RegionBook.enroll
  dsimp only
  split <;> rfl

theorem BookStep.debt_eq (h : BookStep b new b') (hnodup : b.openRegions.Nodup) (r : ρ) :
    (∀ u ∈ b.threads, b'.debt r u = b.debt r u) ∨ (r ∉ b'.openRegions ∧ ∀ u, b'.debt r u = 0) := by
  cases h with
  | keep => exact Or.inl fun _ _ => rfl
  | collect h => exact Or.inl fun u hu => h.debt_eq r hu
  | start h r' hr' =>
    refine Or.inl fun u hu => ?_
    rw [RegionBook.push_debt (by rwa [h.openRegions])]
    exact h.debt_eq r hu
  | stop h r' hr' =>
    refine Or.inl fun u hu => ?_
    rw [RegionBook.pop_debt (by rwa [h.openRegions]) (by rwa [h.openRegions])]
    exact h.debt_eq r hu
  | reset r' numResets data =>
    by_cases heq : r = r'
    · subst heq
      exact Or.inr ⟨hnodup.not_mem_erase, fun u => by rw [RegionBook.reset_debt hnodup, if_pos rfl]⟩
    · exact Or.inl fun u _ => by rw [RegionBook.reset_debt hnodup, if_neg heq]
  | enroll t initialTs ht =>
    refine Or.inl fun u hu => RegionBook.enroll_debt (t := t) ?_ initialTs r
    rintro rfl
    exact ht hu

omit [DecidableEq τ] in
theorem Stopped.debt_eq (h : Stopped b b') (hnodup : b.openRegions.Nodup) (r : ρ) {u : τ} (hu : u ∈ b.threads) :
    b'.debt r u = b.debt r u := by
  obtain rfl | ⟨b1, r', hcollected, hr', rfl⟩ := h
  · rfl
  · rw [RegionBook.pop_debt (by rwa [hcollected.openRegions]) (by rwa [hcollected.openRegions])]
    exact hcollected.debt_eq r hu

omit [DecidableEq τ] in
theorem Stopped.measures (h : Stopped b b') {r : ρ} (hr : r ∈ b.openRegions) (hclosed : r ∉ b'.openRegions) :
    (b'.monitors r).elapsedTime =
        (b.monitors r).elapsedTime + ((b'.monitors r).stopTime - (b'.monitors r).startTime) ∧
      (b'.monitors r).startTime = (b.monitors r).startTime := by
  obtain rfl | ⟨b1, r', hcollected, hr', rfl⟩ := h
  · exact absurd hr hclosed
  · unfold RegionBook.pop at hclosed ⊢
    dsimp only at hclosed ⊢
    rw [hcollected.openRegions] at hclosed
    obtain rfl : r = r' := by
      by_contra hne
      exact hclosed ((mem_erase_of_ne hne).mpr hr)
    rw [update_self]
    rw [hcollected.elapsedTime]
    exact ⟨rfl, hcollected.startTime r⟩

/-! ## The balance -/

theorem BookStep.balanced (h : BookStep b new b') {r : ρ} (hb : b.Balanced r) : b'.Balanced r := by
  have hcollect : ∀ {b1 : RegionBook τ ρ}, Collected b b1 → b1.Balanced r := by
    intro b1 h
    obtain ⟨given, haccount, htime, -⟩ := h.given
    unfold RegionBook.Balanced
    rw [h.threads]
    simp only [haccount]
    by_cases hr : r ∈ b.openRegions
    · rw [htime r hr, hb, ← sum_map_add]
      simp [hr]
    · rw [h.closed r hr, hb]
      simp [hr]
  cases h with
  | keep => exact hb
  | collect h => exact hcollect h
  | @start b1 h r' hr' =>
    have h1 := hcollect h
    unfold RegionBook.Balanced RegionBook.push
    dsimp only
    by_cases heq : r = r'
    · subst heq
      rw [update_self]
      exact h1
    · rw [update_of_ne heq]
      exact h1
  | @stop b1 h r' hr' =>
    have h1 := hcollect h
    unfold RegionBook.Balanced RegionBook.pop
    dsimp only
    by_cases heq : r = r'
    · subst heq
      rw [update_self]
      exact h1
    · rw [update_of_ne heq]
      exact h1
  | reset r' numResets data =>
    unfold RegionBook.Balanced RegionBook.reset
    dsimp only
    by_cases heq : r = r'
    · subst heq
      rw [update_self]
      simp [Monitor.threadTime]
    · rw [update_of_ne heq]
      simp only [heq, if_false]
      exact hb
  | enroll t initialTs ht =>
    have hothers : (b.threads.map fun u => if u = t then
        if r ∈ b.openRegions.tail then initialTs - (b.monitors r).startTime else 0 else b.account u r).sum =
        (b.threads.map fun u => b.account u r).sum :=
      congrArg sum (map_congr_left fun u hu => if_neg fun heq : u = t => ht (heq ▸ hu))
    unfold RegionBook.Balanced RegionBook.enroll
    dsimp only
    rw [map_append, sum_append, hothers, ← hb]
    by_cases hr : r ∈ b.openRegions.tail
    · simp only [hr, if_true, Monitor.threadTime, map_cons, map_nil, sum_cons, sum_nil]
      omega
    · simp [hr]

omit [DecidableEq τ] in
theorem RegionBook.Balanced.sum_debt {r : ρ} (h : b.Balanced r) (hr : r ∉ b.openRegions) :
    (b.threads.map fun u => b.debt r u).sum =
      (b.monitors r).elapsedTime * b.threads.length - (b.monitors r).threadTime := by
  have hsum := Multiset.sum_map_sub (m := (b.threads : Multiset τ)) (f := fun _ => (b.monitors r).elapsedTime)
    (g := fun u => b.account u r)
  rw [h, mul_comm]
  simpa [RegionBook.debt, hr] using hsum

/-! ## Times that are not negative -/

theorem Monitor.nonneg_fresh (numResets : ℕ) (data : MonitorData) :
    ({ numResets := numResets, data := data } : Monitor).Nonneg := by constructor <;> exact le_rfl

theorem BookStep.nonneg (h : BookStep b [] b') {r : ρ} (hr : (b.monitors r).Nonneg) : (b'.monitors r).Nonneg := by
  cases h with
  | keep => exact hr
  | collect h => exact h.nonneg r hr
  | @start b1 h r' hr' =>
    have h1 := h.nonneg r hr
    unfold RegionBook.push
    dsimp only
    by_cases heq : r = r'
    · subst heq
      rw [update_self]
      exact { h1 with }
    · rw [update_of_ne heq]
      exact h1
  | @stop b1 h r' hr' =>
    have h1 := h.nonneg r hr
    unfold RegionBook.pop
    dsimp only
    by_cases heq : r = r'
    · subst heq
      rw [update_self]
      exact { h1 with }
    · rw [update_of_ne heq]
      exact h1
  | reset r' numResets data =>
    unfold RegionBook.reset
    dsimp only
    by_cases heq : r = r'
    · subst heq
      rw [update_self]
      exact Monitor.nonneg_fresh _ _
    · rw [update_of_ne heq]
      exact hr

/-! ## A region that is open -/

theorem BookStep.measures (h : BookStep b new b') (hnodup : b.openRegions.Nodup) {r : ρ} (hr : r ∈ b.openRegions)
    (hopen : r ∈ b'.openRegions) :
    (b'.monitors r).elapsedTime = (b.monitors r).elapsedTime ∧
      (b'.monitors r).startTime = (b.monitors r).startTime := by
  cases h with
  | keep => exact ⟨rfl, rfl⟩
  | collect h => exact ⟨h.elapsedTime r, h.startTime r⟩
  | @start b1 h r' hr' =>
    have heq : r ≠ r' := fun heq => hr' (heq ▸ hr)
    unfold RegionBook.push
    dsimp only
    rw [update_of_ne heq]
    exact ⟨h.elapsedTime r, h.startTime r⟩
  | @stop b1 h r' hr' =>
    unfold RegionBook.pop at hopen ⊢
    dsimp only at hopen ⊢
    rw [h.openRegions] at hopen
    have heq : r ≠ r' := fun heq => hnodup.not_mem_erase (heq ▸ hopen)
    rw [update_of_ne heq]
    exact ⟨h.elapsedTime r, h.startTime r⟩
  | reset r' numResets data =>
    unfold RegionBook.reset at hopen ⊢
    dsimp only at hopen ⊢
    have heq : r ≠ r' := fun heq => hnodup.not_mem_erase (heq ▸ hopen)
    rw [update_of_ne heq]
    exact ⟨rfl, rfl⟩
  | enroll t initialTs ht =>
    unfold RegionBook.enroll
    dsimp only
    split <;> exact ⟨rfl, rfl⟩

/-! ## A region that has not been opened -/

structure Monitor.Unmeasured (m : Monitor) : Prop where
  elapsedTime : m.elapsedTime = 0
  usefulTime : m.usefulTime = 0
  mpiTime : m.mpiTime = 0
  gpuRuntimeTime : m.gpuRuntimeTime = 0
  ompLoadImbalanceTime : m.ompLoadImbalanceTime = 0
  ompSchedulingTime : m.ompSchedulingTime = 0
  ompSerializationTime : m.ompSerializationTime = 0

theorem Monitor.Unmeasured.nonneg {m : Monitor} (h : m.Unmeasured) : m.Nonneg where
  usefulTime := h.usefulTime.ge
  mpiTime := h.mpiTime.ge
  gpuRuntimeTime := h.gpuRuntimeTime.ge
  ompLoadImbalanceTime := h.ompLoadImbalanceTime.ge
  ompSchedulingTime := h.ompSchedulingTime.ge
  ompSerializationTime := h.ompSerializationTime.ge

theorem Monitor.Unmeasured.threadTime {m : Monitor} (h : m.Unmeasured) : m.threadTime = 0 := by
  rw [Monitor.threadTime, h.usefulTime, h.mpiTime, h.gpuRuntimeTime, h.ompLoadImbalanceTime, h.ompSchedulingTime,
    h.ompSerializationTime]
  rfl

theorem BookStep.unmeasured (h : BookStep b new b') {r : ρ} (hr : r ∉ b.openRegions) (hclosed : r ∉ b'.openRegions)
    (hm : (b.monitors r).Unmeasured) : (b'.monitors r).Unmeasured := by
  cases h with
  | keep => exact hm
  | collect h => rwa [h.closed r hr]
  | @start b1 h r' hr' =>
    unfold RegionBook.push at hclosed ⊢
    dsimp only at hclosed ⊢
    have heq : r ≠ r' := fun heq => hclosed (heq ▸ mem_cons_self)
    rw [update_of_ne heq, h.closed r hr]
    exact hm
  | @stop b1 h r' hr' =>
    unfold RegionBook.pop
    dsimp only
    have heq : r ≠ r' := fun heq => hr (heq ▸ hr')
    rw [update_of_ne heq, h.closed r hr]
    exact hm
  | reset r' numResets data =>
    unfold RegionBook.reset
    dsimp only
    by_cases heq : r = r'
    · subst heq
      rw [update_self]
      constructor <;> rfl
    · rw [update_of_ne heq]
      exact hm
  | enroll t initialTs ht =>
    unfold RegionBook.enroll
    dsimp only
    rw [if_neg fun hmem => hr (mem_of_mem_tail hmem)]
    exact hm

end Dlb.Talp
