import Mathlib.Algebra.BigOperators.Group.Finset.Basic
import Mathlib.Data.Fintype.Card
import Dlb.Lib.Run

/-!
# The shutdown of the managers

Each manager runs in a thread of its own: it waits in the barrier with all the others, looks at the stop flag, and goes
round again, or leaves the loop. `shmem_mngo_fini_sync` then counts the managers that have left, and passes barriers
until none is missing. The stop flag is set by the process of manager 0 under two locks, which that manager does not hold
while it sleeps; the other managers may be on their way from the barrier to the flag.

* `Stage`: what the places of the managers can be together, before and after the flag is set;
* `nobody_stranded_iff`: along every run, no manager leaves for good while another one still has to pass a barrier, exactly
  if no manager that was on its way to the flag when it was set finds that all have left before it has passed a barrier of
  the shutdown with them.
-/

namespace Dlb.Mngo

open Finset Function

/-! ## The threads -/

/-- Where a manager is in `mngo_helper_thread`: in `shmem_mngo_manager_wait`, which only manager 0 calls (from
`lockManager` to `unlockManager`), in the loop, and in `shmem_mngo_fini_sync`. -/
inductive HelperPc where
  | top
  | lockManager
  | unlockStop
  | sleep
  | asleep
  | lockStop
  | unlockManager
  | loopBarrier
  | check
  | manager
  | decrement
  | finiBarrier
  | readAttached
  | done
deriving DecidableEq

/-- Where the process of manager 0 is in `shmem_mngo_manager_wake_finalize`. -/
inductive FinalizerPc where
  | lockStop
  | lockManager
  | setStop
  | unlockManager
  | unlockStop
  | done
deriving DecidableEq

/-- The part of the shared memory that the shutdown uses, and the threads. `early` are the managers that were between the
barrier and the flag when it was set, until all managers pass the same barrier of the shutdown. -/
structure Helpers (ι : Type*) where
  attached : ℤ
  stop : Bool := false
  stopLock : Bool := false
  managerLock : Bool := false
  pc : ι → HelperPc := fun _ => .top
  finalizer : FinalizerPc := .lockStop
  early : Finset ι := ∅

/-- Who moves: a manager, the barrier when all have arrived, or the process that finalizes. -/
inductive HelperEvent (ι : Type*) where
  | helper (i : ι)
  | barrier
  | finalizer

def HelperPc.waits : HelperPc → Bool
  | .loopBarrier => true
  | .finiBarrier => true
  | _ => false

def HelperPc.released : HelperPc → HelperPc
  | .loopBarrier => .check
  | .finiBarrier => .readAttached
  | pc => pc

/-- On the way to the barrier of the loop, or in it. -/
def HelperPc.heading : HelperPc → Bool
  | .check => false
  | .decrement => false
  | .finiBarrier => false
  | .readAttached => false
  | .done => false
  | _ => true

def FinalizerPc.hasSet : FinalizerPc → Bool
  | .lockStop => false
  | .lockManager => false
  | .setStop => false
  | _ => true

namespace Helpers

variable {ι : Type*}

section Code

variable [DecidableEq ι] (mid : ι → ℕ) (s : Helpers ι)

def goto (i : ι) (pc : HelperPc) : Helpers ι := { s with pc := update s.pc i pc }

/-- A manager moves. `pthread_mutex_unlock` opens the lock, also if another thread has closed it. `mngo_manager` returns at
once: only `mngo_manager` makes regions active, and its first test is whether the region of the helper thread is on top of
the active ones. -/
def helper (i : ι) : Helpers ι :=
  match s.pc i with
  | .top => s.goto i (if mid i = 0 then .lockManager else .loopBarrier)
  | .lockManager => { s.goto i .unlockStop with managerLock := true }
  | .unlockStop => { s.goto i .sleep with stopLock := false }
  | .sleep => { s.goto i .asleep with managerLock := false }
  | .asleep => { s.goto i .lockStop with managerLock := true }
  | .lockStop => { s.goto i .unlockManager with stopLock := true }
  | .unlockManager => { s.goto i .loopBarrier with managerLock := false }
  | .check => s.goto i (if s.stop then .decrement else .manager)
  | .manager => s.goto i .top
  | .decrement => { s.goto i .finiBarrier with attached := s.attached - 1 }
  | .readAttached => s.goto i (if s.attached = 0 then .done else .finiBarrier)
  | .loopBarrier => s
  | .finiBarrier => s
  | .done => s

variable [Fintype ι]

def finalize : Helpers ι :=
  match s.finalizer with
  | .lockStop => { s with stopLock := true, finalizer := .lockManager }
  | .lockManager => { s with managerLock := true, finalizer := .setStop }
  | .setStop =>
    { s with
      stop := true
      finalizer := .unlockManager
      early := univ.filter fun i => s.pc i = .check }
  | .unlockManager => { s with managerLock := false, finalizer := .unlockStop }
  | .unlockStop => { s with stopLock := false, finalizer := .done }
  | .done => s

def next : HelperEvent ι → Helpers ι
  | .helper i => s.helper mid i
  | .barrier =>
    { s with
      pc := fun i => (s.pc i).released
      early := if ∀ i, s.pc i = .finiBarrier then ∅ else s.early }
  | .finalizer => s.finalize

/-- Who waits does not move: for a lock that is closed, for the barrier until all have arrived, or because it is done. A
manager that sleeps wakes up at any time, if the lock is open. -/
def Allowed : HelperEvent ι → Prop
  | .helper i =>
    match s.pc i with
    | .lockManager => s.managerLock = false
    | .asleep => s.managerLock = false
    | .lockStop => s.stopLock = false
    | .loopBarrier => False
    | .finiBarrier => False
    | .done => False
    | _ => True
  | .barrier => ∀ i, (s.pc i).waits
  | .finalizer =>
    match s.finalizer with
    | .lockStop => s.stopLock = false
    | .lockManager => s.managerLock = false
    | .done => False
    | _ => True

end Code

/-- All managers are attached when their threads start. -/
def start (ι : Type*) [Fintype ι] : Helpers ι where
  attached := Fintype.card ι

variable (s : Helpers ι)

def HasToPass (i : ι) : Prop := s.pc i ≠ .done ∧ (s.pc i = .readAttached → s.attached ≠ 0)

/-- A manager has left for good, and another one still has to pass a barrier. -/
def Stranded : Prop := ∃ i j, s.pc i = .done ∧ s.HasToPass j

/-- An early manager does not find that all have left. -/
def NotAlone : HelperEvent ι → Prop
  | .helper i => s.pc i = .readAttached → i ∈ s.early → s.attached ≠ 0
  | _ => True

section Decidable

variable [DecidableEq ι] [Fintype ι]

instance : ∀ e, Decidable (s.Allowed e)
  | .helper i =>
    decidable_of_iff (((s.pc i = .lockManager ∨ s.pc i = .asleep) → s.managerLock = false) ∧
      (s.pc i = .lockStop → s.stopLock = false) ∧ (s.pc i).waits = false ∧ s.pc i ≠ .done)
      (by unfold Allowed; dsimp only; cases s.pc i <;> simp [HelperPc.waits])
  | .barrier => inferInstanceAs (Decidable (∀ i, (s.pc i).waits))
  | .finalizer =>
    decidable_of_iff ((s.finalizer = .lockStop → s.stopLock = false) ∧
      (s.finalizer = .lockManager → s.managerLock = false) ∧ s.finalizer ≠ .done)
      (by unfold Allowed; dsimp only; cases s.finalizer <;> simp)

instance : ∀ e, Decidable (s.NotAlone e)
  | .helper i => inferInstanceAs (Decidable (s.pc i = .readAttached → i ∈ s.early → s.attached ≠ 0))
  | .barrier => inferInstanceAs (Decidable True)
  | .finalizer => inferInstanceAs (Decidable True)

instance : Decidable s.Stranded :=
  inferInstanceAs (Decidable (∃ i j, s.pc i = .done ∧ s.pc j ≠ .done ∧ (s.pc j = .readAttached → s.attached ≠ 0)))

end Decidable

/-! ## The invariant -/

/-- The places of the managers: before the flag is set; while the early managers leave the loop; while they look for the
others, which leave the loop one barrier later; and when all have left. -/
inductive Stage [Fintype ι] (s : Helpers ι) : Prop
  | looping (hstop : s.stop = false) (hattached : s.attached = Fintype.card ι)
    (hpc : ∀ i, (s.pc i).heading ∨ s.pc i = .check)
  | leaving (hstop : s.stop = true)
    (hearly : ∀ i ∈ s.early, s.pc i = .check ∨ s.pc i = .decrement ∨ s.pc i = .finiBarrier)
    (hothers : ∀ i ∉ s.early, (s.pc i).heading)
    (hattached : s.attached = (univ.filter fun i => s.pc i ≠ .finiBarrier).card)
  | counting (hstop : s.stop = true) (hlate : ∃ j, j ∉ s.early)
    (hearly : ∀ i ∈ s.early, s.pc i = .readAttached ∨ s.pc i = .finiBarrier)
    (hothers : ∀ i ∉ s.early, s.pc i = .check ∨ s.pc i = .decrement ∨ s.pc i = .finiBarrier)
    (hattached : s.attached = (univ.filter fun i => s.pc i = .check ∨ s.pc i = .decrement).card)
  | ended (hstop : s.stop = true) (hearly : s.early = ∅) (hattached : s.attached = 0)
    (hpc : ∀ i, s.pc i = .readAttached ∨ s.pc i = .done)

variable [Fintype ι] {s} {s' : Helpers ι} {e : HelperEvent ι} {mid : ι → ℕ} {i : ι} {x : HelperPc}

theorem Stage.start : Stage (start ι) := .looping rfl rfl fun _ => .inl rfl

theorem Stage.not_stranded (h : Stage s) : ¬s.Stranded := by
  rintro ⟨i, j, hi, hj, hread⟩
  cases h with
  | looping _ _ hpc =>
    rcases hpc i with hheading | hcheck
    · rw [hi] at hheading
      exact nomatch hheading
    · exact nomatch hi.symm.trans hcheck
  | leaving _ hearly hothers =>
    by_cases hmem : i ∈ s.early
    · rcases hearly i hmem with h | h | h <;> exact nomatch hi.symm.trans h
    · have hheading := hothers i hmem
      rw [hi] at hheading
      exact nomatch hheading
  | counting _ _ hearly hothers =>
    by_cases hmem : i ∈ s.early
    · rcases hearly i hmem with h | h <;> exact nomatch hi.symm.trans h
    · rcases hothers i hmem with h | h | h <;> exact nomatch hi.symm.trans h
  | ended _ _ hattached hpc => exact (hpc j).elim (fun h => hread h hattached) hj

/-! ### Counting places -/

section Update

variable [DecidableEq ι] {P : HelperPc → Prop} [DecidablePred P]

omit [Fintype ι] in
theorem forall_update {Q : ι → HelperPc → Prop} (hx : Q i x) (hold : ∀ j, Q j (s.pc j)) :
    ∀ j, Q j (update s.pc i x j) :=
  (Function.forall_update_iff s.pc Q).mpr ⟨hx, fun j _ => hold j⟩

theorem card_same (h : P (s.pc i) ↔ P x) : (univ.filter fun j => P (update s.pc i x j)).card =
    (univ.filter fun j => P (s.pc j)).card := by
  refine congrArg card (filter_congr fun j _ => ?_)
  by_cases hj : j = i
  · rw [hj, update_self]
    exact h.symm
  · rw [update_of_ne hj]

theorem card_less (h : P (s.pc i)) (hx : ¬P x) : (univ.filter fun j => P (update s.pc i x j)).card + 1 =
    (univ.filter fun j => P (s.pc j)).card := by
  have herase : (univ.filter fun j => P (update s.pc i x j)) =
      (univ.filter fun j => P (s.pc j)).erase i := by
    ext j
    rw [mem_erase, mem_filter, mem_filter]
    by_cases hj : j = i
    · rw [hj, update_self]
      exact iff_of_false (fun he => hx he.2) fun he => he.1 rfl
    · rw [update_of_ne hj]
      exact (and_iff_right hj).symm
  rw [herase, card_erase_add_one (mem_filter.mpr ⟨mem_univ i, h⟩)]

end Update

/-! ### One step -/

variable [DecidableEq ι]

structure Moves (s s' : Helpers ι) (i : ι) (x : HelperPc) (attached : ℤ) : Prop where
  pc : s'.pc = update s.pc i x
  attached : s'.attached = attached
  stop : s'.stop = s.stop
  early : s'.early = s.early
  finalizer : s'.finalizer = s.finalizer

omit [Fintype ι] in
theorem helper_cases (mid : ι → ℕ) (hallowed : s.Allowed (.helper i)) :
    (∃ x, (s.pc i).heading ∧ x.heading ∧ Moves s (s.helper mid i) i x s.attached) ∨
    (s.pc i = .check ∧ Moves s (s.helper mid i) i (if s.stop then .decrement else .manager) s.attached) ∨
    (s.pc i = .decrement ∧ Moves s (s.helper mid i) i .finiBarrier (s.attached - 1)) ∨
    (s.pc i = .readAttached ∧
      Moves s (s.helper mid i) i (if s.attached = 0 then .done else .finiBarrier) s.attached) := by
  unfold Allowed at hallowed
  dsimp only at hallowed
  unfold helper
  cases hpc : s.pc i with
  | top =>
    refine .inl ⟨if mid i = 0 then .lockManager else .loopBarrier, rfl, ?_, rfl, rfl, rfl, rfl, rfl⟩
    split
    · rfl
    · rfl
  | lockManager | unlockStop | sleep | asleep | lockStop | unlockManager | manager =>
    exact .inl ⟨_, rfl, rfl, rfl, rfl, rfl, rfl, rfl⟩
  | check => exact .inr (.inl ⟨rfl, rfl, rfl, rfl, rfl, rfl⟩)
  | decrement => exact .inr (.inr (.inl ⟨rfl, rfl, rfl, rfl, rfl, rfl⟩))
  | readAttached => exact .inr (.inr (.inr ⟨rfl, rfl, rfl, rfl, rfl, rfl⟩))
  | loopBarrier | finiBarrier | done =>
    rw [hpc] at hallowed
    exact hallowed.elim

theorem Stage.helper (h : Stage s) (hallowed : s.Allowed (.helper i)) (halone : s.NotAlone (.helper i)) :
    Stage (s.helper mid i) := by
  have hcases := helper_cases mid hallowed
  cases h with
  | looping hstop hattached hpc =>
    rcases hcases with ⟨x, -, hx, hmoves⟩ | ⟨-, hmoves⟩ | ⟨hi, -⟩ | ⟨hi, -⟩
    · refine .looping (hmoves.stop.trans hstop) (hmoves.attached.trans hattached) ?_
      rw [hmoves.pc]
      exact forall_update (Q := fun _ pc => pc.heading ∨ pc = .check) (.inl hx) hpc
    · refine .looping (hmoves.stop.trans hstop) (hmoves.attached.trans hattached) ?_
      rw [hmoves.pc, hstop]
      exact forall_update (Q := fun _ pc => pc.heading ∨ pc = .check) (.inl rfl) hpc
    · rcases hi ▸ hpc i with h | h <;> exact nomatch h
    · rcases hi ▸ hpc i with h | h <;> exact nomatch h
  | leaving hstop hearly hothers hattached =>
    have hmem : ¬(s.pc i).heading → i ∈ s.early := fun hi => by_contra fun hno => hi (hothers i hno)
    rcases hcases with ⟨x, hi, hx, hmoves⟩ | ⟨hi, hmoves⟩ | ⟨hi, hmoves⟩ | ⟨hi, -⟩
    · have hno : i ∉ s.early := fun hmem => by
        rcases hearly i hmem with h | h | h <;> (rw [h] at hi; exact nomatch hi)
      have hne : ∀ {pc : HelperPc}, pc.heading → pc ≠ .finiBarrier := fun hpc he => by
        rw [he] at hpc
        exact nomatch hpc
      refine .leaving (hmoves.stop.trans hstop) ?_ ?_ ?_
      · rw [hmoves.pc, hmoves.early]
        exact forall_update (Q := fun j pc => j ∈ s.early → pc = .check ∨ pc = .decrement ∨ pc = .finiBarrier)
          (fun hmem => absurd hmem hno) hearly
      · rw [hmoves.pc, hmoves.early]
        exact forall_update (Q := fun j pc => j ∉ s.early → pc.heading) (fun _ => hx) hothers
      · have hsame := card_same (s := s) (i := i) (x := x) (P := fun pc => pc ≠ .finiBarrier)
          (iff_of_true (hne hi) (hne hx))
        rw [hmoves.pc, hmoves.attached, hattached]
        omega
    · refine .leaving (hmoves.stop.trans hstop) ?_ ?_ ?_
      · rw [hmoves.pc, hmoves.early, hstop]
        exact forall_update (Q := fun j pc => j ∈ s.early → pc = .check ∨ pc = .decrement ∨ pc = .finiBarrier)
          (fun _ => .inr (.inl rfl)) hearly
      · rw [hmoves.pc, hmoves.early]
        exact forall_update (Q := fun j pc => j ∉ s.early → pc.heading)
          (fun hno => absurd (hmem (by rw [hi]; exact nofun)) hno) hothers
      · have hsame := card_same (s := s) (i := i) (x := .decrement) (P := fun pc => pc ≠ .finiBarrier)
          (iff_of_true (by rw [hi]; exact nofun) nofun)
        rw [hmoves.pc, hmoves.attached, hstop, if_pos rfl, hattached]
        omega
    · refine .leaving (hmoves.stop.trans hstop) ?_ ?_ ?_
      · rw [hmoves.pc, hmoves.early]
        exact forall_update (Q := fun j pc => j ∈ s.early → pc = .check ∨ pc = .decrement ∨ pc = .finiBarrier)
          (fun _ => .inr (.inr rfl)) hearly
      · rw [hmoves.pc, hmoves.early]
        exact forall_update (Q := fun j pc => j ∉ s.early → pc.heading)
          (fun hno => absurd (hmem (by rw [hi]; exact nofun)) hno) hothers
      · have hless := card_less (s := s) (i := i) (x := .finiBarrier) (P := fun pc => pc ≠ .finiBarrier)
          (by rw [hi]; exact nofun) fun hne => hne rfl
        rw [hmoves.pc, hmoves.attached, hattached]
        omega
    · rcases hi ▸ hearly i (hmem (by rw [hi]; exact nofun)) with h | h | h <;> exact nomatch h
  | counting hstop hlate hearly hothers hattached =>
    rcases hcases with ⟨x, hi, -, -⟩ | ⟨hi, hmoves⟩ | ⟨hi, hmoves⟩ | ⟨hi, hmoves⟩
    · by_cases hmem : i ∈ s.early
      · rcases hearly i hmem with h | h <;> (rw [h] at hi; exact nomatch hi)
      · rcases hothers i hmem with h | h | h <;> (rw [h] at hi; exact nomatch hi)
    · have hno : i ∉ s.early := fun hmem => by
        rcases hi ▸ hearly i hmem with h | h <;> exact nomatch h
      refine .counting (hmoves.stop.trans hstop) (hmoves.early ▸ hlate) ?_ ?_ ?_
      · rw [hmoves.pc, hmoves.early]
        exact forall_update (Q := fun j pc => j ∈ s.early → pc = .readAttached ∨ pc = .finiBarrier)
          (fun hmem => absurd hmem hno) hearly
      · rw [hmoves.pc, hmoves.early, hstop]
        exact forall_update (Q := fun j pc => j ∉ s.early → pc = .check ∨ pc = .decrement ∨ pc = .finiBarrier)
          (fun _ => .inr (.inl rfl)) hothers
      · have hsame := card_same (s := s) (i := i) (x := .decrement) (P := fun pc => pc = .check ∨ pc = .decrement)
          (iff_of_true (.inl hi) (.inr rfl))
        rw [hmoves.pc, hmoves.attached, hstop, if_pos rfl, hattached]
        omega
    · have hno : i ∉ s.early := fun hmem => by
        rcases hi ▸ hearly i hmem with h | h <;> exact nomatch h
      refine .counting (hmoves.stop.trans hstop) (hmoves.early ▸ hlate) ?_ ?_ ?_
      · rw [hmoves.pc, hmoves.early]
        exact forall_update (Q := fun j pc => j ∈ s.early → pc = .readAttached ∨ pc = .finiBarrier)
          (fun hmem => absurd hmem hno) hearly
      · rw [hmoves.pc, hmoves.early]
        exact forall_update (Q := fun j pc => j ∉ s.early → pc = .check ∨ pc = .decrement ∨ pc = .finiBarrier)
          (fun _ => .inr (.inr rfl)) hothers
      · have hless := card_less (s := s) (i := i) (x := .finiBarrier) (P := fun pc => pc = .check ∨ pc = .decrement)
          (.inr hi) nofun
        rw [hmoves.pc, hmoves.attached, hattached]
        omega
    · have hmem : i ∈ s.early := by_contra fun hno => by
        rcases hi ▸ hothers i hno with h | h | h <;> exact nomatch h
      have hmissing : s.attached ≠ 0 := halone hi hmem
      refine .counting (hmoves.stop.trans hstop) (hmoves.early ▸ hlate) ?_ ?_ ?_
      · rw [hmoves.pc, hmoves.early, if_neg hmissing]
        exact forall_update (Q := fun j pc => j ∈ s.early → pc = .readAttached ∨ pc = .finiBarrier)
          (fun _ => .inr rfl) hearly
      · rw [hmoves.pc, hmoves.early]
        exact forall_update (Q := fun j pc => j ∉ s.early → pc = .check ∨ pc = .decrement ∨ pc = .finiBarrier)
          (fun hno => absurd hmem hno) hothers
      · have hsame := card_same (s := s) (i := i) (x := .finiBarrier) (P := fun pc => pc = .check ∨ pc = .decrement)
          (iff_of_false (by rw [hi]; exact fun h => h.elim nofun nofun) fun h => h.elim nofun nofun)
        rw [hmoves.pc, hmoves.attached, if_neg hmissing, hattached]
        omega
  | ended hstop hearly hattached hpc =>
    rcases hcases with ⟨x, hi, -, -⟩ | ⟨hi, -⟩ | ⟨hi, -⟩ | ⟨hi, hmoves⟩
    · rcases hpc i with h | h <;> (rw [h] at hi; exact nomatch hi)
    · rcases hi ▸ hpc i with h | h <;> exact nomatch h
    · rcases hi ▸ hpc i with h | h <;> exact nomatch h
    · refine .ended (hmoves.stop.trans hstop) (hmoves.early.trans hearly) (hmoves.attached.trans hattached) ?_
      rw [hmoves.pc, if_pos hattached]
      exact forall_update (Q := fun _ pc => pc = .readAttached ∨ pc = .done) (.inr rfl) hpc

theorem Stage.barrier (h : Stage s) (hall : ∀ i, (s.pc i).waits) : Stage (s.next mid .barrier) := by
  have hwaits : ∀ {i : ι} {pc : HelperPc}, pc.waits = false → s.pc i ≠ pc := fun {i pc} hpc he => by
    have hi := hall i
    rw [he, hpc] at hi
    exact nomatch hi
  have hheading : ∀ {i}, (s.pc i).heading → s.pc i = .loopBarrier := fun {i} hi => by
    cases hpc : s.pc i <;> simp_all [HelperPc.waits, HelperPc.heading]
  have hreleased : ∀ {i pc}, s.pc i = pc → (s.next mid .barrier).pc i = pc.released := fun hpc =>
    congrArg HelperPc.released hpc
  have hover : (∀ i, s.pc i = .finiBarrier) → s.stop = true → s.attached = 0 → Stage (s.next mid .barrier) :=
    fun hfini hstop hattached => .ended hstop (if_pos hfini) hattached fun i => .inl (hreleased (hfini i))
  cases h with
  | looping hstop hattached hpc =>
    refine .looping hstop hattached fun i => .inr ?_
    rcases hpc i with hi | hi
    · exact hreleased (hheading hi)
    · exact absurd hi (hwaits rfl)
  | leaving hstop hearly hothers hattached =>
    have hfini : ∀ i ∈ s.early, s.pc i = .finiBarrier := fun i hi => by
      rcases hearly i hi with h | h | h
      · exact absurd h (hwaits rfl)
      · exact absurd h (hwaits rfl)
      · exact h
    have hloop : ∀ i ∉ s.early, s.pc i = .loopBarrier := fun i hi => hheading (hothers i hi)
    by_cases hlate : ∃ j, j ∉ s.early
    · have hsame : (s.next mid .barrier).early = s.early := if_neg fun hall' => by
        obtain ⟨j, hj⟩ := hlate
        exact nomatch (hall' j).symm.trans (hloop j hj)
      refine .counting hstop (hsame ▸ hlate) ?_ ?_ ?_
      · rw [hsame]
        exact fun i hi => .inl (hreleased (hfini i hi))
      · rw [hsame]
        exact fun i hi => .inl (hreleased (hloop i hi))
      show s.attached = _
      rw [hattached]
      refine congrArg (fun f : Finset ι => (f.card : ℤ)) (filter_congr fun i _ => ?_)
      by_cases hi : i ∈ s.early
      · rw [hreleased (hfini i hi), hfini i hi]
        exact iff_of_false (fun h => h rfl) nofun
      · rw [hreleased (hloop i hi), hloop i hi]
        exact iff_of_true nofun (.inl rfl)
    · have hall' : ∀ i, s.pc i = .finiBarrier := fun i => hfini i (by_contra fun hno => hlate ⟨i, hno⟩)
      refine hover hall' hstop ?_
      rw [hattached, filter_false_of_mem fun i _ h => h (hall' i)]
      rfl
  | counting hstop hlate hearly hothers hattached =>
    have hall' : ∀ i, s.pc i = .finiBarrier := fun i => by
      by_cases hi : i ∈ s.early
      · exact (hearly i hi).resolve_left (hwaits rfl)
      · rcases hothers i hi with h | h | h
        · exact absurd h (hwaits rfl)
        · exact absurd h (hwaits rfl)
        · exact h
    refine hover hall' hstop ?_
    rw [hattached, filter_false_of_mem fun i _ h => h.elim (hwaits rfl) (hwaits rfl)]
    rfl
  | ended hstop hearly hattached hpc =>
    refine hover (fun i => ?_) hstop hattached
    rcases hpc i with h | h
    · exact absurd h (hwaits rfl)
    · exact absurd h (hwaits rfl)

omit [DecidableEq ι] in
theorem Stage.finalize (h : Stage s) (hstop : s.stop = s.finalizer.hasSet) :
    Stage s.finalize ∧ s.finalize.stop = s.finalize.finalizer.hasSet := by
  unfold Helpers.finalize
  cases hpc : s.finalizer with
  | setStop =>
    rw [hpc] at hstop
    refine ⟨?_, rfl⟩
    cases h with
    | looping _ hattached hloop =>
      have hmem : ∀ i, i ∈ (univ.filter fun i => s.pc i = .check) ↔ s.pc i = .check := fun i =>
        mem_filter.trans (and_iff_right (mem_univ i))
      refine .leaving rfl (fun i hi => .inl ((hmem i).mp hi))
        (fun i hi => (hloop i).resolve_right fun h => hi ((hmem i).mpr h)) ?_
      show s.attached = _
      rw [hattached, filter_true_of_mem]
      · rfl
      · intro i _ h
        rcases hloop i with hi | hi
        · rw [h] at hi
          exact nomatch hi
        · exact nomatch h.symm.trans hi
    | leaving h => exact nomatch h.symm.trans hstop
    | counting h => exact nomatch h.symm.trans hstop
    | ended h => exact nomatch h.symm.trans hstop
  | lockStop | lockManager | unlockManager | unlockStop | done =>
    rw [hpc] at hstop
    refine ⟨?_, hstop.trans ?_⟩
    · cases h with
      | looping h1 h2 h3 => exact .looping h1 h2 h3
      | leaving h1 h2 h3 h4 => exact .leaving h1 h2 h3 h4
      | counting h1 h2 h3 h4 h5 => exact .counting h1 h2 h3 h4 h5
      | ended h1 h2 h3 h4 => exact .ended h1 h2 h3 h4
    · first | rfl | exact (congrArg FinalizerPc.hasSet hpc).symm

def Sound (s : Helpers ι) : Prop := Stage s ∧ s.stop = s.finalizer.hasSet

omit [DecidableEq ι] in
theorem Sound.start : Sound (Helpers.start ι) := ⟨Stage.start, rfl⟩

theorem Sound.next (h : Sound s) (hallowed : s.Allowed e) (halone : s.NotAlone e) : Sound (s.next mid e) := by
  cases e with
  | helper i =>
    obtain ⟨x, attached, hmoves⟩ : ∃ x attached, Moves s (s.helper mid i) i x attached := by
      rcases helper_cases mid hallowed with ⟨x, -, -, h⟩ | ⟨-, h⟩ | ⟨-, h⟩ | ⟨-, h⟩ <;> exact ⟨_, _, h⟩
    refine ⟨h.1.helper hallowed halone, ?_⟩
    rw [Helpers.next, hmoves.stop, hmoves.finalizer]
    exact h.2
  | barrier => exact ⟨h.1.barrier hallowed, h.2⟩
  | finalizer => exact h.1.finalize h.2

theorem Stage.stranded (h : Stage s) (hallowed : s.Allowed (.helper i)) (hpc : s.pc i = .readAttached) (hmem : i ∈ s.early)
    (hnone : s.attached = 0) : (s.helper mid i).Stranded := by
  cases h with
  | looping _ _ hloop =>
    rcases hpc ▸ hloop i with h | h <;> exact nomatch h
  | leaving _ hearly =>
    rcases hpc ▸ hearly i hmem with h | h | h <;> exact nomatch h
  | ended _ hearly =>
    rw [hearly] at hmem
    exact absurd hmem (notMem_empty i)
  | counting _ hlate _ hothers hattached =>
    obtain ⟨j, hj⟩ := hlate
    have hji : j ≠ i := fun he => hj (he ▸ hmem)
    have hwaits : s.pc j = .finiBarrier := by
      have hcard := Int.natCast_eq_zero.mp (hattached.symm.trans hnone)
      have hno := filter_eq_empty_iff.mp (card_eq_zero.mp hcard) (mem_univ j)
      rcases hothers j hj with h | h | h
      · exact absurd (.inl h) hno
      · exact absurd (.inr h) hno
      · exact h
    rcases helper_cases mid hallowed with ⟨x, h, -, -⟩ | ⟨h, -⟩ | ⟨h, -⟩ | ⟨-, hmoves⟩
    · rw [hpc] at h
      exact nomatch h
    · exact nomatch hpc.symm.trans h
    · exact nomatch hpc.symm.trans h
    · have hsame : (s.helper mid i).pc j = .finiBarrier := by
        rw [hmoves.pc, update_of_ne hji, hwaits]
      refine ⟨i, j, ?_, ?_, ?_⟩
      · rw [hmoves.pc, update_self, if_pos hnone]
      · rw [hsame]
        exact nofun
      · rw [hsame]
        exact nofun

/-- **Nobody is stranded.** -/
theorem nobody_stranded_iff (mid : ι → ℕ) (events : List (HelperEvent ι))
    (hallowed : Lib.Along (fun s e => s.next mid e) Allowed (Helpers.start ι) events) :
    Lib.Along (fun s e => s.next mid e) (fun s e => ¬(s.next mid e).Stranded) (Helpers.start ι) events ↔
      Lib.Along (fun s e => s.next mid e) NotAlone (Helpers.start ι) events := by
  have hnext : ∀ (s : Helpers ι) e, Sound s → s.Allowed e → s.NotAlone e → Sound (s.next mid e) :=
    fun _ _ hs ha hq => hs.next ha hq
  refine Lib.Along.congr_of hnext (fun s e hs ha => ⟨fun hno => ?_, fun hq => ?_⟩) _ _ Sound.start hallowed
  · cases e with
    | helper i => exact fun hpc hmem hnone => hno (hs.1.stranded ha hpc hmem hnone)
    | barrier => trivial
    | finalizer => trivial
  · exact (hnext s e hs ha hq).1.not_stranded

/-! ### Two managers -/

def number : Bool → ℕ
  | false => 0
  | true => 1

/-- Both go once round the loop, up to where manager 0 sleeps again. -/
def once : List (HelperEvent Bool) :=
  List.replicate 7 (.helper false) ++ [.helper true, .barrier] ++ List.replicate 6 (.helper false)

def finalized : List (HelperEvent Bool) := List.replicate 5 .finalizer

/-- Manager 1 is back in the barrier when the flag is set, and both leave the loop together. -/
theorem nobody_stranded_iff_together : Lib.Along (fun s e => s.next number e) (fun s e => ¬(s.next number e).Stranded)
    (start Bool) (once ++ List.replicate 3 (.helper true) ++ finalized ++ List.replicate 3 (.helper false) ++ [.barrier] ++
      List.replicate 2 (.helper true) ++ List.replicate 2 (.helper false) ++ [.barrier, .helper false, .helper true]) :=
  (nobody_stranded_iff number _ (by decide)).mpr (by decide)

/-- Manager 1 is on its way to the flag when it is set. Manager 0 passes one more barrier of the loop, with the first of
manager 1's shutdown, and is the last to leave: manager 1 finds that all have left, and manager 0 waits for it. -/
theorem somebody_stranded :
    let race := once ++ finalized ++ List.replicate 2 (.helper true) ++ List.replicate 3 (.helper false) ++ [.barrier] ++
      List.replicate 2 (.helper false) ++ [.helper true]
    Lib.Along (fun s e => s.next number e) Allowed (start Bool) race ∧
      Stranded (race.foldl (fun s e => s.next number e) (start Bool)) := by
  decide

end Helpers

end Dlb.Mngo
