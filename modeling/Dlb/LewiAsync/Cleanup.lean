import Dlb.LewiAsync.Saved

/-!
# A dead process in the LeWI-async shared memory

`cleanup_shmem` of `shmem_lewi_async.c` only decrements the number of attached processes. The entry of the dead process
stays in the table whatever the other processes do (`entry_kept`), so that its CPUs and its requests stay too, and no run
of the living processes is as it should be (`dead_not_released`).
-/

namespace Dlb.LewiAsync

open Lib (Post)

/-- `cleanup_shmem`. The pid is not used. -/
def cleanupShmem (s : Shdata) (_ : Pid) : Shdata :=
  { s with attachedNprocs := if 0 < s.attachedNprocs then s.attachedNprocs - 1 else s.attachedNprocs }

/-- The shared memory, and the dead processes that were cleaned up. -/
structure Survivors where
  shm : Shdata := {}
  dead : Finset Pid := ∅

/-- A call of a living process, or the cleanup of a dead one. -/
inductive SurvivorEvent where
  | call (c : Caller) (op : Op)
  | cleanup (pid : Pid)

namespace Survivors

variable (E : Env) (s : Survivors)

/-- The state after an event; a call that does not return leaves it alone. -/
def next : SurvivorEvent → Survivors
  | .call c op => { s with shm := ((exec E c s.shm op).map Prod.fst).getD s.shm }
  | .cleanup pid => { shm := cleanupShmem s.shm pid, dead := insert pid s.dead }

def living : Finset ℕ := (registered s.shm).filter fun i => (s.shm.processes i).pid ∉ s.dead

/-- The dead processes keep nothing: no request, no entry, no share in the number of processes, no CPU. -/
structure Released : Prop where
  requests : ∀ r ∈ s.shm.requests, r.pid ∉ s.dead
  entries : ∀ i, (s.shm.processes i).pid ∉ s.dead
  attached : s.shm.attachedNprocs = s.living.card
  conserved : s.shm.idleCpus + ∑ i ∈ s.living, (s.shm.processes i).currentNcpus =
    ∑ i ∈ s.living, (s.shm.processes i).initialNcpus

end Survivors

def SurvivorEvent.IsOther (pid : Pid) : SurvivorEvent → Prop
  | .call _ op => op.pid ≠ pid
  | .cleanup _ => True

section Entry

variable {E : Env} {c : Caller} {s : Shdata} {pid : Pid} {i : ℕ}

theorem init_entry (hpid : pid ≠ 0) (hi : (s.processes i).pid = pid) (p : Pid) (n : ℕ) :
    ((init c s p n).1.processes i).pid = pid := by
  unfold init
  dsimp only
  generalize hs1 : (if s.attachedNprocs + 1 = 1 then
    { s with attachedNprocs := 1, maxProcesses := c.maxProcesses, idleCpus := 0, requests := [] }
    else { s with attachedNprocs := s.attachedNprocs + 1 } : Shdata) = s1
  have hproc : s1.processes = s.processes := by
    rw [← hs1]
    split
    · rfl
    · rfl
  have hi1 : (s1.processes i).pid = pid := hproc ▸ hi
  split
  · split
    · rename_i slot hslot
      have hempty : (s1.processes slot).pid = 0 := of_decide_eq_true (Lib.scan_some hslot).2.1
      have hne : i ≠ slot := by
        rintro rfl
        exact hpid (hi1.symm.trans hempty)
      change (Function.update s1.processes slot _ i).pid = pid
      rwa [Function.update_of_ne hne]
    · exact hi1
  · exact hi1

theorem finalize_entry (hi : (s.processes i).pid = pid) {p : Pid} (hp : p ≠ pid) (maxreqs : ℕ) :
    Post (fun r => (r.1.processes i).pid = pid) (finalize E c s p maxreqs) := by
  unfold finalize
  split
  · exact .of_some hi
  split
  · exact .of_some hi
  rename_i slot hslot
  have hne : i ≠ slot := by
    rintro rfl
    exact hp ((getProcess_pid hslot).symm.trans hi)
  refine resetProcess_tame.bind fun r h => .of_some ?_
  change (Function.update r.1.processes slot {} i).pid = pid
  rw [Function.update_of_ne hne, h.pid]
  exact hi

theorem exec_entry (hpid : pid ≠ 0) (hi : (s.processes i).pid = pid) {op : Op} (hop : op.pid ≠ pid) :
    Post (fun r => (r.1.processes i).pid = pid) (exec E c s op) := by
  have htame : ∀ {r : Shdata × Output}, Tame s r.1 → (r.1.processes i).pid = pid := fun h => (h.pid i).trans hi
  cases op with
  | init p n => exact .of_some (init_entry hpid hi p n)
  | lendCpus p n maxreqs => exact lendCpus_tame.mono fun _ => htame
  | lendKeepCpus p n maxreqs => exact lendKeepCpus_tame.mono fun _ => htame
  | reclaim p maxreqs k => exact reclaim_tame.mono fun _ => htame
  | acquireCpus p n maxreqs => exact acquireCpus_tame.mono fun _ => htame
  | borrowCpus p n => exact .of_some (htame (borrowCpus_tame c s p n))
  | reset p maxreqs => exact reset_tame.mono fun _ => htame
  | removeRequests p => exact .of_some (htame (r := (_, { error := .success })) (removeRequests_tame c s p))
  | finalize p maxreqs => exact finalize_entry hi hop maxreqs

end Entry

section Runs

variable {E : Env} {s : Survivors} {pid : Pid} {i : ℕ}

/-- The process is dead, and still has an entry. -/
structure Survivors.Haunted (pid : Pid) (i : ℕ) (s : Survivors) : Prop where
  dead : pid ∈ s.dead
  entry : (s.shm.processes i).pid = pid

theorem next_haunted (hpid : pid ≠ 0) (h : s.Haunted pid i) {e : SurvivorEvent} (he : e.IsOther pid) :
    (s.next E e).Haunted pid i := by
  cases e with
  | call c op =>
    refine ⟨h.dead, ?_⟩
    unfold Survivors.next
    dsimp only
    cases hexec : exec E c s.shm op with
    | none => exact h.entry
    | some r => exact exec_entry hpid h.entry he r hexec
  | cleanup q => exact ⟨Finset.mem_insert_of_mem h.dead, h.entry⟩

theorem entry_kept (hpid : pid ≠ 0) (h : s.Haunted pid i) (events : List SurvivorEvent)
    (hother : ∀ e ∈ events, e.IsOther pid) : (events.foldl (Survivors.next E) s).Haunted pid i := by
  induction events generalizing s with
  | nil => exact h
  | cons e rest ih =>
    obtain ⟨he, hrest⟩ := List.forall_mem_cons.mp hother
    exact ih (next_haunted hpid h he) hrest

/-- **A dead process keeps its entry**: in no state is it released, after any operations of the other processes. -/
theorem dead_not_released (E : Env) (s : Survivors) (hpid : pid ≠ 0) (hregistered : ∃ i, (s.shm.processes i).pid = pid)
    (events : List SurvivorEvent) (hother : ∀ e ∈ events, e.IsOther pid) :
    ¬ (events.foldl (Survivors.next E) (s.next E (.cleanup pid))).Released := by
  obtain ⟨i, hi⟩ := hregistered
  intro hreleased
  have hdead : (s.next E (.cleanup pid)).Haunted pid i := ⟨Finset.mem_insert_self _ _, hi⟩
  have h := entry_kept (E := E) hpid hdead events hother
  refine hreleased.entries i ?_
  rw [h.entry]
  exact h.dead

/-- Processes 1 and 2 have two CPUs each; process 2 lends one, and process 1 borrows it and asks for another one. -/
def twoProcesses : List SurvivorEvent :=
  [.call { maxProcesses := 4 } (.init 1 2), .call { maxProcesses := 4 } (.init 2 2),
    .call { maxProcesses := 4 } (.lendCpus 2 1 4), .call { maxProcesses := 4 } (.acquireCpus 1 2 4)]

/-- Process 1 dies, and process 2 goes on with a lend. -/
theorem dead_not_released_lend : ¬ ([.call { maxProcesses := 4 } (.lendCpus 2 1 4)].foldl (Survivors.next release)
    ((twoProcesses.foldl (Survivors.next release) {}).next release (.cleanup 1))).Released :=
  dead_not_released release (twoProcesses.foldl (Survivors.next release) {}) one_ne_zero ⟨0, by decide⟩ _
    (by simp [SurvivorEvent.IsOther, Op.pid])

/-- Process 1 dies. The CPU that process 2 lends then goes to the dead process, which still asks for it. -/
theorem dead_gets_lent_cpu : ¬ ∀ before after : List SurvivorEvent,
    (∃ i, ((before.foldl (Survivors.next release) {}).shm.processes i).pid = 1) → (∀ e ∈ after, e.IsOther 1) →
      (after.foldl (Survivors.next release)
        ((before.foldl (Survivors.next release) {}).next release (.cleanup 1))).Released := by
  intro h
  have hreleased := h twoProcesses [.call { maxProcesses := 4 } (.lendCpus 2 1 4)] ⟨0, by decide⟩
    (by simp [SurvivorEvent.IsOther, Op.pid])
  exact absurd hreleased.conserved (by decide)

end Runs

end Dlb.LewiAsync
